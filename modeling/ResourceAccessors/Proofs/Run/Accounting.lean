import ResourceAccessors.Proofs.Conversion.Effect
import ResourceAccessors.Proofs.Conversion.Escape
import ResourceAccessors.Proofs.FileSystem.Waiting
import ResourceAccessors.Proofs.Run.Loop

/-! What a run accounts for. If nothing a converter answers can end the conversion of a file in a
fault, a run over a directory that can be scanned returns; its outcomes are those of the files
that were found before the first of them was converted, each conversion started from the files the
one before it left, and its counts are those of the outcomes. -/
namespace ResourceAccessors
set_option autoImplicit false

open ResourceAccessors.Action FileSystem

/-- A converter that never interrupts, and whose results are texts with a path that holds no NUL
character. -/
structure Converter.Decent (converter : Converter) : Prop where
  family : ∀ {fs r thrown}, converter fs r = .error thrown → thrown.raised.family.interrupts = false
  named : ∀ {fs r value g}, converter fs r = .ok value → value.toAnswer = .ok (.generated g) →
    ¬ g.destination.HoldsNul
  text : ∀ {fs r value g}, converter fs r = .ok value → value.toAnswer = .ok (.generated g) →
    g.content.isText = true

/-- A decent converter whose faults can be told in words, and whose results have a path, above which
not too many directories are missing. -/
structure Converter.Orderly (converter : Converter) (fs : FileSystem) : Prop
    extends Decent converter where
  spoken : ∀ {mid r thrown}, converter mid r = .error thrown → thrown.instead = none
  placed : ∀ {mid r value fault}, converter mid r = .ok value →
    value.toAnswer ≠ .ok (.misplaced fault)
  shallow : ∀ {mid r value g}, converter mid r = .ok value → value.toAnswer = .ok (.generated g) →
    ¬ fs.TooDeep fs.limits.outputs g.destination.parent

namespace Conversion

variable {settings : Settings} {converter : Converter} {source : SourceFile}
  {fs mid : FileSystem} {g : Generated}

theorem not_escapes {e : Encoding} {fault : TextFault}
    (hname : Codec.ofName? settings.encoding = some (.text e)) (hnul : ¬ g.destination.HoldsNul)
    (htext : g.content.isText = true)
    (hshallow : ¬ fs.TooDeep fs.limits.outputs g.destination.parent) :
    ¬ Escapes fs settings.encoding g fault := by
  intro h
  cases h with
  | unreadable bytes _ ht => simp [hname] at ht
  | unwritable s _ _ ht => simp [hname] at ht
  | notText hcontent => simp [hcontent] at htext
  | nulInPath bytes _ hholds => exact hnul hholds
  | tooNested bytes _ _ hdeep => exact hshallow hdeep

theorem value_of_consult {r : Request} {answer : Answer}
    (h : consult converter r fs = .ok answer) :
    ∃ value, converter fs r = .ok value ∧ value.toAnswer = .ok answer := by
  unfold consult at h
  split at h
  · simp at h
  · next value hvalue =>
    split at h
    · simp at h
    · next given hgiven =>
      rw [Except.ok.injEq] at h
      exact ⟨value, hvalue, h ▸ hgiven⟩

/-- An answer that is no conversion result has a text of its own. -/
theorem spoken_of_consult {r : Request} {thrown : Thrown}
    (hspoken : ∀ {thrown}, converter fs r = .error thrown → thrown.instead = none)
    (h : consult converter r fs = .error thrown) : thrown.instead = none := by
  unfold consult at h
  split at h
  · next other hother => exact Except.error.inj h ▸ hspoken hother
  · split at h
    · exact Except.error.inj h ▸ rfl
    · simp at h

theorem step_returns {e : Encoding} (hcheck : settings.check = .ok ())
    (hname : Codec.ofName? settings.encoding = some (.text e)) (hconv : converter.Orderly fs)
    (htree : fs.IsTree) (hkeeps : fs.Keeps mid) (ordinal : Nat) (source : SourceFile) :
    ∃ o after, (step settings converter ordinal source).Returns mid o after := by
  have hforeign : Codec.ofName? settings.encoding ≠ some .foreign := by simp [hname]
  have hk := known_of_check hcheck hforeign
  cases hr : ((step settings converter ordinal source).run mid).result with
  | ok o => exact ⟨o, _, returns_iff.2 ⟨hr, rfl⟩⟩
  | error fault =>
    cases (step_eq_error_iff hk fun _ => hconv.family).1 hr with
    | escaped g f hg hescapes =>
      obtain ⟨value, hvalue, hgen⟩ := value_of_consult hg
      -- what was there is kept, so no more directories are missing than at first
      have hshallow := not_tooDeep_of_keeps (hconv.shallow hvalue hgen) hkeeps htree
      exact absurd hescapes
        (not_escapes hname (hconv.named hvalue hgen) (hconv.text hvalue hgen) hshallow)
    | misplaced why hg =>
      obtain ⟨value, hvalue, hgen⟩ := value_of_consult hg
      exact absurd hgen (hconv.placed hvalue)
    | unspoken thrown breakdown hthrown hinstead =>
      rw [spoken_of_consult hconv.spoken hthrown] at hinstead
      simp at hinstead

end Conversion

namespace Run

variable {settings : Settings} {converter : Converter} {listener : Option Listener}
  {total index : Nat} {fs mid after : FileSystem} {sources : List SourceFile} {os : List Outcome}

theorem exists_converts {e : Encoding} (hcheck : settings.check = .ok ())
    (hname : Codec.ofName? settings.encoding = some (.text e)) (hconv : converter.Orderly fs)
    (htree : fs.IsTree) (hheard : ∀ ordinal update, Heard listener ordinal update) (total : Nat)
    (hkeeps : fs.Keeps mid) (hmid : mid.IsTree) (index : Nat) (sources : List SourceFile) :
    ∃ os after, Converts settings converter listener total index mid sources os after := by
  induction sources generalizing index mid with
  | nil => exact ⟨[], mid, .nil index mid⟩
  | cons source rest ih =>
    obtain ⟨o, next, ho⟩ := Conversion.step_returns hcheck hname hconv htree hkeeps index source
    have heffect := Conversion.effect_of_step ho
    obtain ⟨os, after, hos⟩ := ih (hkeeps.trans (heffect.touched hmid).keeps)
      (heffect.isTree hmid) (index + 1)
    exact ⟨o :: os, after, .cons ho (hheard _ _) hos⟩

/-- The file systems between the conversions: each step leads from one to the next. -/
theorem Converts.exists_stages
    (h : Converts settings converter listener total index fs sources os after) :
    ∃ stage : Nat → FileSystem, stage 0 = fs ∧ stage sources.length = after ∧
      ∀ k source, sources[k]? = some source → ∃ o, os[k]? = some o ∧
        (Conversion.step settings converter (index + k) source).Returns (stage k) o
          (stage (k + 1)) := by
  induction h with
  | nil index fs => exact ⟨fun _ => fs, rfl, rfl, by simp⟩
  | @cons index fs mid after source rest o os ho _ _ ih =>
    obtain ⟨stage, hfirst, hlast, hsteps⟩ := ih
    -- the stages of the rest come one later, behind the file system it all started from
    refine ⟨fun k => k.casesOn fs stage, rfl, hlast, fun k s hs => ?_⟩
    cases k with
    | zero =>
      simp only [List.getElem?_cons_zero, Option.some.injEq] at hs
      subst hs
      refine ⟨o, rfl, ?_⟩
      change (Conversion.step settings converter index source).Returns fs o (stage 0)
      rw [hfirst]
      exact ho
    | succ k =>
      obtain ⟨o', ho', hstep⟩ := hsteps k s hs
      refine ⟨o', ho', ?_⟩
      rw [Nat.add_right_comm] at hstep
      exact hstep

theorem Converts.status_of_mem {o : Outcome}
    (h : Converts settings converter listener total index fs sources os after) (ho : o ∈ os) :
    o.status = .converted ∨ o.status = .unchanged ∨ o.status = .failed := by
  induction h with
  | nil => simp at ho
  | cons hstep _ _ ih =>
    rcases List.mem_cons.1 ho with rfl | hmem
    · exact (Conversion.outcome_of_step (returns_iff.1 hstep).1).2.2
    · exact ih hmem

theorem run_accounts {base : Option Path} {e : Encoding} (hcheck : settings.check = .ok ())
    (hname : Codec.ofName? settings.encoding = some (.text e)) (hreport : settings.report = none)
    (hconv : converter.Orderly fs) (htree : fs.IsTree)
    (hheard : ∀ ordinal update, Heard listener ordinal update)
    (hroot : fs.isDirectory (rootOf settings base fs) = .ok true)
    (hscan : Scan.run fs (rootOf settings base fs) settings.patterns.texts settings.recursive =
      .ok sources) :
    ∃ (summary : Summary) (stage : Nat → FileSystem),
      (run settings converter listener base).Returns fs summary (stage sources.length) ∧
      stage 0 = fs ∧ summary.outcomes.length = sources.length ∧
      (∀ k source, sources[k]? = some source → ∃ o, summary.outcomes[k]? = some o ∧
        o.source = source.source ∧ o.relative = source.relative ∧
        (Conversion.step settings converter k source).Returns (stage k) o (stage (k + 1))) ∧
      summary.processed = summary.outcomes.length ∧
      summary.converted = summary.outcomes.countP (·.status = .converted) ∧
      summary.failed = summary.outcomes.countP (·.status = .failed) ∧
      summary.unchanged = summary.outcomes.countP (·.status = .unchanged) ∧
      (summary.succeeded = true ↔ summary.failed = 0) ∧ summary.rootMissing = false := by
  obtain ⟨os, after, hos⟩ :=
    exists_converts hcheck hname hconv htree hheard sources.length (.refl fs) htree 0 sources
  obtain ⟨stage, hfirst, hlast, hsteps⟩ := hos.exists_stages
  have hreturns := (run_returns_iff hreport).2
    ⟨hcheck, hroot, sources, os, ⟨hscan, hos, hheard _ _⟩, rfl⟩
  have hunchanged :=
    Summary.unchanged_recorded (rootOf settings base fs) fun o ho => hos.status_of_mem ho
  refine ⟨concluded (Summary.recorded (rootOf settings base fs) os), stage, hlast ▸ hreturns.1,
    hfirst, ?_⟩
  rw [concluded_recorded]
  rw [Summary.recorded_eq] at hunchanged ⊢
  refine ⟨hos.length_eq, fun k source hs => ?_, rfl, rfl, rfl, hunchanged, by simp, rfl⟩
  obtain ⟨o, ho, hstep⟩ := hsteps k source hs
  rw [Nat.zero_add] at hstep
  obtain ⟨hsource, hrelative, -⟩ := Conversion.outcome_of_step (returns_iff.1 hstep).1
  exact ⟨o, ho, hsource, hrelative, hstep⟩

def twoResources : FileSystem :=
  ((((FileSystem.empty .usual).set ["a"] .directory).set ["a", "LocalizedText.resx"] (.file [])).set
    ["b"] .directory).set ["b", "LocalizedText.resx"] (.file [])

theorem twoResources_isTree : twoResources.IsTree := by
  have hroot : ∀ {fs : FileSystem} {name : String}, fs.IsTree → fs.entryAt ([] ++ [name]) = none →
      (fs.set ([] ++ [name]) .directory).IsTree := fun h => h.set_child (FileSystem.entryAt_nil _)
  have hin : ∀ {fs : FileSystem} {dir : String}, fs.IsTree → fs.entryAt [dir] = some .directory →
      fs.entryAt ([dir] ++ ["LocalizedText.resx"]) = none →
        (fs.set ([dir] ++ ["LocalizedText.resx"]) (.file [])).IsTree := fun h => h.set_child
  exact hin (hroot (hin (hroot (FileSystem.isTree_empty .usual) rfl) rfl rfl) rfl) rfl rfl

theorem twoResources_linkFree : twoResources.LinkFree := by
  refine ((((FileSystem.linkFree_empty .usual).set ?_ ?_).set ?_ ?_).set ?_ ?_).set ?_ ?_ <;> simp

/-- Fails at its first call and has one file for all others. -/
def secondOnly : Converter := fun _ r =>
  if r.ordinal = 0 then .error ⟨⟨.conversion, "ConversionError", "no"⟩, none⟩
  else .ok (.tuple [.text "/out", .text "c"])

theorem toAnswer_secondOnly {mid : FileSystem} {r : Request} {value : Value}
    (h : secondOnly mid r = .ok value) :
    value.toAnswer = .ok (.generated ⟨.ofString "/out", .text "c"⟩) := by
  unfold secondOnly at h
  split at h
  · simp at h
  · rw [← Except.ok.inj h]
    rfl

theorem thrown_secondOnly {mid : FileSystem} {r : Request} {thrown : Thrown}
    (h : secondOnly mid r = .error thrown) :
    thrown = ⟨⟨.conversion, "ConversionError", "no"⟩, none⟩ := by
  unfold secondOnly at h
  split at h
  · exact (Except.error.inj h).symm
  · simp at h

theorem secondOnly_orderly : secondOnly.Orderly twoResources where
  family h := thrown_secondOnly h ▸ rfl
  named h hg := by
    obtain rfl := Answer.generated.inj (Except.ok.inj ((toAnswer_secondOnly h).symm.trans hg))
    rintro ⟨n, hn, hnul⟩
    have hnames : (Path.ofString "/out").names = ["out"] := by decide +kernel
    rw [hnames, List.mem_singleton] at hn
    subst hn
    exact absurd hnul (by decide)
  text h hg := by
    obtain rfl := Answer.generated.inj (Except.ok.inj ((toAnswer_secondOnly h).symm.trans hg))
    rfl
  spoken h := thrown_secondOnly h ▸ rfl
  placed h := by simp [toAnswer_secondOnly h]
  shallow h hg := by
    obtain rfl := Answer.generated.inj (Except.ok.inj ((toAnswer_secondOnly h).symm.trans hg))
    decide +kernel

def resourceOf (directory : String) : SourceFile :=
  Scan.sourceFile ⟨.root, []⟩ [directory, "LocalizedText.resx"]

theorem scan_twoResources :
    Scan.run twoResources (rootOf Conversion.plainSettings none twoResources)
      Conversion.plainSettings.patterns.texts Conversion.plainSettings.recursive =
        .ok [resourceOf "a", resourceOf "b"] := rfl

theorem run_accounts_secondOnly :
    Scan.run twoResources ⟨.root, []⟩ Conversion.plainSettings.patterns.texts true =
        .ok [resourceOf "a", resourceOf "b"] ∧
      ∃ (summary : Summary) (stage : Nat → FileSystem),
        (run Conversion.plainSettings secondOnly none none).Returns twoResources summary (stage 2) ∧
        stage 0 = twoResources ∧ summary.processed = 2 := by
  have hroot : twoResources.isDirectory (rootOf Conversion.plainSettings none twoResources) =
      .ok true := rfl
  have hscan : Scan.run twoResources (rootOf Conversion.plainSettings none twoResources)
      Conversion.plainSettings.patterns.texts true = .ok [resourceOf "a", resourceOf "b"] := rfl
  have hname : Codec.ofName? Conversion.plainSettings.encoding = some (.text (.plain .utf8)) := by
    decide +kernel
  obtain ⟨summary, stage, hreturns, hfirst, hlength, -, hprocessed, -⟩ :=
    run_accounts Conversion.plainSettings_check hname rfl secondOnly_orderly twoResources_isTree
      heard_none hroot hscan
  exact ⟨hscan, summary, stage, hreturns, hfirst, hprocessed.trans hlength⟩

/-- What the second conversion leaves. -/
def secondAfter : FileSystem :=
  twoResources.set ["out"] (.file [0x63])

def secondOutcomes : List Outcome :=
  [Conversion.failed (resourceOf "a") none "no",
    Conversion.finished (resourceOf "b") ⟨.root, ["out"]⟩ true]

theorem run_secondOnly (hheard : ∀ ordinal update, Heard listener ordinal update) :
    (run Conversion.plainSettings secondOnly listener none).Returns twoResources
      (concluded (Summary.recorded ⟨.root, []⟩ secondOutcomes)) secondAfter := by
  have hfirst : (Conversion.step Conversion.plainSettings secondOnly 0 (resourceOf "a")).Returns
      twoResources (Conversion.failed (resourceOf "a") none "no") twoResources :=
    returns_iff.2 ⟨rfl, rfl⟩
  have hsecond : (Conversion.step Conversion.plainSettings secondOnly 1 (resourceOf "b")).Returns
      twoResources (Conversion.finished (resourceOf "b") ⟨.root, ["out"]⟩ true) secondAfter :=
    returns_iff.2 ⟨rfl, rfl⟩
  have hfinishes : Finishes Conversion.plainSettings secondOnly listener
      (rootOf Conversion.plainSettings none twoResources) twoResources
      [resourceOf "a", resourceOf "b"] secondOutcomes secondAfter :=
    ⟨scan_twoResources, .cons hfirst (hheard _ _) (.cons hsecond (hheard _ _) (.nil 2 _)),
      hheard _ _⟩
  exact ((run_returns_iff rfl).2
    ⟨Conversion.plainSettings_check, rfl, _, secondOutcomes, hfinishes, rfl⟩).1

/-! ## Outputs below too many directories -/

/-- A file below the directories given and so many more. -/
def deepOutput (above : List String) (n : Nat) : Path :=
  ⟨.root, above ++ List.replicate n "e" ++ ["out"]⟩

variable {name : String} {above : List String} {n : Nat} {limit : CallLimit}

theorem checkPath_deepOutput (hnul : ∀ s ∈ above, '\x00' ∉ s.toList)
    (hsize : Path.sizeOfNames above + 2 * n + 4 ≤ maxPathBytes) :
    checkPath (deepOutput above n) = .ok () := by
  refine checkPath_eq_ok_iff.2 ⟨?_, ?_⟩
  · rintro ⟨s, hs, hmem⟩
    rcases List.mem_append.1 hs with h | h
    · rcases List.mem_append.1 h with h | h
      · exact hnul s h hmem
      · rw [List.eq_of_mem_replicate h] at hmem
        exact absurd hmem (by decide)
    · rw [List.mem_singleton.1 h] at hmem
      exact absurd hmem (by decide)
  · have htext := Path.size_toString (p := deepOutput above n) (List.concat_ne_nil _ _)
    have hslash : Anchor.root.text.utf8ByteSize = 1 := rfl
    have he : "e".utf8ByteSize = 1 := rfl
    have hout : Path.sizeOfNames ["out"] = 4 := rfl
    simp only [deepOutput, Path.sizeOfNames_append, Path.sizeOfNames_replicate, hslash, he,
      hout] at htext ⊢
    omega

theorem parent_deepOutput :
    (deepOutput above n).parent = ⟨.root, above ++ List.replicate n "e"⟩ := by
  rw [Path.parent, deepOutput, List.dropLast_concat]

theorem tooDeep_deepOutput_iff (hlooked : checkPath (deepOutput (name :: above) n) = .ok ())
    (hname : Path.isEntryName name = true) (hsize : name.utf8ByteSize ≤ maxNameBytes)
    (hfree : fs.entryAt [name] = none) :
    fs.TooDeep limit (deepOutput (name :: above) n).parent ↔ limit.calls < above.length + n := by
  have hparent : (deepOutput (name :: above) n).parent =
      (deepOutput (name :: above) n).take ((deepOutput (name :: above) n).names.length - 1) := by
    rw [Path.parent, Path.take, List.dropLast_eq_take]
  have hlooked' : checkPath (deepOutput (name :: above) n).parent = .ok () := by
    rw [hparent]
    refine checkPath_take hlooked ?_
    rw [← List.dropLast_eq_take, deepOutput, List.dropLast_concat]
    exact List.cons_ne_nil _ _
  rw [parent_deepOutput] at hlooked' ⊢
  rw [tooDeep_missing_iff hlooked' rfl (List.cons_append ..) hname hsize hfree,
    List.length_append, List.length_replicate]

def deepConverter (n : Nat) : Converter := fun _ _ =>
  .ok (.tuple [.path (deepOutput ["d"] n), .text "c"])

theorem checkPath_deepOutput_d (hn : 2 * n + 6 ≤ maxPathBytes) :
    checkPath (deepOutput ["d"] n) = .ok () := by
  have hd : Path.sizeOfNames ["d"] = 2 := rfl
  exact checkPath_deepOutput (by decide) (by rw [hd]; omega)

theorem deepConverter_decent (hn : 2 * n + 6 ≤ maxPathBytes) : (deepConverter n).Decent where
  family h := by simp [deepConverter] at h
  named h hg := by
    rw [← Except.ok.inj h] at hg
    rw [← Answer.generated.inj (Except.ok.inj hg)]
    exact (checkPath_eq_ok_iff.1 (checkPath_deepOutput_d hn)).1
  text h hg := by
    rw [← Except.ok.inj h] at hg
    rw [← Answer.generated.inj (Except.ok.inj hg)]
    rfl

theorem step_deepConverter (hn : 2 * n + 6 ≤ maxPathBytes)
    (hdeep : twoResources.limits.outputs.calls < n) (ordinal : Nat) (source : SourceFile) :
    ((Conversion.step Conversion.plainSettings (deepConverter n) ordinal source).run
      twoResources).result =
        .error (.text (.file (.tooNested twoResources.limits.outputs.reason))) := by
  have hk : TextFile.Known Conversion.plainSettings.encoding :=
    Conversion.known_of_check Conversion.plainSettings_check (by decide +kernel)
  have hlooked := checkPath_deepOutput_d hn
  have hfree : twoResources.entryAt ["d"] = none := rfl
  have hshallow : twoResources.hasEntry (deepOutput ["d"] n) = .ok false :=
    hasEntry_of_missing hlooked rfl rfl (by decide) (by decide) hfree
  refine (Conversion.step_eq_error_iff hk fun thrown h => ?_).2
    (.escaped ⟨deepOutput ["d"] n, .text "c"⟩ _ rfl (.tooNested [0x63] rfl
      (TextFile.differs_of_absent hshallow)
      ((tooDeep_deepOutput_iff hlooked (by decide) (by decide) hfree).2 (by simpa using hdeep))))
  simp [deepConverter] at h

/-- A run need not account for the files it found, though its converter is decent. An output below
more missing directories than may wait for one another ends it. -/
theorem not_run_always_accounts :
    ¬ ∀ (settings : Settings) (converter : Converter) (base : Option Path) (fs : FileSystem)
      (sources : List SourceFile) (e : Encoding), fs.IsTree → settings.check = .ok () →
      Codec.ofName? settings.encoding = some (.text e) → settings.report = none →
      converter.Decent → fs.isDirectory (rootOf settings base fs) = .ok true →
      Scan.run fs (rootOf settings base fs) settings.patterns.texts settings.recursive =
        .ok sources →
      ∃ summary after, (run settings converter none base).Returns fs summary after := by
  intro h
  have hn : 2 * 1000 + 6 ≤ maxPathBytes := by decide
  obtain ⟨summary, after, hreturns⟩ := h Conversion.plainSettings (deepConverter 1000) none
    twoResources [resourceOf "a", resourceOf "b"] (.plain .utf8) twoResources_isTree
    Conversion.plainSettings_check (by decide +kernel) rfl (deepConverter_decent hn) rfl
    scan_twoResources
  obtain ⟨sources, os, hfinishes, -⟩ :=
    (convertAll_returns_iff rfl).1 ((run_returns_iff_convertAll rfl).1 hreturns).2
  obtain rfl := Except.ok.inj (scan_twoResources.symm.trans hfinishes.scanned)
  cases hfinishes.converts with
  | cons hstep _ _ =>
    have hfault := step_deepConverter hn (by decide) 0 (resourceOf "a")
    rw [(returns_iff.1 hstep).1] at hfault
    simp at hfault

end Run

end ResourceAccessors
