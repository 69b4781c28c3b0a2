import ResourceAccessors.Proofs.Conversion.Aside
import ResourceAccessors.Proofs.Run.Course
import ResourceAccessors.Proofs.Run.Repeated

/-! Runs with one file more, which they have nothing to do with. No pattern accepts its name and no
output needs its place, so the scan passes over it, and each conversion does what it would do without
it. The whole run then comes to the same, tells the same, and leaves the file where it was. Only its
place can be at fault: a scan asks of whatever is in its reach whether it is a file, and cannot tell
if the root is spelled at such length that no name fits behind it. -/
namespace ResourceAccessors
set_option autoImplicit false

open ResourceAccessors.Action FileSystem

variable {fs after : FileSystem} {q dir : Location} {bytes : List UInt8} {root : Path}

/-! ## Scans -/

/-- A scan passes over a file that is added, whether it is in its reach or not. -/
theorem Scan.run_set {patterns : List String} {recursive : Bool} {sources : List SourceFile}
    (htree : fs.IsTree) (hl : fs.LinkFree) (hroot : fs.locate root = .ok dir)
    (hdir : fs.entryAt dir = some .directory) (hfree : fs.entryAt q = none)
    (hparent : fs.entryAt q.dropLast = some .directory) (hfits : Fits q)
    (hrejected : Pattern.anyAccepts patterns (q.getLastD "") = false)
    (hshort : ∀ names, dir ++ names = q → (recursive = true ∨ names.length = 1) →
      (root.below names).toString.utf8ByteSize ≤ maxPathBytes)
    (hscan : Scan.run fs root patterns recursive = .ok sources) :
    Scan.run (fs.set q (.file bytes)) root patterns recursive = .ok sources := by
  have hq := ne_nil_of_free hfree
  have hafter : (fs.set q (.file bytes)).IsTree := htree.set_free hfree hparent
  have hlafter : (fs.set q (.file bytes)).LinkFree := hl.set hq (by simp)
  have hgrown : Grown [q] fs (fs.set q (.file bytes)) := grown_set hfree
  refine run_of_new hafter hlafter hgrown hroot hdir (fun out hout _ => ?_)
    (fun {names} hmem hnew => ?_) htree hl hscan
  · rw [List.mem_singleton.1 hout, hrejected]
  · -- the file is the only entry that was not there before
    obtain ⟨hne, hlength, -, hthere⟩ := of_mem_below hmem
    have hplace : dir ++ names = q := by
      rw [entryAt_set _ _ _ _ hq, hnew] at hthere
      split at hthere
      · assumption
      · simp at hthere
    have hreach : recursive = true ∨ names.length = 1 := by
      cases recursive with
      | true => exact .inl rfl
      | false => exact .inr (Nat.le_antisymm hlength (List.length_pos_iff.2 hne))
    have hfits' : Fits names := fun n hn => hfits n (hplace ▸ List.mem_append_right dir hn)
    obtain ⟨hdecided, hleft⟩ := passed_over_of_short hafter hlafter (hgrown.keeps.locate hroot)
      (hgrown.keeps.directory hdir) hmem hfits' (hshort names hplace hreach)
      (.inl (hplace ▸ hrejected))
    refine ⟨hdecided, hleft, fun _ hdirectory => ?_⟩
    rw [hplace, entryAt_set _ _ _ _ hq, if_pos rfl] at hdirectory
    simp at hdirectory

namespace Run

open Conversion

variable {settings : Settings} {converter : Converter} {listener : Option Listener}
  {base : Option Path} {total index : Nat} {sources : List SourceFile} {os : List Outcome}
  {summary : Summary} {events : List Event} {g : FileSystem → FileSystem} {e : Entry}

/-! ## What is told -/

theorem sayAll_commutes (messages : List Message) : (sayAll messages).Commutes g fs := by
  induction messages generalizing fs with
  | nil => exact commutes_pure _
  | cons m messages ih => exact (commutes_emit _).bind fun _ _ _ => ih

theorem announce_commutes (ordinal : Nat) (update : Progress) :
    (announce listener ordinal update).Commutes g fs := by
  unfold announce
  cases listener with
  | none => exact commutes_pure _
  | some hear =>
    refine (commutes_emit _).bind fun _ _ _ => ?_
    cases hear ordinal update with
    | some raised => exact commutes_fail _
    | none => exact commutes_pure _

theorem conclude_commutes (total : Nat) (summary : Summary) :
    (conclude listener total summary).Commutes g fs := by
  unfold conclude
  split
  · exact (commutes_emit _).bind fun _ _ _ => (commutes_emit _).bind fun _ _ _ =>
      (commutes_emit _).bind fun _ _ _ => (announce_commutes _ _).bind fun _ _ _ =>
      (commutes_emit _).bind fun _ _ _ => commutes_pure _
  · exact (announce_commutes _ _).bind fun _ _ _ => (commutes_emit _).bind fun _ _ _ =>
      (commutes_emit _).bind fun _ _ _ => commutes_pure _

/-! ## The loop -/

theorem Converts.commutes (hconv : converter.ReadsSource)
    (h : Converts settings converter listener total index fs sources os after)
    (htree : fs.IsTree) (hl : fs.LinkFree) (hfree : fs.entryAt q = none)
    (hplain : ∀ o ∈ os, ∀ p, o.output = some p → p.Plain)
    (haside : ∀ o ∈ os, ∀ p, o.output = some p → ¬ q <+: p.names)
    (hsources : ∀ s ∈ sources, ∃ loc, fs.locate s.source = .ok loc) :
    after.entryAt q = none ∧ ∀ summary,
      (convertFrom settings converter listener total index summary sources).Commutes
        (·.set q e) fs := by
  induction h with
  | nil => exact ⟨hfree, fun _ => commutes_pure _⟩
  | @cons index fs mid after source rest o os hstep hheard hrest ih =>
    obtain ⟨hplaino, hplain⟩ := List.forall_mem_cons.1 hplain
    obtain ⟨hasideo, haside⟩ := List.forall_mem_cons.1 haside
    obtain ⟨⟨loc, hloc⟩, hsources⟩ := List.forall_mem_cons.1 hsources
    have heffect := effect_of_step hstep
    obtain ⟨hlmid, hgrown⟩ := heffect.grown htree hl hplaino
    have habove : ∀ out ∈ o.output.toList.map Path.names, ¬ q <+: out := by
      intro out hout
      obtain ⟨p, hp, rfl⟩ := List.mem_map.1 hout
      exact hasideo p (Option.mem_toList.1 hp)
    have hfreemid := hgrown.free hfree habove
    -- the source is there, so it is not the file that is added
    have hread : (fs.set q e).read source.source = fs.read source.source := by
      refine (grown_set hfree).read_eq htree hloc fun hmem => ?_
      obtain ⟨there, hthere⟩ := htree.exists_entry_of_locate hloc
      rw [List.mem_singleton.1 hmem, hfree] at hthere
      simp at hthere
    have hcommutes := step_commutes hl (consult_congr hconv hread index index) hstep hplaino hasideo
    obtain ⟨hlast, hloop⟩ := ih (heffect.isTree htree) hlmid hfreemid hplain haside fun s hs => by
      obtain ⟨l, hlocate⟩ := hsources s hs
      exact ⟨l, hgrown.keeps.locate hlocate⟩
    refine ⟨hlast, fun summary => ?_⟩
    rw [convertFrom]
    refine hcommutes.bind fun o' mid' ho' => ?_
    obtain ⟨rfl, rfl⟩ := ho'.unique hstep
    refine (sayAll_commutes _).bind fun _ said hsaid => ?_
    obtain ⟨-, rfl⟩ := hsaid.unique (sayAll_returns _ _)
    refine (announce_commutes _ _).bind fun _ told htold => ?_
    obtain ⟨-, rfl⟩ := announce_returns_iff.1 htold
    exact hloop _

/-! ## The run -/

/-- A location for one file more, which a run has nothing to do with. -/
structure Spare (settings : Settings) (fs : FileSystem) (summary : Summary) (q : Location) :
    Prop where
  free : fs.entryAt q = none
  parent : fs.entryAt q.dropLast = some .directory
  fits : Fits q
  rejected : Pattern.anyAccepts settings.patterns.texts (q.getLastD "") = false
  aside : ∀ o ∈ summary.outcomes, ∀ p, o.output = some p → ¬ q <+: p.names

/-- A location that a scan of the root looks at, if there is something, is spelled through the root
in no more bytes than a path may have. -/
def SeenShort (settings : Settings) (fs : FileSystem) (summary : Summary) (q : Location) : Prop :=
  ∀ dir names, fs.locate summary.root = .ok dir → dir ++ names = q →
    (settings.recursive = true ∨ names.length = 1) →
      (summary.root.below names).toString.utf8ByteSize ≤ maxPathBytes

theorem convertFound_commutes (hreport : settings.report = none)
    (hloop : ∀ summary, (convertFrom settings converter listener sources.length 0 summary
      sources).Commutes g fs) :
    (convertFound settings converter listener root sources).Commutes g fs := by
  have hsources : (convertSources settings converter listener root sources).Commutes g fs :=
    (hloop _).bind fun _ _ _ => conclude_commutes _ _
  unfold convertFound
  rw [hreport]
  exact hsources.bind fun _ _ _ => (commutes_pure _).bind fun _ _ _ => commutes_pure _

theorem run_commutes (hl : fs.LinkFree) (hfree : fs.entryAt q = none)
    (hfound : fs.isDirectory (rootOf settings base fs) = .ok true → ∃ sources,
      Scan.run fs (rootOf settings base fs) settings.patterns.texts settings.recursive =
          .ok sources ∧
        Scan.run (fs.set q (.file bytes)) (rootOf settings base fs) settings.patterns.texts
          settings.recursive = .ok sources ∧
        (convertFound settings converter listener (rootOf settings base fs) sources).Commutes
          (·.set q (.file bytes)) fs) :
    (run settings converter listener base).Commutes (·.set q (.file bytes)) fs := by
  have hroot : rootOf settings base (fs.set q (.file bytes)) = rootOf settings base fs := rfl
  unfold Commutes
  rw [run_eq, run_eq, hroot, isDirectory_set hl hfree]
  cases settings.check with
  | error fault => rfl
  | ok =>
    cases hdir : fs.isDirectory (rootOf settings base fs) with
    | error fault => rfl
    | ok isDir =>
      cases isDir with
      | false => rfl
      | true =>
        obtain ⟨sources, hscan, hscan', hcommutes⟩ := hfound hdir
        unfold Commutes at hcommutes
        simp only [run_convertAll, hscan, hscan', hcommutes]

/-- A run does the same with a file more that it has nothing to do with, and leaves that file. -/
theorem run_framed (htree : fs.IsTree) (hl : fs.LinkFree) (hconv : converter.ReadsSource)
    (hreport : settings.report = none)
    (hrun : (run settings converter listener base).run fs = ⟨.ok summary, after, events⟩)
    (hplain : ∀ o ∈ summary.outcomes, ∀ p, o.output = some p → p.Plain)
    (hspare : Spare settings fs summary q) (hshort : SeenShort settings fs summary q)
    (bytes : List UInt8) :
    after.entryAt q = none ∧
      (run settings converter listener base).run (fs.set q (.file bytes)) =
        ⟨.ok summary, after.set q (.file bytes), events⟩ := by
  have hreturns : (run settings converter listener base).Returns fs summary after := ⟨events, hrun⟩
  have hcommutes : after.entryAt q = none ∧
      (run settings converter listener base).Commutes (·.set q (.file bytes)) fs := by
    rcases run_returns_cases hreturns with ⟨hmissing, rfl, -⟩ | ⟨hisdir, hall⟩
    · exact ⟨hspare.free, run_commutes hl hspare.free fun hisdir => by simp [hmissing] at hisdir⟩
    · obtain ⟨sources, os, hfinishes, rfl⟩ := (convertAll_returns_iff hreport).1 hall
      obtain ⟨dir, hroot, hdir⟩ := isDirectory_eq_true_iff.1 hisdir
      rw [concluded_recorded, Summary.recorded_eq] at hplain hspare hshort
      have hscan : Scan.run (fs.set q (.file bytes)) (rootOf settings base fs)
          settings.patterns.texts settings.recursive = .ok sources :=
        Scan.run_set htree hl hroot hdir hspare.free hspare.parent hspare.fits hspare.rejected
          (fun names => hshort dir names hroot) hfinishes.scanned
      obtain ⟨hlast, hloop⟩ := hfinishes.converts.commutes hconv htree hl hspare.free hplain
        hspare.aside fun s hs => Scan.exists_locate_of_run hroot hdir hfinishes.scanned hs
      exact ⟨hlast, run_commutes hl hspare.free fun _ =>
        ⟨sources, hfinishes.scanned, hscan, convertFound_commutes hreport hloop⟩⟩
  obtain ⟨hlast, hsame⟩ := hcommutes
  unfold Commutes at hsame
  rw [hrun] at hsame
  exact ⟨hlast, hsame⟩

/-! ## A file beside the only source -/

def besideSource : Location := ["d", "new"]

theorem spare_detour (n : Nat) : Spare singleSettings singleSource
    (concluded (Summary.recorded (detour n) [singleOutcome n])) besideSource := by
  rw [concluded_recorded, Summary.recorded_eq]
  refine ⟨rfl, rfl, by unfold Fits; decide, by decide +kernel, fun o ho p hp => ?_⟩
  rw [List.mem_singleton.1 ho] at hp
  rw [← Option.some.inj hp]
  decide

theorem plain_detour (n : Nat) :
    ∀ o ∈ (concluded (Summary.recorded (detour n) [singleOutcome n])).outcomes, ∀ p,
      o.output = some p → p.Plain :=
  (separate_detour n).plain

theorem run_framed_detour :
    ∃ events, (run singleSettings constantConverter none (some (detour 3))).run
        (singleSource.set besideSource (.file [0x78])) =
      ⟨.ok (concluded (Summary.recorded (detour 3) [singleOutcome 3])),
        singleAfter.set besideSource (.file [0x78]), events⟩ := by
  have hd : singleSource.entryAt ["d"] = some .directory := rfl
  have hshort : SeenShort singleSettings singleSource
      (concluded (Summary.recorded (detour 3) [singleOutcome 3])) besideSource := by
    rw [concluded_recorded, Summary.recorded_eq]
    intro dir names hdir hnames _
    obtain rfl : ["d"] = dir := Except.ok.inj ((locate_detour hd 3 (by decide)).symm.trans hdir)
    obtain rfl : names = ["new"] := List.append_cancel_left hnames
    rw [size_detour_below]
    decide
  obtain ⟨events, hrun⟩ := run_detour (n := 3) (by decide)
  exact ⟨events, (run_framed singleSource_isTree singleSource_linkFree
    constantConverter_readsSource rfl hrun (plain_detour 3) (spare_detour 3) hshort [0x78]).2⟩

/-- A file that a run has nothing to do with can still stop its scan. -/
theorem not_run_always_framed :
    ¬ ∀ (settings : Settings) (converter : Converter) (base : Option Path)
      (fs after : FileSystem) (summary : Summary) (events : List Event) (q : Location)
      (bytes : List UInt8), fs.IsTree → fs.LinkFree → converter.ReadsSource →
      settings.report = none →
      (run settings converter none base).run fs = ⟨.ok summary, after, events⟩ →
      (∀ o ∈ summary.outcomes, ∀ p, o.output = some p → p.Plain) →
      Spare settings fs summary q →
      (run settings converter none base).run (fs.set q (.file bytes)) =
        ⟨.ok summary, after.set q (.file bytes), events⟩ := by
  intro h
  obtain ⟨events, hrun⟩ := run_detour (n := 818) (by decide)
  have hmore := h singleSettings constantConverter (some (detour 818)) singleSource singleAfter _
    events besideSource [] singleSource_isTree singleSource_linkFree constantConverter_readsSource
    rfl hrun (plain_detour 818) (spare_detour 818)
  have htree : (singleSource.set besideSource (.file [])).IsTree :=
    singleSource_isTree.set_free rfl rfl
  have hl : (singleSource.set besideSource (.file [])).LinkFree :=
    singleSource_linkFree.set (by decide) (by simp)
  have hd : (singleSource.set besideSource (.file [])).entryAt ["d"] = some .directory := rfl
  have hmem : ["new"] ∈ (singleSource.set besideSource (.file [])).below
      (Scan.depthOf (singleSource.set besideSource (.file [])) true) ["d"] := by
    decide +kernel
  have hisdir : (singleSource.set besideSource (.file [])).isDirectory (rootOf singleSettings
      (some (detour 818)) (singleSource.set besideSource (.file []))) = .ok true := by
    rw [rootOf_detour]
    exact isDirectory_eq_true_iff.2 ⟨_, locate_detour hd 818 (by decide), hd⟩
  obtain ⟨-, hall⟩ := (run_returns_iff_convertAll hisdir).1 ⟨events, hmore⟩
  obtain ⟨sources, os, hfinishes, -⟩ := (convertAll_returns_iff rfl).1 hall
  rw [rootOf_detour] at hfinishes
  exact scan_detour_fails htree hl hd hmem (by decide) (by decide) (by decide) hfinishes.scanned

end Run

end ResourceAccessors
