import ResourceAccessors.Proofs.Conversion.Escape
import ResourceAccessors.Proofs.Run.Loop
import ResourceAccessors.Proofs.Scan.Stable

/-! Runs that are repeated. Where there are no links and a converter answers from its source alone,
a conversion that did not fail is settled: asked again it gives the same text, and the output holds
it. Later conversions keep it settled as long as they write elsewhere, so behind the loop all of
them are, and a second run changes nothing. -/
namespace ResourceAccessors
set_option autoImplicit false

open ResourceAccessors.Action FileSystem

/-- A converter that answers from the file it is asked about. What else there is does not matter,
nor how often it was asked. -/
def Converter.ReadsSource (converter : Converter) : Prop :=
  ∃ answer : Path → Except FileFault (List UInt8) → String → Bool → Except Thrown Value,
    ∀ fs r, converter fs r = answer r.source (fs.read r.source) r.accessorNamespace r.internal

/-- The outcome of the same conversion where nothing is left to be written. -/
def Outcome.unchanged (o : Outcome) : Outcome :=
  { o with status := .unchanged }

namespace Conversion

variable {settings : Settings} {converter : Converter} {source : SourceFile} {o : Outcome}
  {g : Generated} {fs mid after : FileSystem} {loc : Location} {outputs : List Location}
  {ordinal : Nat}

theorem consult_congr (hconv : converter.ReadsSource)
    (hread : after.read source.source = fs.read source.source) (n m : Nat) :
    consult converter (request settings n source) after =
      consult converter (request settings m source) fs := by
  obtain ⟨answer, hanswer⟩ := hconv
  simp only [consult, hanswer, request, hread]

/-- A conversion that, made again, gives what its output holds. -/
structure Settled (settings : Settings) (converter : Converter) (fs : FileSystem)
    (source : SourceFile) (o : Outcome) (g : Generated) : Prop where
  consulted : ∀ ordinal, consult converter (request settings ordinal source) fs = .ok (.generated g)
  same : TextFile.differs fs g.destination g.content settings.encoding = .ok false
  outcome : o.unchanged = finished source g.destination false

theorem Settled.step_returns (h : Settled settings converter fs source o g) (ordinal : Nat) :
    (step settings converter ordinal source).Returns fs o.unchanged fs := by
  rw [returns_iff, run_step, h.consulted ordinal, h.outcome]
  simp only [run_handle_generated, Output.run_writeIfChanged, h.same, and_self]

theorem Settled.output_eq (h : Settled settings converter fs source o g) :
    o.output = some g.destination :=
  congrArg Outcome.output h.outcome

theorem Settled.locate (h : Settled settings converter fs source o g) (hl : fs.LinkFree)
    (hp : g.destination.Plain) : fs.locate g.destination = .ok g.destination.names := by
  obtain ⟨loc, -, hloc, -⟩ :=
    leadsTo_eq_true_iff.1 (TextFile.hasEntry_of_differs_eq_false h.same)
  rw [hloc, (hl.locate_plain hp hloc).1]

/-- A conversion stays settled while neither its source nor its output is written. -/
theorem Settled.of_grown (h : Settled settings converter mid source o g)
    (hconv : converter.ReadsSource) (htree : mid.IsTree) (hl : mid.LinkFree)
    (hp : g.destination.Plain) (hg : Grown outputs mid after)
    (hsource : mid.locate source.source = .ok loc) (hloc : loc ∉ outputs)
    (hout : g.destination.names ∉ outputs) : Settled settings converter after source o g := by
  have hread := hg.read_eq htree hsource hloc
  have hlocate := h.locate hl hp
  refine ⟨fun ordinal => (consult_congr hconv hread ordinal ordinal).trans (h.consulted ordinal),
    ?_, h.outcome⟩
  rw [TextFile.differs_congr (hg.hasEntry_eq htree hlocate hout) (hg.read_eq htree hlocate hout)]
  exact h.same

/-- A conversion that did not fail is settled, and has written nothing but its output. -/
theorem settled_of_step (hconv : converter.ReadsSource) (htree : fs.IsTree) (hl : fs.LinkFree)
    (hsource : fs.locate source.source = .ok loc)
    (hstep : (step settings converter ordinal source).Returns fs o mid)
    (hfailed : o.status ≠ .failed) (hplain : ∀ p, o.output = some p → p.Plain)
    (haside : ∀ p, o.output = some p → p.names ≠ loc) :
    ∃ g, Settled settings converter mid source o g ∧ mid.IsTree ∧ mid.LinkFree ∧
      Grown [g.destination.names] fs mid := by
  obtain ⟨events, hrun⟩ := hstep
  have hs := stepped settings converter ordinal source fs
  rw [hrun] at hs
  cases hs with
  | complained => simp [failed] at hfailed
  | unreadable => simp [failed] at hfailed
  | unwritable => simp [failed] at hfailed
  | unchanged g hg hd =>
    exact ⟨g, ⟨fun n => (consult_congr hconv rfl n ordinal).trans hg, hd, rfl⟩, htree, hl,
      .refl _ _⟩
  | converted g _ hg _ hw =>
    obtain ⟨bytes, ready, place, hsaved⟩ := TextFile.saved_of_write hw
    obtain ⟨s, -, hcontent, -, -⟩ := TextFile.bytesOf_eq_ok hsaved.encoded
    have hp := hplain g.destination rfl
    obtain ⟨hlmid, hgrown⟩ := hsaved.grown htree hl hp
    have hne : loc ∉ [g.destination.names] := by
      simpa using (haside g.destination rfl).symm
    have hread := hgrown.read_eq htree hsource hne
    refine ⟨g, ⟨fun n => (consult_congr hconv hread n ordinal).trans hg, ?_, rfl⟩,
      hsaved.isTree htree, hlmid, hgrown⟩
    rw [hcontent] at hsaved ⊢
    exact hsaved.differs_eq_false htree

end Conversion

namespace Run

open Conversion

variable {settings : Settings} {converter : Converter} {listener : Option Listener}
  {total index : Nat} {fs after : FileSystem} {sources : List SourceFile} {os : List Outcome}
  {loc : Location}

def outputsOf (os : List Outcome) : List Location :=
  os.filterMap fun o => o.output.map Path.names

theorem mem_outputsOf : loc ∈ outputsOf os ↔ ∃ o ∈ os, ∃ p, o.output = some p ∧ p.names = loc := by
  simp [outputsOf, List.mem_filterMap]

/-- Outcomes that have their outputs apart from one another. -/
structure Apart (os : List Outcome) : Prop where
  succeeded : ∀ o ∈ os, o.status ≠ .failed
  plain : ∀ o ∈ os, ∀ p, o.output = some p → p.Plain
  distinct : os.Pairwise fun a b =>
    ∀ p q, a.output = some p → b.output = some q → p.names ≠ q.names

theorem Apart.tail {o : Outcome} (h : Apart (o :: os)) : Apart os :=
  ⟨fun o' ho' => h.succeeded o' (List.mem_cons_of_mem o ho'),
    fun o' ho' => h.plain o' (List.mem_cons_of_mem o ho'), (List.pairwise_cons.1 h.distinct).2⟩

/-- After a loop that did not fail, the same loop leaves everything as it is. -/
theorem Converts.repeats (hconv : converter.ReadsSource)
    (h : Converts settings converter listener total index fs sources os after)
    (htree : fs.IsTree) (hl : fs.LinkFree) (hapart : Apart os)
    (hsources : ∀ s ∈ sources, ∃ loc, fs.locate s.source = .ok loc ∧ loc ∉ outputsOf os) :
    after.IsTree ∧ after.LinkFree ∧ Grown (outputsOf os) fs after ∧
      (∀ o ∈ os, ∃ p, o.output = some p ∧ after.locate p = .ok p.names) ∧
      Converts settings converter listener total index after sources
        (os.map Outcome.unchanged) after := by
  induction h with
  | nil index fs => exact ⟨htree, hl, .refl _ fs, by simp, .nil index fs⟩
  | @cons index fs mid after source rest o os hstep hheard hrest ih =>
    obtain ⟨loc, hloc, hnot⟩ := hsources source (List.mem_cons_self ..)
    have hplain := hapart.plain o (List.mem_cons_self ..)
    have haside : ∀ p, o.output = some p → p.names ≠ loc := by
      rintro p hp rfl
      exact hnot (mem_outputsOf.2 ⟨o, List.mem_cons_self .., p, hp, rfl⟩)
    have hsub : ∀ {l}, l ∈ outputsOf os → l ∈ outputsOf (o :: os) := by
      intro l hl
      obtain ⟨o', ho', p, hp, rfl⟩ := mem_outputsOf.1 hl
      exact mem_outputsOf.2 ⟨o', List.mem_cons_of_mem o ho', p, hp, rfl⟩
    obtain ⟨g, hsettled, htmid, hlmid, hgrown⟩ := settled_of_step hconv htree hl hloc hstep
      (hapart.succeeded o (List.mem_cons_self ..)) hplain haside
    have hout := hsettled.output_eq
    have hone : [g.destination.names] ⊆ outputsOf (o :: os) := by
      intro l hl
      rw [List.mem_singleton] at hl
      exact mem_outputsOf.2 ⟨o, List.mem_cons_self .., g.destination, hout, hl.symm⟩
    have hfirst := hgrown.mono hone
    obtain ⟨htafter, hlafter, hmore, hothers, hagain⟩ := ih htmid hlmid hapart.tail
      fun s hs => by
        obtain ⟨l, hlocate, hl⟩ := hsources s (List.mem_cons_of_mem _ hs)
        exact ⟨l, hfirst.keeps.locate hlocate, fun hmem => hl (hsub hmem)⟩
    -- what the other conversions write is neither this source nor this output
    have hapartout : g.destination.names ∉ outputsOf os := by
      intro hmem
      obtain ⟨o', ho', p, hp, heq⟩ := mem_outputsOf.1 hmem
      exact (List.pairwise_cons.1 hapart.distinct).1 o' ho' g.destination p hout hp heq.symm
    have hlast := hsettled.of_grown hconv htmid hlmid (hplain _ hout) hmore
      (hfirst.keeps.locate hloc) (fun hmem => hnot (hsub hmem)) hapartout
    refine ⟨htafter, hlafter, hfirst.trans (hmore.mono fun l hl => hsub hl), ?_,
      .cons (hlast.step_returns index) hheard hagain⟩
    rw [List.forall_mem_cons]
    exact ⟨⟨g.destination, hout, hlast.locate hlafter (hplain _ hout)⟩, hothers⟩

theorem Converts.exists_outcome {source : SourceFile}
    (h : Converts settings converter listener total index fs sources os after)
    (hsource : source ∈ sources) : ∃ o ∈ os, o.source = source.source := by
  induction h with
  | nil => simp at hsource
  | cons hstep _ _ ih =>
    rcases List.mem_cons.1 hsource with rfl | hmem
    · exact ⟨_, List.mem_cons_self .., (outcome_of_step (returns_iff.1 hstep).1).1⟩
    · obtain ⟨o, ho, heq⟩ := ih hmem
      exact ⟨o, List.mem_cons_of_mem _ ho, heq⟩

theorem recorded_unchanged (root : Path) (os : List Outcome) :
    Summary.recorded root (os.map Outcome.unchanged) =
      { root := root
        processed := os.length
        converted := 0
        failed := 0
        outcomes := os.map Outcome.unchanged
        succeeded := true
        rootMissing := false } := by
  have hconverted : (os.map Outcome.unchanged).countP (·.status = .converted) = 0 := by
    simp [List.countP_eq_zero, Outcome.unchanged]
  have hfailed : (os.map Outcome.unchanged).countP (·.status = .failed) = 0 := by
    simp [List.countP_eq_zero, Outcome.unchanged]
  rw [Summary.recorded_eq, hconverted, hfailed, List.length_map]

/-- What a run does behind the check of its root, it does again without changing anything. -/
theorem Finishes.repeats {root : Path} {dir : Location} (hconv : converter.ReadsSource)
    (h : Finishes settings converter listener root fs sources os after) (htree : fs.IsTree)
    (hl : fs.LinkFree) (hroot : fs.locate root = .ok dir)
    (hdir : fs.entryAt dir = some .directory) (hapart : Apart os)
    (hsources : ∀ s ∈ sources, ∃ loc, fs.locate s.source = .ok loc ∧ loc ∉ outputsOf os)
    (hrejected : ∀ out ∈ outputsOf os, dir <+: out →
      Pattern.anyAccepts settings.patterns.texts (out.getLastD "") = false)
    (hspelled : ∀ out ∈ outputsOf os, dir <+: out →
      (root.below (Scan.reach settings.recursive (out.drop dir.length))).toString.utf8ByteSize ≤
        maxPathBytes)
    (hlisted : settings.recursive = true → ∀ out ∈ outputsOf os, dir <+: out →
      (out.drop dir.length).length ≤ fs.limits.listings.calls) :
    fs.Keeps after ∧
      Finishes settings converter listener root after sources (os.map Outcome.unchanged) after := by
  obtain ⟨htafter, hlafter, hgrown, hplaces, hagain⟩ :=
    h.converts.repeats hconv htree hl hapart hsources
  have hpassed : ∀ out ∈ outputsOf os, dir <+: out →
      Scan.PassedOver fs.limits.listings root dir settings.patterns.texts settings.recursive
        out := by
    intro out hout hbelow
    obtain ⟨o, ho, p, hp, rfl⟩ := mem_outputsOf.1 hout
    obtain ⟨q, hq, hplace⟩ := hplaces o ho
    obtain rfl : p = q := Option.some.inj (hp.symm.trans hq)
    exact ⟨hrejected _ hout hbelow, fun hrecursive => hlisted hrecursive _ hout hbelow,
      (hlafter.locate_plain (hapart.plain o ho p hp) hplace).2, hspelled _ hout hbelow⟩
  have htold := h.told
  have hnone : os.countP (·.status = .failed) = 0 := by
    rw [List.countP_eq_zero]
    intro o ho
    simpa using hapart.succeeded o ho
  refine ⟨hgrown.keeps, Scan.run_of_grown htafter hlafter hgrown hroot hdir hpassed htree hl
    h.scanned, hagain, ?_⟩
  rw [recorded_unchanged]
  rw [Summary.recorded_eq, finalUpdate, hnone] at htold
  exact htold

/-- The outputs of a run that are apart from one another, from its sources, and from what a scan of
its root takes. -/
structure Separate (settings : Settings) (fs : FileSystem) (summary : Summary) : Prop where
  plain : ∀ o ∈ summary.outcomes, ∀ p, o.output = some p → p.Plain
  distinct : summary.outcomes.Pairwise fun a b =>
    ∀ p q, a.output = some p → b.output = some q → p.names ≠ q.names
  noSource : ∀ o ∈ summary.outcomes, ∀ s ∈ summary.outcomes, ∀ p, o.output = some p →
    fs.locate s.source ≠ .ok p.names
  rejected : ∀ dir, fs.locate summary.root = .ok dir → ∀ o ∈ summary.outcomes, ∀ p,
    o.output = some p → dir <+: p.names → Pattern.anyAccepts settings.patterns.texts p.name = false

/-- The outputs below the root stop no scan of it: spelled through the root, as far down as a scan
looks, they have no more bytes than a path may have, and they are no deeper than listings may wait
for one another. -/
structure Scannable (settings : Settings) (fs : FileSystem) (summary : Summary) : Prop where
  spelled : ∀ dir, fs.locate summary.root = .ok dir → ∀ o ∈ summary.outcomes, ∀ p,
    o.output = some p → dir <+: p.names →
      (summary.root.below (Scan.reach settings.recursive
        (p.names.drop dir.length))).toString.utf8ByteSize ≤ maxPathBytes
  listed : settings.recursive = true → ∀ dir, fs.locate summary.root = .ok dir →
    ∀ o ∈ summary.outcomes, ∀ p, o.output = some p → dir <+: p.names →
      (p.names.drop dir.length).length ≤ fs.limits.listings.calls

theorem run_repeats {base : Option Path} {summary : Summary} (htree : fs.IsTree)
    (hl : fs.LinkFree) (hconv : converter.ReadsSource) (hreport : settings.report = none)
    (hreturns : (run settings converter listener base).Returns fs summary after)
    (hsucceeded : summary.succeeded = true) (hthere : summary.rootMissing = false)
    (hseparate : Separate settings fs summary) (hscannable : Scannable settings fs summary) :
    ∃ again, (run settings converter listener base).Returns after again after ∧
      again.root = summary.root ∧
      again.outcomes = summary.outcomes.map (fun o => { o with status := .unchanged }) ∧
      again.processed = summary.processed ∧ again.converted = 0 ∧ again.failed = 0 ∧
      again.succeeded = true ∧ again.rootMissing = false := by
  obtain ⟨hcheck, hisdir, sources, os, hfinishes, rfl⟩ :=
    (run_returns_iff hreport).1 ⟨hreturns, hthere⟩
  obtain ⟨dir, hroot, hdir⟩ := isDirectory_eq_true_iff.1 hisdir
  rw [concluded_recorded, Summary.recorded_eq] at hsucceeded hseparate hscannable
  have hnone : os.countP (·.status = .failed) = 0 := by simpa using hsucceeded
  have hapart : Apart os := by
    refine ⟨fun o ho => ?_, hseparate.plain, hseparate.distinct⟩
    simpa using (List.countP_eq_zero.1 hnone) o ho
  have hsources : ∀ s ∈ sources, ∃ loc, fs.locate s.source = .ok loc ∧ loc ∉ outputsOf os := by
    intro s hs
    obtain ⟨loc, hloc⟩ := Scan.exists_locate_of_run hroot hdir hfinishes.scanned hs
    refine ⟨loc, hloc, fun hmem => ?_⟩
    obtain ⟨o, ho, p, hp, rfl⟩ := mem_outputsOf.1 hmem
    obtain ⟨o', ho', heq⟩ := hfinishes.converts.exists_outcome hs
    exact hseparate.noSource o ho o' ho' p hp (heq ▸ hloc)
  have hrejected : ∀ out ∈ outputsOf os, dir <+: out →
      Pattern.anyAccepts settings.patterns.texts (out.getLastD "") = false := by
    intro out hout hbelow
    obtain ⟨o, ho, p, hp, rfl⟩ := mem_outputsOf.1 hout
    exact hseparate.rejected dir hroot o ho p hp hbelow
  have hspelled : ∀ out ∈ outputsOf os, dir <+: out →
      ((rootOf settings base fs).below (Scan.reach settings.recursive
        (out.drop dir.length))).toString.utf8ByteSize ≤ maxPathBytes := by
    intro out hout hbelow
    obtain ⟨o, ho, p, hp, rfl⟩ := mem_outputsOf.1 hout
    exact hscannable.spelled dir hroot o ho p hp hbelow
  have hlisted : settings.recursive = true → ∀ out ∈ outputsOf os, dir <+: out →
      (out.drop dir.length).length ≤ fs.limits.listings.calls := by
    intro hrecursive out hout hbelow
    obtain ⟨o, ho, p, hp, rfl⟩ := mem_outputsOf.1 hout
    exact hscannable.listed hrecursive dir hroot o ho p hp hbelow
  obtain ⟨hkeeps, hagain⟩ := hfinishes.repeats hconv htree hl hroot hdir hapart hsources hrejected
    hspelled hlisted
  have hsame : rootOf settings base after = rootOf settings base fs := by
    unfold rootOf processDirectory
    rw [hkeeps.working]
  have hisdir' : after.isDirectory (rootOf settings base after) = .ok true := by
    rw [hsame]
    exact isDirectory_eq_true_iff.2 ⟨dir, hkeeps.locate hroot, hkeeps.directory hdir⟩
  have hreturns' := (run_returns_iff hreport).2
    ⟨hcheck, hisdir', sources, _, hsame ▸ hagain, rfl⟩
  refine ⟨_, hreturns'.1, ?_⟩
  rw [hsame, concluded_recorded, concluded_recorded, recorded_unchanged, Summary.recorded_eq]
  exact ⟨rfl, rfl, rfl, rfl, rfl, rfl, rfl⟩

/-! ## A root that is spelled at length -/

def singleSource : FileSystem :=
  ((FileSystem.empty .usual).set ["d"] .directory).set ["d", "a"] (.file [])

def singleOutput : Path := ⟨.root, ["d", "out"]⟩

def singleSettings : Settings :=
  { plainSettings with patterns := .several [some "a"] }

/-- Has one text and one file for it, whatever it is asked. -/
def constantConverter : Converter := fun _ _ => .ok (.result (.path singleOutput) (.text "c"))

/-- The names of a way into the directory `d` that leaves it again some number of times. -/
def climbs : Nat → List String
  | 0 => ["d"]
  | n + 1 => "d" :: ".." :: climbs n

def detour (n : Nat) : Path := ⟨.root, climbs n⟩

theorem singleSource_isTree : singleSource.IsTree := by
  have hd : ((FileSystem.empty .usual).set ["d"] .directory).IsTree :=
    (isTree_empty .usual).set_child (entryAt_nil _) rfl
  have hfree : ((FileSystem.empty .usual).set ["d"] .directory).entryAt (["d"] ++ ["a"]) = none := rfl
  exact hd.set_child rfl hfree

theorem singleSource_linkFree : singleSource.LinkFree :=
  ((linkFree_empty .usual).set (by simp) (by simp)).set (by simp) (by simp)

theorem descend_climbs {fs : FileSystem} (hd : fs.entryAt ["d"] = some .directory) (n : Nat) :
    fs.descend [] (climbs n) = .at (.found ["d"]) := by
  have hsize : ¬ maxNameBytes < "d".utf8ByteSize := by decide
  induction n with
  | zero => simp [climbs, descend, hsize, hd]
  | succ n ih => simp [climbs, descend, hsize, hd, ih]

theorem size_detour_below (n : Nat) (names : List String) :
    ((detour n).below names).toString.utf8ByteSize =
      5 * n + 2 + Path.sizeOfNames names := by
  have hsum : Path.sizeOfNames (climbs n) = 5 * n + 2 := by
    induction n with
    | zero => rfl
    | succ n ih =>
      have hd : "d".utf8ByteSize = 1 := rfl
      have hdots : "..".utf8ByteSize = 2 := rfl
      rw [climbs, Path.sizeOfNames, Path.sizeOfNames, ih, hd, hdots]
      omega
  have hne : ((detour n).below names).names ≠ [] := by
    cases n <;> simp [detour, climbs, Path.below]
  have hsize := Path.size_toString hne
  have hslash : Anchor.root.text.utf8ByteSize = 1 := rfl
  simp only [Path.below, detour, Path.sizeOfNames_append, hsum, hslash] at hsize ⊢
  omega

theorem checkPath_detour_below (n : Nat) (names : List String)
    (hnul : ∀ s ∈ names, '\x00' ∉ s.toList) :
    checkPath ((detour n).below names) =
      if maxPathBytes < 5 * n + 2 + Path.sizeOfNames names then
        .error (.obstructed .nameTooLong ((detour n).below names))
      else .ok () := by
  have hclimbs : ∀ s ∈ climbs n, '\x00' ∉ s.toList := by
    induction n with
    | zero => simp [climbs]
    | succ n ih => simpa [climbs] using ih
  have hno : ¬ ((detour n).below names).HoldsNul := by
    rintro ⟨s, hs, hmem⟩
    rcases List.mem_append.1 hs with h | h
    · exact hclimbs s h hmem
    · exact hnul s h hmem
  have hcontains : ((detour n).below names).toString.toList.contains '\x00' = false := by
    rw [← Bool.not_eq_true, List.contains_iff_mem, Path.nul_mem_toString_iff]
    exact hno
  rw [checkPath, hcontains, size_detour_below]
  rfl

theorem locate_detour {fs : FileSystem} (hd : fs.entryAt ["d"] = some .directory) (n : Nat)
    (hn : 5 * n + 2 ≤ maxPathBytes) : fs.locate (detour n) = .ok ["d"] := by
  have hsame : (detour n).below [] = detour n := by simp [Path.below, detour]
  have hsize : Path.sizeOfNames [] = 0 := rfl
  have hlooked := checkPath_detour_below n [] (by simp)
  rw [hsame, hsize, if_neg (by omega)] at hlooked
  exact locate_eq_ok_iff.2 ⟨hlooked, false, follow_of_descend (descend_climbs hd n), by simp⟩

def singleFile (n : Nat) : SourceFile := Scan.sourceFile (detour n) ["a"]

theorem scan_detour {n : Nat} (hn : 5 * n + 4 ≤ maxPathBytes) :
    Scan.run singleSource (detour n) singleSettings.patterns.texts true = .ok [singleFile n] := by
  have hd : singleSource.entryAt ["d"] = some .directory := rfl
  have hlocate := locate_detour hd n (by omega)
  have hbelow : singleSource.below (Scan.depthOf singleSource true) ["d"] = [["a"]] := rfl
  have hlooked := checkPath_detour_below n ["a"] (by decide)
  have hsum : Path.sizeOfNames ["a"] = 2 := rfl
  rw [hsum, if_neg (by omega)] at hlooked
  have hisfile : singleSource.isFile ((detour n).below ["a"]) = .ok true := by
    rw [isFile_eq, leadsTo_below _ singleSource_isTree singleSource_linkFree hlocate hd
      (by decide) rfl, hlooked]
    rfl
  have hname : ((detour n).below ["a"]).name = "a" := Scan.name_below (by simp) (detour n) []
  have htaken : Scan.taken singleSource (detour n) singleSettings.patterns.texts ["a"] = true := by
    rw [Scan.taken, Scan.isFileAt, Scan.source_sourceFile, hisfile, hname]
    decide +kernel
  refine (Scan.run_eq_ok_iff hlocate hd).2 ⟨⟨?_, ?_⟩, ?_⟩
  · rw [hbelow]
    intro names hnames
    rw [List.mem_singleton.1 hnames]
    exact Scan.faultAt_eq_none_iff.2 ⟨true, hisfile⟩
  · intro _ names hnames _
    rw [hbelow] at hnames
    rw [List.mem_singleton.1 hnames]
    decide
  · rw [hbelow, List.filter_cons_of_pos htaken]
    rfl

def singleOutcome (n : Nat) : Outcome := finished (singleFile n) singleOutput true

def singleAfter : FileSystem := singleSource.set ["d", "out"] (.file [0x63])

theorem step_detour (n : Nat) : (step singleSettings constantConverter 0 (singleFile n)).Returns
    singleSource (singleOutcome n) singleAfter := by
  have hconsult : consult constantConverter (request singleSettings 0 (singleFile n)) singleSource =
      .ok (.generated ⟨singleOutput, .text "c"⟩) := rfl
  have hdiffers : TextFile.differs singleSource singleOutput (.text "c") singleSettings.encoding =
      .ok true := rfl
  have hwrite : TextFile.write singleSource singleOutput (.text "c") singleSettings.encoding =
      (.ok (), singleAfter) := rfl
  rw [returns_iff, run_step, hconsult]
  simp only [run_handle_generated, Output.run_writeIfChanged, hdiffers, hwrite]
  exact ⟨rfl, trivial⟩

theorem singleSettings_check : singleSettings.check = .ok () := rfl

theorem rootOf_detour (n : Nat) (fs : FileSystem) :
    rootOf singleSettings (some (detour n)) fs = detour n := rfl

theorem run_detour {n : Nat} (hn : 5 * n + 4 ≤ maxPathBytes) :
    (run singleSettings constantConverter none (some (detour n))).Returns singleSource
      (concluded (Summary.recorded (detour n) [singleOutcome n])) singleAfter := by
  have hd : singleSource.entryAt ["d"] = some .directory := rfl
  have hisdir : singleSource.isDirectory (detour n) = .ok true :=
    isDirectory_eq_true_iff.2 ⟨_, locate_detour hd n (by omega), hd⟩
  have hfinishes : Finishes singleSettings constantConverter none (detour n) singleSource
      [singleFile n] [singleOutcome n] singleAfter :=
    ⟨scan_detour hn, .cons (step_detour n) (heard_none _ _) (.nil 1 _), heard_none _ _⟩
  have hreport : singleSettings.report = none := rfl
  refine ((run_returns_iff hreport).2 ⟨singleSettings_check, ?_⟩).1
  rw [rootOf_detour]
  exact ⟨hisdir, [singleFile n], [singleOutcome n], hfinishes, rfl⟩

theorem separate_detour (n : Nat) : Separate singleSettings singleSource
    (concluded (Summary.recorded (detour n) [singleOutcome n])) := by
  rw [concluded_recorded, Summary.recorded_eq]
  have hout : ∀ o ∈ [singleOutcome n], ∀ p, o.output = some p → p = singleOutput := by
    intro o ho p hp
    rw [List.mem_singleton.1 ho] at hp
    exact (Option.some.inj hp).symm
  refine ⟨fun o ho p hp => ?_, List.pairwise_singleton _ _, fun o ho s _ p hp h => ?_,
    fun dir _ o ho p hp _ => ?_⟩
  · rw [hout o ho p hp]
    exact ⟨rfl, by decide +kernel⟩
  · rw [hout o ho p hp] at h
    obtain ⟨e, he⟩ := singleSource_isTree.exists_entry_of_locate h
    have hfree : singleSource.entryAt singleOutput.names = none := rfl
    simp [hfree] at he
  · rw [hout o ho p hp]
    decide +kernel

theorem constantConverter_readsSource : constantConverter.ReadsSource :=
  ⟨fun _ _ _ _ => .ok (.result (.path singleOutput) (.text "c")), fun _ _ => rfl⟩

theorem run_repeats_detour :
    ∃ again, (run singleSettings constantConverter none (some (detour 3))).Returns singleAfter again
        singleAfter ∧
      again.outcomes = [{ singleOutcome 3 with status := .unchanged }] := by
  have hd : singleSource.entryAt ["d"] = some .directory := rfl
  have hbelow : ∀ dir, singleSource.locate (detour 3) = .ok dir → ∀ o ∈ [singleOutcome 3], ∀ p,
      o.output = some p → dir = ["d"] ∧ p = singleOutput := by
    intro dir hdir o ho p hp
    rw [List.mem_singleton.1 ho] at hp
    exact ⟨Except.ok.inj (hdir.symm.trans (locate_detour hd 3 (by decide))),
      (Option.some.inj hp).symm⟩
  have hscannable : Scannable singleSettings singleSource
      (concluded (Summary.recorded (detour 3) [singleOutcome 3])) := by
    rw [concluded_recorded, Summary.recorded_eq]
    constructor
    · intro dir hdir o ho p hp _
      obtain ⟨rfl, rfl⟩ := hbelow dir hdir o ho p hp
      rw [size_detour_below]
      decide
    · intro _ dir hdir o ho p hp _
      obtain ⟨rfl, rfl⟩ := hbelow dir hdir o ho p hp
      decide
  have hrun := run_detour (n := 3) (by decide)
  obtain ⟨again, hagain, -, houtcomes, -⟩ := run_repeats singleSource_isTree singleSource_linkFree
    constantConverter_readsSource rfl hrun rfl rfl (separate_detour 3) hscannable
  exact ⟨again, hagain, houtcomes⟩

/-- A scan is stopped by an entry whose name does not fit behind the root as it is spelled. -/
theorem scan_detour_fails {fs : FileSystem} {n : Nat} {name : String} (htree : fs.IsTree)
    (hl : fs.LinkFree) (hd : fs.entryAt ["d"] = some .directory)
    (hmem : [name] ∈ fs.below (Scan.depthOf fs true) ["d"]) (hnul : '\x00' ∉ name.toList)
    (hn : 5 * n + 2 ≤ maxPathBytes) (hlong : maxPathBytes < 5 * n + 2 + Path.sizeOfNames [name])
    {patterns : List String} {sources : List SourceFile} :
    Scan.run fs (detour n) patterns true ≠ .ok sources := by
  intro hscan
  have hlocate := locate_detour hd n hn
  obtain ⟨-, -, hnames, hthere⟩ := of_mem_below hmem
  have hnone := ((Scan.run_eq_ok_iff hlocate hd).1 hscan).1.1 [name] hmem
  obtain ⟨isFile, hok⟩ := Scan.faultAt_eq_none_iff.1 hnone
  have hlooked := checkPath_detour_below n [name] (by simpa using hnul)
  rw [if_pos hlong] at hlooked
  rw [isFile_eq, leadsTo_below _ htree hl hlocate hd hnames hthere, hlooked] at hok
  simp at hok

theorem singleAfter_isTree : singleAfter.IsTree := by
  have hfree : singleSource.entryAt (["d"] ++ ["out"]) = none := rfl
  exact singleSource_isTree.set_child rfl hfree

/-- A run need not repeat, though its outputs are apart from all else. -/
theorem not_run_always_repeats :
    ¬ ∀ (settings : Settings) (converter : Converter) (base : Option Path)
      (fs after : FileSystem) (summary : Summary), fs.IsTree → fs.LinkFree →
      converter.ReadsSource → settings.report = none →
      (run settings converter none base).Returns fs summary after →
      summary.succeeded = true → summary.rootMissing = false → Separate settings fs summary →
      ∃ again final, (run settings converter none base).Returns after again final := by
  intro h
  have hn : 5 * 818 + 4 ≤ maxPathBytes := by decide
  obtain ⟨again, final, hagain⟩ := h singleSettings constantConverter (some (detour 818))
    singleSource singleAfter _ singleSource_isTree singleSource_linkFree
    constantConverter_readsSource rfl (run_detour hn) rfl rfl (separate_detour 818)
  have hisdir : singleAfter.isDirectory (rootOf singleSettings (some (detour 818)) singleAfter) =
      .ok true := by
    rw [rootOf_detour]
    exact isDirectory_eq_true_iff.2 ⟨_, locate_detour rfl 818 (by decide), rfl⟩
  obtain ⟨-, hall⟩ := (run_returns_iff_convertAll hisdir).1 hagain
  obtain ⟨sources, os, hfinishes, -⟩ := (convertAll_returns_iff rfl).1 hall
  rw [rootOf_detour] at hfinishes
  have hl : singleAfter.LinkFree := singleSource_linkFree.set (by simp) (by simp)
  have hmem : ["out"] ∈ singleAfter.below (Scan.depthOf singleAfter true) ["d"] := by
    decide +kernel
  exact scan_detour_fails singleAfter_isTree hl rfl hmem (by decide) (by decide) (by decide)
    hfinishes.scanned

end Run

end ResourceAccessors
