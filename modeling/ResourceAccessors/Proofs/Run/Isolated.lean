import ResourceAccessors.Proofs.Conversion.Alike
import ResourceAccessors.Proofs.Run.Contents

/-! A failure that is kept to itself. Where a converter fails on one source more than another does,
the runs with the two of them go alike on all other sources: their file systems differ in no more
than the output of that source and the directories that only it needed, and a later conversion that
does not come near either leaves it so. -/
namespace ResourceAccessors
set_option autoImplicit false

open ResourceAccessors.Action FileSystem

/-- A converter that fails on one source, in words and without an interruption, and is like another
on all others. -/
structure Converter.FailsAt (other converter : Converter) (s : Path) : Prop where
  fails : ∀ {fs r}, r.source = s →
    ∃ thrown, other fs r = .error thrown ∧ thrown.Contained
  same : ∀ {fs r}, r.source ≠ s → other fs r = converter fs r

/-- A converter, except that it raises a fault for one source. -/
def Converter.failing (converter : Converter) (s : Path) (thrown : Thrown) : Converter :=
  fun fs r => if r.source = s then .error thrown else converter fs r

theorem Converter.failing_failsAt (converter : Converter) (s : Path) {thrown : Thrown}
    (h : thrown.Contained) : (converter.failing s thrown).FailsAt converter s :=
  ⟨fun hs => ⟨thrown, if_pos hs, h⟩, fun hne => if_neg hne⟩

/-- What becomes of an outcome if the conversion of one source fails: that of this source is failed,
all others keep their status and their output. -/
structure Outcome.FailsAt (s : Path) (o o' : Outcome) : Prop where
  source : o'.source = o.source
  relative : o'.relative = o.relative
  failed : o.source = s → o'.status = .failed ∧ o'.output = none
  same : o.source ≠ s → o'.status = o.status ∧ o'.output = o.output

variable {settings : Settings} {converter other : Converter} {listener : Option Listener}
  {total index ordinal : Nat} {source : SourceFile} {sources : List SourceFile} {o o' : Outcome}
  {os os' : List Outcome} {s : Path} {fs mid after lean full full' : FileSystem}
  {outputs : List Location} {loc : Location}

namespace Conversion

/-- The source that fails now: nothing is touched, while the other converter may have written its
output. -/
theorem step_skipped (hother : other.FailsAt converter s) (h : Alike outputs lean full)
    (hsource : source.source = s)
    (hstep : (step settings converter ordinal source).Returns full o full')
    (hplain : ∀ p, o.output = some p → p.Plain)
    (hskipped : (∃ e, TextFile.encodingOf .transformWritten settings.encoding = .ok e) →
      ∀ p, o.output = some p → p.names ∈ outputs) :
    ∃ o', (step settings other ordinal source).Returns lean o' lean ∧ o.FailsAt s o' ∧
      Alike outputs lean full' := by
  have hfails : ∃ thrown, other lean (request settings ordinal source) = .error thrown ∧
      thrown.Contained := hother.fails hsource
  obtain ⟨thrown, hthrown, hcontained⟩ := hfails
  have hconsult : consult other (request settings ordinal source) lean = .error thrown := by
    simp only [consult, hthrown]
  obtain ⟨hs, hr, -⟩ := outcome_of_step (returns_iff.1 hstep).1
  have heffect := effect_of_step hstep
  obtain ⟨hlfull, hgrown⟩ := heffect.grown h.fullTree h.fullLinkFree hplain
  have hmore : Grown outputs full full' := by
    by_cases hcodec : ∃ e, TextFile.encodingOf .transformWritten settings.encoding = .ok e
    · refine hgrown.mono fun out hout => ?_
      simp only [List.mem_map, Option.mem_toList] at hout
      obtain ⟨p, hp, rfl⟩ := hout
      exact hskipped hcodec p hp
    · rw [files_of_step_of_codec hstep hcodec]
      exact .refl _ _
  refine ⟨_, returns_of_complaint hconsult hcontained, ⟨hs.symm, hr.symm, fun _ => ⟨rfl, rfl⟩,
    fun hne => absurd (hs.trans hsource) hne⟩, ?_⟩
  exact ⟨h.grown.trans hmore, h.leanTree, heffect.isTree h.fullTree, h.leanLinkFree, hlfull⟩

/-- Any other source: it is asked in the same words and read with the same bytes. -/
theorem step_kept (hconv : converter.ReadsSource) (hother : other.FailsAt converter s)
    (h : Alike outputs lean full) (hsource : source.source ≠ s)
    (hloc : lean.locate source.source = .ok loc) (hout : loc ∉ outputs)
    (hstep : (step settings converter ordinal source).Returns full o full')
    (hplain : ∀ p, o.output = some p → p.Plain) (hclear : ∀ p, o.output = some p → Clear outputs p)
    (hcodec : outputs ≠ [] →
      ∃ e, TextFile.encodingOf .transformWritten settings.encoding = .ok e)
    (hsound : ∀ g, consult converter (request settings ordinal source) full = .ok (.generated g) →
      g.Sound ∧ ¬ lean.TooDeep lean.limits.outputs g.destination.parent) :
    ∃ o' lean', (step settings other ordinal source).Returns lean o' lean' ∧ o.FailsAt s o' ∧
      Alike outputs lean' full' := by
  have hread := h.grown.read_eq h.leanTree hloc hout
  have hsame : other lean (request settings ordinal source) =
      converter lean (request settings ordinal source) := hother.same hsource
  have hconsult : consult other (request settings ordinal source) lean =
      consult converter (request settings ordinal source) full := by
    rw [consult_congr hconv hread ordinal ordinal]
    simp only [consult, hsame]
  obtain ⟨o', lean', hstep', hstatus, houtput, hlast⟩ :=
    step_alike h hconsult hstep hplain hclear hcodec hsound
  obtain ⟨hs, hr, -⟩ := outcome_of_step (returns_iff.1 hstep).1
  obtain ⟨hs', hr', -⟩ := outcome_of_step (returns_iff.1 hstep').1
  exact ⟨o', lean', hstep', ⟨hs'.trans hs.symm, hr'.trans hr.symm,
    fun heq => absurd (hs.symm.trans heq) hsource, fun _ => ⟨hstatus, houtput⟩⟩, hlast⟩

end Conversion

namespace Run

open Conversion

/-- A converter whose answers for all sources but one can only fail as their files do. Above none of
these files are too many directories missing. -/
def SoundBeside (converter : Converter) (s : Path) (fs : FileSystem) : Prop :=
  ∀ {mid r value g}, r.source ≠ s → converter mid r = .ok value →
    value.toAnswer = .ok (.generated g) →
      g.Sound ∧ ¬ fs.TooDeep fs.limits.outputs g.destination.parent

/-- The loop with the converter that fails on one source goes like the loop with the other. -/
theorem Converts.fails_at (hconv : converter.ReadsSource) (hother : other.FailsAt converter s)
    (hsound : SoundBeside converter s fs) (htree : fs.IsTree) (hkeeps : fs.Keeps lean)
    (hcodec : outputs ≠ [] →
      ∃ e, TextFile.encodingOf .transformWritten settings.encoding = .ok e)
    (h : Converts settings converter listener total index full sources os full')
    (halike : Alike outputs lean full)
    (hsources : ∀ source ∈ sources, ∃ loc, lean.locate source.source = .ok loc ∧ loc ∉ outputs)
    (hplain : ∀ o ∈ os, ∀ p, o.output = some p → p.Plain)
    (hclear : ∀ o ∈ os, o.source ≠ s → ∀ p, o.output = some p → Clear outputs p)
    (hskipped : (∃ e, TextFile.encodingOf .transformWritten settings.encoding = .ok e) →
      ∀ o ∈ os, o.source = s → ∀ p, o.output = some p → p.names ∈ outputs) :
    ∃ os' lean', Converts settings other listener total index lean sources os' lean' ∧
      Alike outputs lean' full' ∧ ∀ k : Nat, Option.Rel (Outcome.FailsAt s) os[k]? os'[k]? := by
  induction h generalizing lean with
  | nil index full => exact ⟨[], lean, .nil index lean, halike, fun k => .none⟩
  | @cons index full mid full' source rest o os hstep hheard _ ih =>
    obtain ⟨hp, hplain⟩ := List.forall_mem_cons.1 hplain
    obtain ⟨hc, hclear⟩ := List.forall_mem_cons.1 hclear
    obtain ⟨loc, hloc, hout⟩ := hsources source (List.mem_cons_self ..)
    have hs := (outcome_of_step (returns_iff.1 hstep).1).1
    have hfirst : ∃ o' lean', (step settings other index source).Returns lean o' lean' ∧
        o.FailsAt s o' ∧ Alike outputs lean' mid := by
      by_cases hsource : source.source = s
      · obtain ⟨o', ho'⟩ := step_skipped hother halike hsource hstep hp fun he =>
          hskipped he o (List.mem_cons_self ..) (hs.trans hsource)
        exact ⟨o', lean, ho'⟩
      · refine step_kept hconv hother halike hsource hloc hout hstep hp
          (hc (hs ▸ hsource)) hcodec fun g hg => ?_
        obtain ⟨value, hvalue, hgen⟩ := value_of_consult hg
        obtain ⟨hgood, hshallow⟩ := hsound hsource hvalue hgen
        exact ⟨hgood, not_tooDeep_of_keeps hshallow hkeeps htree⟩
    obtain ⟨o', lean', hstep', hfails, hlast⟩ := hfirst
    have hnext := ((effect_of_step hstep').touched halike.leanTree).keeps
    have hmore : ∀ later ∈ rest, ∃ loc, lean'.locate later.source = .ok loc ∧ loc ∉ outputs := by
      intro later hlater
      obtain ⟨l, hl, hnot⟩ := hsources later (List.mem_cons_of_mem _ hlater)
      exact ⟨l, hnext.locate hl, hnot⟩
    obtain ⟨os', after, hrest, hend, hall⟩ := ih (hkeeps.trans hnext) hlast hmore hplain hclear
      fun he later hlater => hskipped he later (List.mem_cons_of_mem _ hlater)
    have hsame : fileUpdate (index + 1) total o' = fileUpdate (index + 1) total o := by
      unfold fileUpdate
      rw [hfails.relative]
    refine ⟨o' :: os', after, .cons hstep' (hsame ▸ hheard) hrest, hend, fun k => ?_⟩
    cases k with
    | zero => exact .some hfails
    | succ k => exact hall k

/-- Where a conversion of a loop finished, there is something in the end. -/
theorem Converts.exists_entry
    (h : Converts settings converter listener total index fs sources os after)
    (htree : fs.IsTree) (hl : fs.LinkFree) (hplain : ∀ o ∈ os, ∀ p, o.output = some p → p.Plain)
    (ho : o ∈ os) (hfinishes : o.FinishesAt loc) : ∃ e, after.entryAt loc = some e := by
  induction h with
  | nil => simp at ho
  | @cons index fs mid after source rest first os hstep _ hrest ih =>
    obtain ⟨hp, hplain⟩ := List.forall_mem_cons.1 hplain
    have heffect := effect_of_step hstep
    have htmid := heffect.isTree htree
    have hlmid := (heffect.grown htree hl hp).1
    rcases List.mem_cons.1 ho with rfl | ho
    · obtain ⟨hstatus, q, hq, rfl⟩ := hfinishes
      have hfinished : o.status ≠ .failed := by
        rcases hstatus with hs | hs <;> simp [hs]
      obtain ⟨p, l, e, hout, hlocate, he⟩ := heffect.exists_output htree hfinished
      obtain rfl : p = q := Option.some.inj (hout.symm.trans hq)
      obtain rfl : l = p.names := (hlmid.locate_plain (hp p hout) hlocate).1
      obtain ⟨e', he', -⟩ := (hrest.touched htmid).1.keeps.entry he
      exact ⟨e', he'⟩
    · exact ih htmid hlmid hplain ho

/-- Outputs that are not on the way to one another, and none of which is a source. -/
structure Scattered (fs : FileSystem) (os : List Outcome) : Prop where
  plain : ∀ o ∈ os, ∀ p, o.output = some p → p.Plain
  clear : os.Pairwise fun a b => ∀ p q, a.output = some p → b.output = some q →
    ¬ p.names <+: q.names ∧ ¬ q.names <+: p.names
  noSource : ∀ o ∈ os, ∀ source ∈ os, ∀ p, o.output = some p →
    fs.locate source.source ≠ .ok p.names

theorem Scattered.clear_of_ne {p q : Path} (h : Scattered fs os) (ho : o ∈ os) (ho' : o' ∈ os)
    (hne : o ≠ o') (hp : o.output = some p) (hq : o'.output = some q) :
    ¬ p.names <+: q.names ∧ ¬ q.names <+: p.names := by
  have hpairs := List.pairwise_iff_getElem.1 h.clear
  obtain ⟨i, hi, rfl⟩ := List.getElem_of_mem ho
  obtain ⟨j, hj, rfl⟩ := List.getElem_of_mem ho'
  rcases Nat.lt_trichotomy i j with hij | rfl | hij
  · exact hpairs i j hi hj hij p q hp hq
  · exact absurd rfl hne
  · exact (hpairs j i hj hi hij q p hq hp).symm

/-- What the conversion of one source may have written. Without a text encoding that is nothing. -/
theorem exists_outputs (settings : Settings) (s : Path) (os : List Outcome) :
    ∃ outputs : List Location,
      (outputs ≠ [] → ∃ e, TextFile.encodingOf .transformWritten settings.encoding = .ok e) ∧
      ((∃ e, TextFile.encodingOf .transformWritten settings.encoding = .ok e) →
        ∀ o ∈ os, o.source = s → ∀ p, o.output = some p → p.names ∈ outputs) ∧
      ∀ out ∈ outputs, ∃ o ∈ os, o.source = s ∧ ∃ p, o.output = some p ∧ p.names = out := by
  by_cases hcodec : ∃ e, TextFile.encodingOf .transformWritten settings.encoding = .ok e
  · refine ⟨outputsOf (os.filter fun o => o.source = s), fun _ => hcodec, fun _ o ho hs p hp => ?_,
      fun out hout => ?_⟩
    · exact mem_outputsOf.2 ⟨o, List.mem_filter.2 ⟨ho, by simpa using hs⟩, p, hp, rfl⟩
    · obtain ⟨o, ho, hp⟩ := mem_outputsOf.1 hout
      obtain ⟨ho, hs⟩ := List.mem_filter.1 ho
      exact ⟨o, ho, by simpa using hs, hp⟩
  · exact ⟨[], by simp, fun he => absurd he hcodec, by simp⟩

theorem exists_of_rel {k : Nat} (h : ∀ k : Nat, Option.Rel (Outcome.FailsAt s) os[k]? os'[k]?)
    (ho : os[k]? = some o) : ∃ o', os'[k]? = some o' ∧ o.FailsAt s o' := by
  have hk := h k
  rw [ho] at hk
  generalize os'[k]? = later at hk
  cases hk with
  | some hfails => exact ⟨_, rfl, hfails⟩

theorem exists_of_rel_right {k : Nat}
    (h : ∀ k : Nat, Option.Rel (Outcome.FailsAt s) os[k]? os'[k]?) (ho : os'[k]? = some o') :
    ∃ o, os[k]? = some o ∧ o.FailsAt s o' := by
  have hk := h k
  rw [ho] at hk
  generalize os[k]? = earlier at hk
  cases hk with
  | some hfails => exact ⟨_, rfl, hfails⟩

/-- A location that only the output of one source, or the way to it, is at: the run in which this
source fails may differ there from the run in which it need not. -/
def OnlyFor (s : Path) (os os' : List Outcome) (fs left after : FileSystem) (loc : Location) :
    Prop :=
  ∃ o ∈ os, o.source = s ∧ ∃ p, o.output = some p ∧
    (loc = p.names ∨
      (loc <+: p.names ∧ fs.entryAt loc = none ∧ left.entryAt loc = none ∧
        after.entryAt loc = some .directory ∧
        ∀ o' ∈ os', ∀ out, o'.FinishesAt out → ¬ loc <+: out))

theorem Converts.differs_onlyFor {left : FileSystem} (htree : fs.IsTree) (hl : fs.LinkFree)
    (hplain : ∀ o ∈ os', ∀ p, o.output = some p → p.Plain)
    (h : Converts settings other listener total index fs sources os' left)
    (halike : Alike outputs left after)
    (hmem : ∀ out ∈ outputs, ∃ o ∈ os, o.source = s ∧ ∃ p, o.output = some p ∧ p.names = out)
    (loc : Location) :
    left.entryAt loc = after.entryAt loc ∨ OnlyFor s os os' fs left after loc := by
  by_cases hloc : loc ∈ outputs
  · obtain ⟨o, ho, hs, p, hp, rfl⟩ := hmem loc hloc
    exact .inr ⟨o, ho, hs, p, hp, .inl rfl⟩
  · rcases halike.grown.others hloc with heq | ⟨hfree, hdir, out, hout, hpre⟩
    · exact .inl heq.symm
    · obtain ⟨o, ho, hs, p, hp, rfl⟩ := hmem out hout
      have hbefore : fs.entryAt loc = none := by
        cases hfs : fs.entryAt loc with
        | none => rfl
        | some e =>
          obtain ⟨e', he', -⟩ := (h.touched htree).1.keeps.entry hfs
          simp [hfree] at he'
      refine .inr ⟨o, ho, hs, p, hp, .inr ⟨hpre, hbefore, hfree, hdir, ?_⟩⟩
      -- a location above what is there would be there itself
      intro o' ho' q hfinishes hle
      obtain ⟨e, he⟩ := h.exists_entry htree hl hplain ho' hfinishes
      simp [halike.leanTree.free_of_prefix hfree hle] at he

/-- The loop of a run with the converter that fails on one source, and where it ends differently. -/
theorem Finishes.fails_at {root : Path} {dir : Location} (hconv : converter.ReadsSource)
    (hother : other.FailsAt converter s) (hsound : SoundBeside converter s fs)
    (h : Finishes settings converter listener root fs sources os after) (htree : fs.IsTree)
    (hl : fs.LinkFree) (hroot : fs.locate root = .ok dir)
    (hdir : fs.entryAt dir = some .directory) (hscattered : Scattered fs os) :
    ∃ os' left, Converts settings other listener sources.length 0 fs sources os' left ∧
      (∀ k : Nat, Option.Rel (Outcome.FailsAt s) os[k]? os'[k]?) ∧
      ∀ loc, left.entryAt loc = after.entryAt loc ∨ OnlyFor s os os' fs left after loc := by
  obtain ⟨outputs, hcodec, hskipped, hmem⟩ := exists_outputs settings s os
  have hsources : ∀ source ∈ sources, ∃ loc, fs.locate source.source = .ok loc ∧
      loc ∉ outputs := by
    intro source hsource
    obtain ⟨loc, hloc⟩ := Scan.exists_locate_of_run hroot hdir h.scanned hsource
    refine ⟨loc, hloc, fun hout => ?_⟩
    obtain ⟨o, ho, -, p, hp, rfl⟩ := hmem loc hout
    obtain ⟨o', ho', heq⟩ := h.converts.exists_outcome hsource
    exact hscattered.noSource o ho o' ho' p hp (heq ▸ hloc)
  have hclear : ∀ o ∈ os, o.source ≠ s → ∀ p, o.output = some p → Clear outputs p := by
    intro o ho hne p hp out hout
    obtain ⟨o', ho', hs, q, hq, rfl⟩ := hmem out hout
    have hdistinct : o' ≠ o := by
      rintro rfl
      exact hne hs
    exact hscattered.clear_of_ne ho' ho hdistinct hq hp
  obtain ⟨os', left, hconverts, halike, hall⟩ := h.converts.fails_at hconv hother hsound htree
    (.refl fs) hcodec ⟨.refl outputs fs, htree, htree, hl, hl⟩ hsources hscattered.plain hclear
    hskipped
  have hplain : ∀ o' ∈ os', ∀ p, o'.output = some p → p.Plain := by
    intro o' ho' p hp
    obtain ⟨k, hk⟩ := List.getElem?_of_mem ho'
    obtain ⟨o, ho, hfails⟩ := exists_of_rel_right hall hk
    by_cases hs : o.source = s
    · simp [(hfails.failed hs).2] at hp
    · exact hscattered.plain o (List.mem_of_getElem? ho) p ((hfails.same hs).2 ▸ hp)
  exact ⟨os', left, hconverts, hall, hconverts.differs_onlyFor htree hl hplain halike hmem⟩

/-- A run in which a file failed tells the listener so at its end. -/
theorem finalUpdate_of_failed (root : Path) (total : Nat) (ho : o ∈ os)
    (hfailed : o.status = .failed) :
    finalUpdate total (Summary.recorded root os) = lastUpdate total false := by
  have hpos : 0 < os.length := List.length_pos_of_mem ho
  have hcount : os.countP (·.status = .failed) ≠ 0 := by
    rw [Ne, List.countP_eq_zero]
    intro hnone
    exact hnone o ho (by simpa using hfailed)
  rw [Summary.recorded_eq, finalUpdate, if_pos hpos]
  simp only [hcount, decide_false]

theorem run_isolates {base : Option Path} {summary : Summary} (htree : fs.IsTree)
    (hl : fs.LinkFree) (hconv : converter.ReadsSource) (hother : other.FailsAt converter s)
    (hsound : SoundBeside converter s fs) (hreport : settings.report = none)
    (hreturns : (run settings converter listener base).Returns fs summary after)
    (hscattered : Scattered fs summary.outcomes) (hs : ∃ o ∈ summary.outcomes, o.source = s)
    (hheard : Heard listener summary.outcomes.length
      (lastUpdate summary.outcomes.length false)) :
    ∃ again left, (run settings other listener base).Returns fs again left ∧
      (∀ k : Nat, Option.Rel (Outcome.FailsAt s) summary.outcomes[k]? again.outcomes[k]?) ∧
      ∀ loc, left.entryAt loc = after.entryAt loc ∨
        OnlyFor s summary.outcomes again.outcomes fs left after loc := by
  obtain ⟨failing, hfailing, hsource⟩ := hs
  rcases run_returns_cases hreturns with ⟨-, -, rfl⟩ | ⟨hisdir, hall⟩
  · simp [Summary.empty] at hfailing
  have hcheck := ((run_returns_iff_convertAll hisdir).1 hreturns).1
  obtain ⟨dir, hroot, hdir⟩ := isDirectory_eq_true_iff.1 hisdir
  obtain ⟨sources, os, hfinishes, rfl⟩ := (convertAll_returns_iff hreport).1 hall
  rw [outcomes_concluded] at hscattered hfailing hheard ⊢
  obtain ⟨os', left, hconverts, hrel, hdiffers⟩ :=
    hfinishes.fails_at hconv hother hsound htree hl hroot hdir hscattered
  obtain ⟨k, hk⟩ := List.getElem?_of_mem hfailing
  obtain ⟨failed, hthere, hfails⟩ := exists_of_rel hrel hk
  have htold : Heard listener sources.length (finalUpdate sources.length
      (Summary.recorded (rootOf settings base fs) os')) := by
    rw [finalUpdate_of_failed _ _ (List.mem_of_getElem? hthere) (hfails.failed hsource).1,
      ← hfinishes.converts.length_eq]
    exact hheard
  have hagain := (run_returns_iff hreport).2
    ⟨hcheck, hisdir, sources, os', ⟨hfinishes.scanned, hconverts, htold⟩, rfl⟩
  refine ⟨_, left, hagain.1, ?_⟩
  rw [outcomes_concluded]
  exact ⟨hrel, hdiffers⟩

/-! ## An output whose name is too long -/

/-- A name of so many bytes. -/
def nameOf (n : Nat) : String := String.ofList (List.replicate n 'n')

/-- A file so many directories below a directory whose name is too long. -/
def longOutput (n : Nat) : Path := deepOutput ["d", nameOf (maxNameBytes + 1)] n

/-- Has a file in a new directory for one source, and another for all other sources. -/
def beside (p : Path) : Converter := fun _ r =>
  if r.source = (resourceOf "a").source then
    .ok (.result (.path ⟨.root, ["d", "out"]⟩) (.text "c"))
  else .ok (.result (.path p) (.text "c"))

def firstFails (p : Path) : Converter :=
  (beside p).failing (resourceOf "a").source ⟨⟨.other, "RuntimeError", "no"⟩, none⟩

def outWritten : FileSystem :=
  (twoResources.set ["d"] .directory).set ["d", "out"] (.file [0x63])

def besideOutcomes (p : Path) : List Outcome :=
  [finished (resourceOf "a") ⟨.root, ["d", "out"]⟩ true, failed (resourceOf "b") (some p)
    (OutputFault.reading p (.file (.obstructed .nameTooLong p))).message]

variable {n : Nat}

theorem size_nameOf (n : Nat) : (nameOf n).utf8ByteSize = n := by
  induction n with
  | zero => rfl
  | succ n ih =>
    have hone : 'n'.utf8Size = 1 := rfl
    unfold nameOf at ih ⊢
    rw [List.replicate_succ, String.ofList_cons, String.utf8ByteSize_append,
      String.utf8ByteSize_singleton, ih, hone, Nat.add_comm]

theorem nameOf_ne {s : String} (h : s.utf8ByteSize < n) : nameOf n ≠ s := by
  rintro rfl
  rw [size_nameOf] at h
  omega

theorem eq_of_mem_nameOf {c : Char} (h : c ∈ (nameOf n).toList) : c = 'n' := by
  rw [nameOf, String.toList_ofList] at h
  exact List.eq_of_mem_replicate h

theorem names_longOutput (n : Nat) : (longOutput n).names =
    "d" :: nameOf (maxNameBytes + 1) :: (List.replicate n "e" ++ ["out"]) := rfl

theorem longOutput_plain (n : Nat) : (longOutput n).Plain := by
  have hslash : '/' ∉ (nameOf (maxNameBytes + 1)).toList :=
    fun h => absurd (eq_of_mem_nameOf h) (by decide)
  have hname : Path.isEntryName (nameOf (maxNameBytes + 1)) = true := by
    simp only [Path.isEntryName, Bool.and_eq_true, decide_eq_true_eq, Bool.not_eq_true',
      ← Bool.not_eq_true, List.contains_iff_mem]
    exact ⟨⟨⟨nameOf_ne (by decide), nameOf_ne (by decide)⟩, nameOf_ne (by decide)⟩, hslash⟩
  refine ⟨rfl, fun m hm => ?_⟩
  rw [names_longOutput] at hm
  rcases List.mem_cons.1 hm with rfl | hm
  · decide
  rcases List.mem_cons.1 hm with rfl | hm
  · exact hname
  rcases List.mem_append.1 hm with hm | hm
  · rw [List.eq_of_mem_replicate hm]
    decide
  · rw [List.mem_singleton.1 hm]
    decide

theorem checkPath_longOutput (hn : 2 * n + 263 ≤ maxPathBytes) :
    checkPath (longOutput n) = .ok () := by
  have hd : "d".utf8ByteSize = 1 := rfl
  have hsum : Path.sizeOfNames ["d", nameOf (maxNameBytes + 1)] = 259 := by
    simp only [Path.sizeOfNames, size_nameOf, hd]
    rfl
  refine checkPath_deepOutput (fun s hs hnul => ?_) (by omega)
  rcases List.mem_cons.1 hs with rfl | hs
  · simp at hnul
  · rw [List.mem_singleton.1 hs] at hnul
    exact absurd (eq_of_mem_nameOf hnul) (by decide)

theorem twoResources_free (names : List String) : twoResources.entryAt (["d"] ++ names) = none :=
  twoResources_isTree.free_of_prefix rfl (List.prefix_append _ _)

theorem hasEntry_outWritten (hn : 2 * n + 263 ≤ maxPathBytes) :
    outWritten.hasEntry (longOutput n) = .error (.obstructed .nameTooLong (longOutput n)) := by
  have htree : outWritten.IsTree := by
    have hd : (twoResources.set ["d"] .directory).IsTree :=
      twoResources_isTree.set_child (entryAt_nil _) (twoResources_free [])
    have hfree : (twoResources.set ["d"] .directory).entryAt (["d"] ++ ["out"]) = none := rfl
    exact hd.set_child rfl hfree
  have hl : outWritten.LinkFree :=
    (twoResources_linkFree.set (by simp) (by simp)).set (by simp) (by simp)
  rcases hl.hasEntry_cases htree (longOutput_plain n) (checkPath_longOutput hn) with
    ⟨-, e, he⟩ | ⟨-, hnot⟩ | ⟨herror, -⟩
  · have hfree := twoResources_free (nameOf (maxNameBytes + 1) :: (List.replicate n "e" ++ ["out"]))
    rw [outWritten, names_longOutput, entryAt_set _ _ _ _ (by simp), if_neg (by simp),
      entryAt_set _ _ _ _ (by simp), if_neg (by simp)] at he
    exact absurd (he.symm.trans hfree) (by simp)
  · refine absurd ⟨["d"], nameOf (maxNameBytes + 1), List.prefix_append ["d", _] _, rfl, ?_⟩ hnot
    rw [size_nameOf]
    exact Nat.lt_succ_self _
  · exact herror

theorem run_beside {p : Path} (hp : outWritten.hasEntry p = .error (.obstructed .nameTooLong p)) :
    (run plainSettings (beside p) none none).Returns twoResources
      (concluded (Summary.recorded ⟨.root, []⟩ (besideOutcomes p))) outWritten := by
  have hfirst : (step plainSettings (beside p) 0 (resourceOf "a")).Returns twoResources
      (finished (resourceOf "a") ⟨.root, ["d", "out"]⟩ true) outWritten := returns_iff.2 ⟨rfl, rfl⟩
  have hanswer : consult (beside p) (request plainSettings 1 (resourceOf "b")) outWritten =
      .ok (.generated ⟨p, .text "c"⟩) := rfl
  have hdiffers : TextFile.differs outWritten p (.text "c") plainSettings.encoding =
      .error (.file (.obstructed .nameTooLong p)) := by
    simp only [TextFile.differs, hp]
  have hfinishes : Finishes plainSettings (beside p) none ⟨.root, []⟩ twoResources
      [resourceOf "a", resourceOf "b"] (besideOutcomes p) outWritten :=
    ⟨scan_twoResources, .cons hfirst (heard_none _ _)
      (.cons (returns_of_unreadable hanswer hdiffers rfl) (heard_none _ _) (.nil 2 _)),
      heard_none _ _⟩
  exact ((run_returns_iff rfl).2 ⟨plainSettings_check, rfl, _, _, hfinishes, rfl⟩).1

theorem besideOutcomes_scattered (n : Nat) :
    Scattered twoResources (besideOutcomes (longOutput n)) := by
  have hout : Path.Plain ⟨.root, ["d", "out"]⟩ := ⟨rfl, by decide⟩
  have hname : nameOf (maxNameBytes + 1) ≠ "out" := nameOf_ne (by decide)
  have houtput : ∀ o ∈ besideOutcomes (longOutput n), ∀ p, o.output = some p →
      p = ⟨.root, ["d", "out"]⟩ ∨ p = longOutput n := by
    intro o ho p hp
    rcases List.mem_cons.1 ho with rfl | ho
    · exact .inl (Option.some.inj hp).symm
    · rw [List.mem_singleton.1 ho] at hp
      exact .inr (Option.some.inj hp).symm
  refine ⟨fun o ho p hp => ?_, ?_, fun o ho source hsource p hp hlocate => ?_⟩
  · rcases houtput o ho p hp with rfl | rfl
    · exact hout
    · exact longOutput_plain n
  · refine List.pairwise_pair.2 fun p q hp hq => ?_
    obtain rfl := Option.some.inj hp
    obtain rfl := Option.some.inj hq
    simp [names_longOutput, hname, hname.symm]
  · have hfree : twoResources.entryAt p.names = none := by
      rcases houtput o ho p hp with rfl | rfl
      · exact twoResources_free ["out"]
      · exact twoResources_free (nameOf (maxNameBytes + 1) :: (List.replicate n "e" ++ ["out"]))
    obtain ⟨e, he⟩ := twoResources_isTree.exists_entry_of_locate hlocate
    exact absurd (hfree.symm.trans he) (by simp)

theorem beside_readsSource (p : Path) : (beside p).ReadsSource :=
  ⟨fun source _ _ _ => if source = (resourceOf "a").source
    then .ok (.result (.path ⟨.root, ["d", "out"]⟩) (.text "c"))
    else .ok (.result (.path p) (.text "c")), fun _ _ => rfl⟩

theorem firstFails_failsAt (p : Path) :
    (firstFails p).FailsAt (beside p) (resourceOf "a").source :=
  Converter.failing_failsAt _ _ ⟨rfl, rfl⟩

theorem beside_sound {p : Path}
    (hshallow : ¬ twoResources.TooDeep twoResources.limits.outputs p.parent) :
    SoundBeside (beside p) (resourceOf "a").source twoResources := by
  intro fs r value g hne hvalue hg
  rw [beside, if_neg hne, Except.ok.injEq] at hvalue
  obtain rfl := hvalue
  obtain rfl := Answer.generated.inj (Except.ok.inj hg)
  exact ⟨.inl rfl, hshallow⟩

theorem run_isolates_longOutput :
    (run plainSettings (beside (longOutput 0)) none none).Returns twoResources
        (concluded (Summary.recorded ⟨.root, []⟩ (besideOutcomes (longOutput 0)))) outWritten ∧
      ∃ again left, (run plainSettings (firstFails (longOutput 0)) none none).Returns
          twoResources again left ∧
        (∀ k : Nat, Option.Rel (Outcome.FailsAt (resourceOf "a").source)
          (besideOutcomes (longOutput 0))[k]? again.outcomes[k]?) ∧
        ∀ loc, left.entryAt loc = outWritten.entryAt loc ∨
          OnlyFor (resourceOf "a").source (besideOutcomes (longOutput 0)) again.outcomes
            twoResources left outWritten loc := by
  have hreturns := run_beside (hasEntry_outWritten (n := 0) (by decide))
  have houtcomes := outcomes_concluded ⟨.root, []⟩ (besideOutcomes (longOutput 0))
  have hshallow : ¬ twoResources.TooDeep twoResources.limits.outputs (longOutput 0).parent := by
    unfold longOutput
    rw [tooDeep_deepOutput_iff (checkPath_longOutput (by decide)) (by decide) (by decide) rfl]
    decide
  have hisolated := run_isolates twoResources_isTree twoResources_linkFree
    (beside_readsSource (longOutput 0)) (firstFails_failsAt (longOutput 0))
    (beside_sound hshallow) rfl hreturns (houtcomes ▸ besideOutcomes_scattered 0)
    ⟨finished (resourceOf "a") ⟨.root, ["d", "out"]⟩ true,
      houtcomes ▸ List.mem_cons_self .., rfl⟩ (heard_none _ _)
  rw [houtcomes] at hisolated
  exact ⟨hreturns, hisolated⟩

/-- With no directory above it, a name that is too long is found to be free, and then too many
directories are missing. -/
theorem step_firstFails (hn : 2 * n + 263 ≤ maxPathBytes)
    (hdeep : twoResources.limits.outputs.calls < n + 1) :
    ((step plainSettings (firstFails (longOutput n)) 1 (resourceOf "b")).run twoResources).result =
      .error (.text (.file (.tooNested twoResources.limits.outputs.reason))) := by
  have hk : TextFile.Known plainSettings.encoding :=
    known_of_check plainSettings_check (by decide +kernel)
  have hlooked := checkPath_longOutput hn
  have hfree : twoResources.entryAt ["d"] = none := rfl
  have habsent : twoResources.hasEntry (longOutput n) = .ok false :=
    hasEntry_of_missing hlooked rfl (names_longOutput n) (by decide) (by decide) hfree
  have hanswer : firstFails (longOutput n) twoResources
      (request plainSettings 1 (resourceOf "b")) =
        .ok (.result (.path (longOutput n)) (.text "c")) := rfl
  refine (step_eq_error_iff hk fun thrown hthrown => ?_).2
    (.escaped ⟨longOutput n, .text "c"⟩ _ rfl (.tooNested [0x63] rfl
      (TextFile.differs_of_absent habsent)
      ((tooDeep_deepOutput_iff hlooked (by decide) (by decide) hfree).2 ?_)))
  · simp [hanswer] at hthrown
  · rwa [List.length_singleton, Nat.add_comm]

/-- A failure need not be kept to itself. Where one file fails for the name of its directory, it can
end the run once the directory above that is missing. -/
theorem not_run_always_isolates :
    ¬ ∀ (settings : Settings) (converter other : Converter) (s : Path) (base : Option Path)
      (fs after : FileSystem) (summary : Summary), fs.IsTree → fs.LinkFree →
      converter.ReadsSource → other.FailsAt converter s → settings.report = none →
      (run settings converter none base).Returns fs summary after →
      Scattered fs summary.outcomes → (∃ o ∈ summary.outcomes, o.source = s) →
      ∃ again left, (run settings other none base).Returns fs again left := by
  intro h
  have hn : 2 * 1000 + 263 ≤ maxPathBytes := by decide
  have houtcomes := outcomes_concluded ⟨.root, []⟩ (besideOutcomes (longOutput 1000))
  obtain ⟨again, left, hreturns⟩ := h plainSettings (beside (longOutput 1000))
    (firstFails (longOutput 1000)) (resourceOf "a").source none twoResources outWritten _
    twoResources_isTree twoResources_linkFree (beside_readsSource _) (firstFails_failsAt _) rfl
    (run_beside (hasEntry_outWritten hn)) (houtcomes ▸ besideOutcomes_scattered 1000)
    ⟨finished (resourceOf "a") ⟨.root, ["d", "out"]⟩ true,
      houtcomes ▸ List.mem_cons_self .., rfl⟩
  have hisdir : twoResources.isDirectory (rootOf plainSettings none twoResources) = .ok true := rfl
  obtain ⟨sources, os, hfinishes, -⟩ :=
    (convertAll_returns_iff rfl).1 ((run_returns_iff_convertAll hisdir).1 hreturns).2
  obtain rfl := Except.ok.inj (scan_twoResources.symm.trans hfinishes.scanned)
  have hthrown : consult (firstFails (longOutput 1000))
      (request plainSettings 0 (resourceOf "a")) twoResources =
        .error ⟨⟨.other, "RuntimeError", "no"⟩, none⟩ := rfl
  cases hfinishes.converts with
  | cons hstep _ hrest =>
    obtain ⟨-, rfl⟩ := hstep.unique (returns_of_complaint hthrown ⟨rfl, rfl⟩)
    cases hrest with
    | cons hstep _ _ =>
      have hok := (returns_iff.1 hstep).1
      rw [step_firstFails hn (by decide)] at hok
      simp at hok

end Run

end ResourceAccessors
