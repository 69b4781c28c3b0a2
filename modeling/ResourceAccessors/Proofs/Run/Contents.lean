import ResourceAccessors.Proofs.Run.Accounting
import ResourceAccessors.Proofs.Run.Footprint

/-! What the outputs of a run hold in the end, where there are no links. Several files may share an
output; it holds what the last of them gave that finished there, and where none finished there is
what was there before, or a new directory above another output. -/
namespace ResourceAccessors
set_option autoImplicit false

open ResourceAccessors.Action FileSystem

/-- A conversion that did not fail and has its output at a location. -/
def Outcome.FinishesAt (o : Outcome) (loc : Location) : Prop :=
  (o.status = .converted ∨ o.status = .unchanged) ∧ ∃ p, o.output = some p ∧ p.names = loc

namespace Run

open Conversion

variable {settings : Settings} {converter : Converter} {listener : Option Listener}
  {total index k : Nat} {fs mid after : FileSystem} {source : SourceFile}
  {sources : List SourceFile} {o : Outcome} {os : List Outcome} {summary : Summary}
  {loc : Location} {e : Encoding}

/-- An entry is as it was, or it is a new directory above an output. -/
def KeptOrAbove (fs : FileSystem) (os : List Outcome) (loc : Location) (after : FileSystem) :
    Prop :=
  after.entryAt loc = fs.entryAt loc ∨
    (fs.entryAt loc = none ∧ after.entryAt loc = some .directory ∧
      ∃ o ∈ os, ∃ p, o.output = some p ∧ loc <+: p.names ∧ loc ≠ p.names)

theorem KeptOrAbove.mono {more : List Outcome} (h : KeptOrAbove fs os loc after)
    (hsub : os ⊆ more) : KeptOrAbove fs more loc after :=
  h.imp_right fun ⟨hfree, hdir, o, ho, hp⟩ => ⟨hfree, hdir, o, hsub ho, hp⟩

theorem KeptOrAbove.trans (h1 : KeptOrAbove fs os loc mid) (h2 : KeptOrAbove mid os loc after) :
    KeptOrAbove fs os loc after := by
  rcases h1 with heq | ⟨hfree, hdir, habove⟩
  · unfold KeptOrAbove at h2 ⊢
    rwa [heq] at h2
  · rcases h2 with heq | ⟨hnone, -⟩
    · exact .inr ⟨hfree, heq.trans hdir, habove⟩
    · simp [hdir] at hnone

theorem keptOrAbove_of_step (heffect : Effect settings converter index source fs o mid)
    (hdone : o.status = .converted ∨ o.status = .unchanged ∨ o.status = .failed)
    (htree : fs.IsTree) (hl : fs.LinkFree) (hplain : ∀ p, o.output = some p → p.Plain)
    (hnot : ¬ o.FinishesAt loc) : KeptOrAbove fs [o] loc mid := by
  have helsewhere : o.status ≠ .failed → ∀ p, o.output = some p → p.names ≠ loc := by
    intro hfinished p hp hloc
    rcases hdone with hs | hs | hs
    · exact hnot ⟨.inl hs, p, hp, hloc⟩
    · exact hnot ⟨.inr hs, p, hp, hloc⟩
    · exact hfinished hs
  refine (heffect.others htree hl hplain helsewhere).imp_right ?_
  rintro ⟨hfree, hdir, habove⟩
  exact ⟨hfree, hdir, o, List.mem_singleton_self o, habove⟩

/-- Where no conversion of a loop finishes, it leaves the entry or makes a directory of it. -/
theorem Converts.keptOrAbove
    (h : Converts settings converter listener total index fs sources os after)
    (htree : fs.IsTree) (hl : fs.LinkFree) (hplain : ∀ o ∈ os, ∀ p, o.output = some p → p.Plain)
    (hnone : ∀ o ∈ os, ¬ o.FinishesAt loc) : KeptOrAbove fs os loc after := by
  induction h with
  | nil => exact .inl rfl
  | cons hstep _ _ ih =>
    obtain ⟨hp, hplain⟩ := List.forall_mem_cons.1 hplain
    obtain ⟨hnot, hnone⟩ := List.forall_mem_cons.1 hnone
    have heffect := effect_of_step hstep
    have hdone := (outcome_of_step (returns_iff.1 hstep).1).2.2
    have hfirst := keptOrAbove_of_step heffect hdone htree hl hp hnot
    have hrest := ih (heffect.isTree htree) (heffect.grown htree hl hp).1 hplain hnone
    exact (hfirst.mono (by simp)).trans (hrest.mono (List.subset_cons_self _ _))

/-- The file that the last conversion to finish at a location leaves is there behind the loop. -/
theorem Converts.holds_last
    (h : Converts settings converter listener total index fs sources os after)
    (htree : fs.IsTree) (hl : fs.LinkFree) (hplain : ∀ o ∈ os, ∀ p, o.output = some p → p.Plain)
    (hname : Codec.ofName? settings.encoding = some (.text e)) (hsource : sources[k]? = some source)
    (ho : os[k]? = some o) (hfinishes : o.FinishesAt loc)
    (hlast : ∀ j o', k < j → os[j]? = some o' → ¬ o'.FinishesAt loc) :
    ∃ p text bytes, o.output = some p ∧
      consult converter (request settings (index + k) source)
        (filesAfter settings converter index fs (sources.take k)) =
          .ok (.generated ⟨p, .text text⟩) ∧
      after.entryAt loc = some (.file bytes) ∧ e.decode bytes = .ok text := by
  induction h generalizing k with
  | nil => simp at hsource
  | @cons index fs mid after first rest o' os hstep _ hrest ih =>
    obtain ⟨hp, hplain⟩ := List.forall_mem_cons.1 hplain
    have heffect := effect_of_step hstep
    have htmid := heffect.isTree htree
    have hlmid := (heffect.grown htree hl hp).1
    cases k with
    | zero =>
      rw [List.getElem?_cons_zero, Option.some.injEq] at hsource ho
      subst hsource ho
      obtain ⟨hstatus, q, hq, rfl⟩ := hfinishes
      have hfinished : o'.status ≠ .failed := by
        rcases hstatus with hs | hs <;> simp [hs]
      obtain ⟨p, text, found, bytes, hout, hconsult, hlocate, hfile, hdecode⟩ :=
        heffect.holds htree hname hfinished
      obtain rfl : p = q := Option.some.inj (hout.symm.trans hq)
      obtain rfl : found = p.names := (hlmid.locate_plain (hp p hout) hlocate).1
      have hnone : ∀ o ∈ os, ¬ o.FinishesAt p.names := by
        intro later hlater
        obtain ⟨j, hj⟩ := List.getElem?_of_mem hlater
        exact hlast (j + 1) later (Nat.succ_pos j) hj
      refine ⟨p, text, bytes, hout, hconsult, ?_, hdecode⟩
      rcases hrest.keptOrAbove htmid hlmid hplain hnone with heq | ⟨hfree, -⟩
      · exact heq.trans hfile
      · simp [hfree] at hfile
    | succ k =>
      have hk : index + 1 + k = index + (k + 1) := by omega
      obtain ⟨p, text, bytes, hout, hconsult, hfile⟩ := ih htmid hlmid hplain hsource ho
        fun j later hj hlater => hlast (j + 1) later (Nat.succ_lt_succ hj) hlater
      rw [hk] at hconsult
      refine ⟨p, text, bytes, hout, ?_, hfile⟩
      rw [List.take_succ_cons, filesAfter, (returns_iff.1 hstep).2]
      exact hconsult

theorem run_holds_last {base : Option Path} (htree : fs.IsTree) (hl : fs.LinkFree)
    (hname : Codec.ofName? settings.encoding = some (.text e)) (hreport : settings.report = none)
    (hreturns : (run settings converter listener base).Returns fs summary after)
    (hplain : ∀ o ∈ summary.outcomes, ∀ p, o.output = some p → p.Plain) :
    ∃ sources, Scan.run fs (rootOf settings base fs) settings.patterns.texts settings.recursive =
        .ok sources ∧
      summary.outcomes.length = sources.length ∧
      ∀ loc,
        (∀ k source o, sources[k]? = some source → summary.outcomes[k]? = some o →
          o.FinishesAt loc →
          (∀ j later, k < j → summary.outcomes[j]? = some later → ¬ later.FinishesAt loc) →
            ∃ p text bytes, o.output = some p ∧
              consult converter (request settings k source)
                (filesAfter settings converter 0 fs (sources.take k)) =
                  .ok (.generated ⟨p, .text text⟩) ∧
              after.entryAt loc = some (.file bytes) ∧ e.decode bytes = .ok text) ∧
        ((∀ o ∈ summary.outcomes, ¬ o.FinishesAt loc) →
          after.entryAt loc = fs.entryAt loc ∨
            (fs.entryAt loc = none ∧ after.entryAt loc = some .directory ∧
              ∃ o ∈ summary.outcomes, ∃ p, o.output = some p ∧
                loc <+: p.names ∧ loc ≠ p.names)) := by
  obtain ⟨sources, mid, hcomposed⟩ := composed_of_returns hreturns
  obtain rfl := (hreport ▸ hcomposed.reported).eq_of_none
  have hloop := hcomposed.converts
  refine ⟨sources, hcomposed.scanned, hloop.length_eq, fun loc => ⟨?_, fun hnone => ?_⟩⟩
  · intro k source o hsource ho hfinishes hlast
    have h := hloop.holds_last htree hl hplain hname hsource ho hfinishes hlast
    rwa [Nat.zero_add] at h
  · exact hloop.keptOrAbove htree hl hplain hnone

/-! ## One output for two files -/

/-- Has one file for all of its calls, and a text for the first and for the others. -/
def sharedOutput : Converter := fun _ r =>
  .ok (.tuple [.text "/out", .text (if r.ordinal = 0 then "c" else "d")])

def sharedRun : Trace Summary := (run plainSettings sharedOutput none none).run twoResources

def sharedSummary : Summary :=
  concluded (Summary.recorded ⟨.root, []⟩
    [finished (resourceOf "a") ⟨.root, ["out"]⟩ true,
      finished (resourceOf "b") ⟨.root, ["out"]⟩ true])

theorem run_holds_last_sharedOutput :
    (run plainSettings sharedOutput none none).Returns twoResources sharedSummary
        sharedRun.files ∧
      ∃ bytes, sharedRun.files.entryAt ["out"] = some (.file bytes) ∧
        (Encoding.plain .utf8).decode bytes = .ok "d" := by
  have hreturns : (run plainSettings sharedOutput none none).Returns twoResources sharedSummary
      sharedRun.files := returns_iff.2 ⟨rfl, rfl⟩
  have hplain : ∀ o ∈ sharedSummary.outcomes, ∀ p, o.output = some p → p.Plain := by
    have hp : Path.Plain ⟨.root, ["out"]⟩ := ⟨rfl, by decide⟩
    intro o ho p hout
    rcases List.mem_cons.1 ho with rfl | ho
    · exact Option.some.inj hout ▸ hp
    · rw [List.mem_singleton.1 ho] at hout
      exact Option.some.inj hout ▸ hp
  obtain ⟨sources, hsources, -, hlocations⟩ := run_holds_last (e := .plain .utf8)
    twoResources_isTree twoResources_linkFree (by decide +kernel) rfl hreturns hplain
  obtain rfl : [resourceOf "a", resourceOf "b"] = sources :=
    Except.ok.inj (scan_twoResources.symm.trans hsources)
  have hfinishes : (finished (resourceOf "b") ⟨.root, ["out"]⟩ true).FinishesAt ["out"] :=
    ⟨.inl rfl, _, rfl, rfl⟩
  have hlast : ∀ j later, 1 < j → sharedSummary.outcomes[j]? = some later →
      ¬ later.FinishesAt ["out"] := by
    intro j later hj hlater
    have hlt := (List.getElem?_eq_some_iff.1 hlater).1
    exact absurd hlt (Nat.not_lt_of_le hj)
  obtain ⟨p, text, bytes, -, hconsult, hfile, hdecode⟩ :=
    (hlocations ["out"]).1 1 (resourceOf "b") _ rfl rfl hfinishes hlast
  have hanswer : ∀ fs, consult sharedOutput (request plainSettings 1 (resourceOf "b")) fs =
      .ok (.generated ⟨⟨.root, ["out"]⟩, .text "d"⟩) := fun _ => rfl
  rw [hanswer, Except.ok.injEq, Answer.generated.injEq, Generated.mk.injEq,
    Value.text.injEq] at hconsult
  exact ⟨hreturns, bytes, hfile, hconsult.2 ▸ hdecode⟩

end Run

end ResourceAccessors
