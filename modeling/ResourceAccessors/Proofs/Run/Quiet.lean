import ResourceAccessors.Proofs.Conversion.Stepped
import ResourceAccessors.Proofs.Run.Course

/-! Runs that nobody stops. A listener that raises nothing makes no difference to what a run comes to
and which files it leaves, so only the settings can have such a run refused. -/
namespace ResourceAccessors
set_option autoImplicit false

open ResourceAccessors.Action

namespace Run

variable {settings : Settings} {converter : Converter} {listener other : Option Listener}
  {base : Option Path} {fs after : FileSystem} {source : SourceFile} {summary : Summary}
  {fault : Fault}

/-- A listener that raises nothing, if there is one. -/
def Quiet (listener : Option Listener) : Prop :=
  ∀ ordinal update, Heard listener ordinal update

theorem quiet_none : Quiet none := heard_none

theorem announce_same (h : Quiet listener) (h' : Quiet other) (ordinal : Nat) (update : Progress) :
    (announce listener ordinal update).Same (announce other ordinal update) := by
  intro fs
  obtain ⟨hresult, hfiles⟩ := returns_iff.1 (announce_returns_iff.2 ⟨h ordinal update, rfl⟩)
  obtain ⟨hresult', hfiles'⟩ := returns_iff.1 (announce_returns_iff.2 ⟨h' ordinal update, rfl⟩)
  exact ⟨hresult.trans hresult'.symm, hfiles.trans hfiles'.symm⟩

theorem convertFrom_same (h : Quiet listener) (h' : Quiet other) (total index : Nat)
    (summary : Summary) (sources : List SourceFile) :
    (convertFrom settings converter listener total index summary sources).Same
      (convertFrom settings converter other total index summary sources) := by
  induction sources generalizing index summary with
  | nil => exact .refl _
  | cons source rest ih =>
    exact .bind (.refl _) fun o => .bind (.refl _) fun _ =>
      .bind (announce_same h h' _ _) fun _ => ih _ _

theorem conclude_same (h : Quiet listener) (h' : Quiet other) (total : Nat) (summary : Summary) :
    (conclude listener total summary).Same (conclude other total summary) := by
  unfold conclude
  split
  · exact .bind (.refl _) fun _ => .bind (.refl _) fun _ => .bind (.refl _) fun _ =>
      .bind (announce_same h h' _ _) fun _ => .refl _
  · exact .bind (announce_same h h' _ _) fun _ => .refl _

theorem convertAll_same (h : Quiet listener) (h' : Quiet other) (root : Path) :
    (convertAll settings converter listener root).Same
      (convertAll settings converter other root) := by
  unfold convertAll
  exact .bind (.refl _) fun _ => .bind (.refl _) fun _ => .bind (.refl _) fun _ =>
    .bind (.refl _) fun _ => .bind (.refl _) fun sources => .bind (.refl _) fun _ =>
      .bind (convertFrom_same h h' _ _ _ sources) fun _ =>
        .bind (conclude_same h h' _ _) fun _ => .refl _

theorem run_same (h : Quiet listener) (h' : Quiet other) :
    (run settings converter listener base).Same (run settings converter other base) := by
  intro fs
  rw [run_eq, run_eq]
  split
  · exact ⟨rfl, rfl⟩
  · exact ⟨rfl, rfl⟩
  · exact ⟨rfl, rfl⟩
  · exact convertAll_same h h' _ fs

/-- Whoever else follows a run, it comes to the same. -/
theorem run_of_quiet {result : Except Fault Summary} {events : List Event} (h : Quiet listener)
    (h' : Quiet other)
    (hrun : (run settings converter listener base).run fs = ⟨result, after, events⟩) :
    ∃ told, (run settings converter other base).run fs = ⟨result, after, told⟩ := by
  have hsame : (run settings converter listener base).Same (run settings converter other base) :=
    run_same h h'
  obtain ⟨hresult, hfiles⟩ := hsame fs
  rw [hrun] at hresult hfiles
  simp only at hresult hfiles
  subst hresult hfiles
  exact ⟨_, rfl⟩

/-! ## Faults -/

end Run

end ResourceAccessors
