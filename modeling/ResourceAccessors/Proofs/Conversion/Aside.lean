import ResourceAccessors.Proofs.Conversion.Effect
import ResourceAccessors.Proofs.FileSystem.Aside

/-! One file more, aside of what a conversion writes. The output is compared and written as it would
be without that file. So if the converter gives the same answer with it, the conversion ends in the
same outcome, tells the same, and leaves the file where it is. -/
namespace ResourceAccessors
set_option autoImplicit false

open ResourceAccessors.Action FileSystem

variable {fs after : FileSystem} {q : Location} {e : Entry}

/-! ## Text files -/

namespace TextFile

variable {p : Path} (hl : fs.LinkFree) (hp : p.Plain) (haside : ¬ q <+: p.names)
include hl hp haside

theorem differs_set (content : Value) (encoding : String) :
    differs (fs.set q e) p content encoding = differs fs p content encoding := by
  obtain ⟨hentry, hread⟩ :=
    hasEntry_congr hl hp fun hpre => entryAt_set_of_prefix (e := e) haside hpre
  exact differs_congr hentry hread

theorem writeBytes_set (bytes : List UInt8) :
    writeBytes (fs.set q e) p bytes =
      ((writeBytes fs p bytes).1, (writeBytes fs p bytes).2.set q e) := by
  have habove : ¬ q <+: p.parent.names := fun hpre => haside (hpre.trans (List.dropLast_prefix _))
  have hready := ((made_makeDirectories fs fs.limits.outputs p.parent).grown hl hp.parent
    (List.prefix_refl _)).1
  unfold writeBytes
  rw [limits_set, makeDirectories_set hl hp.parent habove]
  cases hmake : fs.makeDirectories fs.limits.outputs p.parent with
  | mk result ready =>
    rw [hmake] at hready
    cases result with
    | error fault => rfl
    | ok u =>
      simp only [write_set hready hp haside]
      cases ready.write p bytes <;> rfl

theorem write_set (content : Value) (encoding : String) :
    write (fs.set q e) p content encoding =
      ((write fs p content encoding).1, (write fs p content encoding).2.set q e) := by
  unfold write
  cases bytesOf content encoding with
  | error fault => rfl
  | ok bytes => exact writeBytes_set hl hp haside bytes

end TextFile

/-! ## Outputs -/

theorem Output.writeIfChanged_commutes (encoding : String) {g : Generated} (hl : fs.LinkFree)
    (hp : g.destination.Plain) (haside : ¬ q <+: g.destination.names) :
    (Output.writeIfChanged encoding g).Commutes (·.set q e) fs := by
  unfold Output.writeIfChanged
  refine (commutes_ask (TextFile.differs_set hl hp haside _ _)).bind fun differs mid hasked => ?_
  obtain ⟨-, rfl⟩ := hasked.unique (returns_ask _)
  match differs with
  | .error fault => exact commutes_fail _
  | .ok false => exact (commutes_emit _).bind fun _ _ _ => commutes_pure _
  | .ok true =>
    refine Commutes.bind ?_ fun _ _ _ => commutes_pure _
    unfold Output.write
    refine (commutes_change ?_).bind fun _ _ _ => commutes_emit _
    simp only [TextFile.write_set hl hp haside]

/-! ## Conversions -/

namespace Conversion

variable {settings : Settings} {converter : Converter} {ordinal : Nat} {source : SourceFile}
  {o : Outcome} {g : Generated}

/-- A conversion that ends names as its output the file that the converter answered with. -/
theorem output_of_step (h : (step settings converter ordinal source).Returns fs o after)
    (hc : consult converter (request settings ordinal source) fs = .ok (.generated g)) :
    o.output = some g.destination := by
  have hs := stepped settings converter ordinal source fs
  obtain ⟨events, hrun⟩ := h
  rw [hrun] at hs
  have hanswer : ∀ {g' : Generated},
      consult converter (request settings ordinal source) fs = .ok (.generated g') → g' = g := by
    intro g' hg'
    rw [hc, Except.ok.injEq, Answer.generated.injEq] at hg'
    exact hg'.symm
  cases hs with
  | complained raised hraised => simp [hc] at hraised
  | unreadable g' fault hg' => exact congrArg (fun g => some g.destination) (hanswer hg')
  | unchanged g' hg' => exact congrArg (fun g => some g.destination) (hanswer hg')
  | unwritable g' fault partway hg' => exact congrArg (fun g => some g.destination) (hanswer hg')
  | converted g' partway hg' => exact congrArg (fun g => some g.destination) (hanswer hg')

theorem step_commutes (hl : fs.LinkFree)
    (hconsult : consult converter (request settings ordinal source) (fs.set q e) =
      consult converter (request settings ordinal source) fs)
    (hstep : (step settings converter ordinal source).Returns fs o after)
    (hplain : ∀ p, o.output = some p → p.Plain)
    (haside : ∀ p, o.output = some p → ¬ q <+: p.names) :
    (step settings converter ordinal source).Commutes (·.set q e) fs := by
  unfold step
  refine (commutes_emit _).bind fun _ called hcalled => ?_
  obtain ⟨-, rfl⟩ := hcalled.unique (returns_emit _)
  refine (commutes_ask hconsult).bind fun answer asked hasked => ?_
  obtain ⟨hanswer, rfl⟩ := hasked.unique (returns_ask _)
  cases answer with
  | error raised =>
    simp only
    split
    · exact commutes_fail _
    · exact commutes_fail _
    · exact (commutes_ofExcept _).bind fun _ _ _ => commutes_pure _
    · exact (commutes_emit _).bind fun _ _ _ =>
        (commutes_ofExcept _).bind fun _ _ _ => commutes_pure _
  | ok result =>
    cases result with
    | misplaced fault => exact commutes_fail _
    | generated g =>
      have hout := output_of_step hstep hanswer.symm
      have hwrite := Output.writeIfChanged_commutes (e := e) settings.encoding hl (hplain _ hout)
        (haside _ hout)
      refine hwrite.contain.bind fun result _ _ => ?_
      cases result <;> exact commutes_pure _

end Conversion

end ResourceAccessors
