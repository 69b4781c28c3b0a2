import ResourceAccessors.Conversion.Step
import ResourceAccessors.Proofs.Output.Settled

/-! Everything the conversion of one file can do, with the files it leaves and the events it emits:
the converter interrupts or fails, its answer names no path or is compared with what is there, and
the output is left alone, written, or found to be at fault. -/
namespace ResourceAccessors
set_option autoImplicit false

/-- What makes its file a failed one: it does not interrupt, and its text can be told. -/
structure Thrown.Contained (thrown : Thrown) : Prop where
  family : thrown.raised.family.interrupts = false
  text : thrown.instead = none

namespace Conversion

variable (settings : Settings) (converter : Converter) (ordinal : Nat) (source : SourceFile)
  (fs : FileSystem)

def request : Request :=
  ⟨source.source, settings.accessorNamespace, settings.internal, ordinal⟩

/-- The message of a fault of the converter that does not interrupt, and the notes on it. -/
def complaint (raised : Raised) : String × List Event :=
  if raised.family = .conversion then (raised.text, [])
  else (s!"{raised.name}: {raised.text}", [.note (.converterRaised source.source)])

inductive Stepped : Trace Outcome → Prop
  | interrupted (thrown : Thrown) :
      consult converter (request settings ordinal source) fs = .error thrown →
      thrown.raised.family.interrupts = true →
      Stepped ⟨.error (.raised thrown.raised), fs, [.call (request settings ordinal source)]⟩
  | complained (thrown : Thrown) :
      consult converter (request settings ordinal source) fs = .error thrown →
      thrown.Contained →
      Stepped ⟨.ok (failed source none (complaint source thrown.raised).1), fs,
        .call (request settings ordinal source) :: (complaint source thrown.raised).2⟩
  | unspoken (thrown : Thrown) (breakdown : Breakdown) :
      consult converter (request settings ordinal source) fs = .error thrown →
      thrown.raised.family.interrupts = false → thrown.instead = some breakdown →
      Stepped ⟨.error (.raised breakdown.raised), fs,
        .call (request settings ordinal source) :: (complaint source thrown.raised).2⟩
  | misplaced (fault : ShapeFault) :
      consult converter (request settings ordinal source) fs = .ok (.misplaced fault) →
      Stepped ⟨.error (.shape fault), fs, [.call (request settings ordinal source)]⟩
  | unreadable (g : Generated) (fault : TextFault) :
      consult converter (request settings ordinal source) fs = .ok (.generated g) →
      TextFile.differs fs g.destination g.content settings.encoding = .error fault →
      fault.isOfFile = true →
      Stepped ⟨.ok (failed source (some g.destination)
        (OutputFault.reading g.destination fault).message), fs,
        [.call (request settings ordinal source)]⟩
  | uncomparable (g : Generated) (fault : TextFault) :
      consult converter (request settings ordinal source) fs = .ok (.generated g) →
      TextFile.differs fs g.destination g.content settings.encoding = .error fault →
      fault.isOfFile = false →
      Stepped ⟨.error (.text fault), fs, [.call (request settings ordinal source)]⟩
  | unchanged (g : Generated) :
      consult converter (request settings ordinal source) fs = .ok (.generated g) →
      TextFile.differs fs g.destination g.content settings.encoding = .ok false →
      Stepped ⟨.ok (finished source g.destination false), fs,
        [.call (request settings ordinal source), .note (.unchanged g.destination)]⟩
  | unwritable (g : Generated) (fault : TextFault) (partway : FileSystem) :
      consult converter (request settings ordinal source) fs = .ok (.generated g) →
      TextFile.differs fs g.destination g.content settings.encoding = .ok true →
      TextFile.write fs g.destination g.content settings.encoding = (.error fault, partway) →
      fault.isOfFile = true →
      Stepped ⟨.ok (failed source (some g.destination)
        (OutputFault.writing g.destination fault).message), partway,
        [.call (request settings ordinal source)]⟩
  | unencodable (g : Generated) (fault : TextFault) (partway : FileSystem) :
      consult converter (request settings ordinal source) fs = .ok (.generated g) →
      TextFile.differs fs g.destination g.content settings.encoding = .ok true →
      TextFile.write fs g.destination g.content settings.encoding = (.error fault, partway) →
      fault.isOfFile = false →
      Stepped ⟨.error (.text fault), partway, [.call (request settings ordinal source)]⟩
  | converted (g : Generated) (after : FileSystem) :
      consult converter (request settings ordinal source) fs = .ok (.generated g) →
      TextFile.differs fs g.destination g.content settings.encoding = .ok true →
      TextFile.write fs g.destination g.content settings.encoding = (.ok (), after) →
      Stepped ⟨.ok (finished source g.destination true), after,
        [.call (request settings ordinal source), .note (.written g.destination)]⟩

/-! ## The conversion is one of these -/

variable {settings converter ordinal source fs}

/-- What is done with the answer of the converter, its call left out. -/
def handle (settings : Settings) (source : SourceFile) :
    Except Thrown Answer → Action Outcome
  | .error thrown =>
    match thrown.raised.family with
    | .interruption | .cancellation => Action.fail (.raised thrown.raised)
    | .conversion => do
      let text ← Action.ofExcept (textOf thrown)
      return failed source none text
    | _ => do
      Action.note (.converterRaised source.source)
      let text ← Action.ofExcept (textOf thrown)
      return failed source none s!"{thrown.raised.name}: {text}"
  | .ok (.misplaced fault) => Action.fail (.shape fault)
  | .ok (.generated generated) => do
    match ← Action.contain outputFault? (Output.writeIfChanged settings.encoding generated) with
    | .error fault => return failed source (some generated.destination) fault.message
    | .ok written => return finished source generated.destination written

theorem run_step : (step settings converter ordinal source).run fs =
    let answer := consult converter (request settings ordinal source) fs
    let rest := (handle settings source answer).run fs
    ⟨rest.result, rest.files, .call (request settings ordinal source) :: rest.events⟩ := rfl

variable {thrown : Thrown}

theorem run_handle_interrupted (h : thrown.raised.family.interrupts = true) :
    (handle settings source (.error thrown)).run fs =
      ⟨.error (.raised thrown.raised), fs, []⟩ := by
  unfold handle
  cases hf : thrown.raised.family <;> simp_all [Family.interrupts] <;> rfl

theorem run_handle_complained (h : thrown.Contained) :
    (handle settings source (.error thrown)).run fs =
      ⟨.ok (failed source none (complaint source thrown.raised).1), fs,
        (complaint source thrown.raised).2⟩ := by
  obtain ⟨hfamily, htext⟩ := h
  unfold handle complaint textOf
  cases hf : thrown.raised.family <;> simp_all [Family.interrupts] <;> rfl

theorem run_handle_unspoken {breakdown : Breakdown}
    (hfamily : thrown.raised.family.interrupts = false)
    (hinstead : thrown.instead = some breakdown) :
    (handle settings source (.error thrown)).run fs =
      ⟨.error (.raised breakdown.raised), fs, (complaint source thrown.raised).2⟩ := by
  unfold handle complaint textOf
  cases hf : thrown.raised.family <;> simp_all [Family.interrupts] <;> rfl

theorem run_handle_generated (g : Generated) :
    (handle settings source (.ok (.generated g))).run fs =
      match (Output.writeIfChanged settings.encoding g).run fs with
      | ⟨.ok written, after, events⟩ => ⟨.ok (finished source g.destination written), after, events⟩
      | ⟨.error fault, after, events⟩ =>
        match outputFault? fault with
        | some fault => ⟨.ok (failed source (some g.destination) fault.message), after, events⟩
        | none => ⟨.error fault, after, events⟩ := by
  unfold handle
  cases hw : (Output.writeIfChanged settings.encoding g).run fs with
  | mk result after events =>
    cases result with
    | ok written =>
      rw [Action.run_bind_ok (Action.run_contain_ok _ hw)]
      simp [Action.run_pure]
    | error fault =>
      have hc := Action.run_contain_error outputFault? hw
      cases hf : outputFault? fault with
      | none =>
        simp only [hf] at hc ⊢
        rw [Action.run_bind_error hc]
      | some output =>
        simp only [hf] at hc ⊢
        rw [Action.run_bind_ok hc]
        simp [Action.run_pure]

theorem outputFault?_wrap (side : TextFault → OutputFault) (fault : TextFault) :
    outputFault? (Output.wrap side fault) = if fault.isOfFile then some (side fault) else none := by
  unfold Output.wrap
  split <;> rfl

theorem stepped_of_generated {g : Generated}
    (hanswer : consult converter (request settings ordinal source) fs = .ok (.generated g)) :
    Stepped settings converter ordinal source fs
      ((step settings converter ordinal source).run fs) := by
  rw [run_step, hanswer]
  simp only [run_handle_generated, Output.run_writeIfChanged]
  cases hd : TextFile.differs fs g.destination g.content settings.encoding with
  | error fault =>
    simp only [outputFault?_wrap]
    cases hof : fault.isOfFile with
    | true => exact .unreadable g fault hanswer hd hof
    | false =>
      simp only [Output.wrap, hof]
      exact .uncomparable g fault hanswer hd hof
  | ok differs =>
    cases differs with
    | false => exact .unchanged g hanswer hd
    | true =>
      cases hw : TextFile.write fs g.destination g.content settings.encoding with
      | mk result after =>
        cases result with
        | ok => exact .converted g after hanswer hd hw
        | error fault =>
          simp only [outputFault?_wrap]
          cases hof : fault.isOfFile with
          | true => exact .unwritable g fault after hanswer hd hw hof
          | false =>
            simp only [Output.wrap, hof]
            exact .unencodable g fault after hanswer hd hw hof

theorem stepped (settings : Settings) (converter : Converter) (ordinal : Nat) (source : SourceFile)
    (fs : FileSystem) : Stepped settings converter ordinal source fs
      ((step settings converter ordinal source).run fs) := by
  cases hanswer : consult converter (request settings ordinal source) fs with
  | ok answer =>
    cases answer with
    | generated g => exact stepped_of_generated hanswer
    | misplaced fault =>
      rw [run_step, hanswer]
      exact .misplaced fault hanswer
  | error thrown =>
    rw [run_step, hanswer]
    cases hi : thrown.raised.family.interrupts with
    | true =>
      simp only [run_handle_interrupted hi]
      exact .interrupted thrown hanswer hi
    | false =>
      cases htext : thrown.instead with
      | none =>
        simp only [run_handle_complained ⟨hi, htext⟩]
        exact .complained thrown hanswer ⟨hi, htext⟩
      | some breakdown =>
        simp only [run_handle_unspoken hi htext]
        exact .unspoken thrown breakdown hanswer hi htext

end Conversion

end ResourceAccessors
