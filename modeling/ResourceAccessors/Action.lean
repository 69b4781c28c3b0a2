import ResourceAccessors.Fault
import ResourceAccessors.Progress

/-! Actions on a file system: each ends in a value or a fault, and either way leaves a file system
and the events that happened on the way, in order. What an action did before a fault stays done. -/
namespace ResourceAccessors
set_option autoImplicit false

/-- Diagnostic notes, for those who look into how a run went. -/
inductive Note where
  | argumentsRead
  | loaded (specification : String)
  | candidates (count : Nat)
  | converterRaised (source : Path)
  | unchanged (destination : Path)
  | written (destination : Path)
  | reportFailed (fault : FileFault)
  deriving DecidableEq

def Note.text : Note → String
  | argumentsRead => "CLI 参数解析完成"
  | loaded specification => s!"已加载转换器 {specification}"
  | candidates count => s!"发现 {count} 个候选 resx 文件"
  | converterRaised source => s!"转换器异常：{source}"
  | unchanged destination => s!"内容未变化，跳过写入：{destination}"
  | written destination => s!"已写入 {destination}"
  | reportFailed fault => s!"写入报告失败：{fault.message}"

inductive Event where
  | message (m : Message)
  | note (n : Note)
  | progress (p : Progress)
  | call (r : Request)
  deriving DecidableEq

structure Trace (α : Type) where
  result : Except Fault α
  files : FileSystem
  events : List Event

def Action (α : Type) : Type :=
  FileSystem → Trace α

namespace Action

variable {α β : Type}

def run (x : Action α) (fs : FileSystem) : Trace α :=
  x fs

protected def pure (a : α) : Action α :=
  fun fs => ⟨.ok a, fs, []⟩

protected def bind (x : Action α) (f : α → Action β) : Action β :=
  fun fs =>
    match x fs with
    | ⟨.ok a, after, events⟩ =>
      let rest := f a after
      ⟨rest.result, rest.files, events ++ rest.events⟩
    | ⟨.error fault, after, events⟩ => ⟨.error fault, after, events⟩

instance : Monad Action where
  pure := Action.pure
  bind := Action.bind

/-- Ends in a fault. -/
def fail (fault : Fault) : Action α :=
  fun fs => ⟨.error fault, fs, []⟩

def ofExcept (r : Except Fault α) : Action α :=
  fun fs => ⟨r, fs, []⟩

/-- Asks something of the files. -/
def ask (question : FileSystem → α) : Action α :=
  fun fs => ⟨.ok (question fs), fs, []⟩

/-- Makes a change that may stop partway. -/
def change (f : FileSystem → Except Fault α × FileSystem) : Action α :=
  fun fs =>
    let after := f fs
    ⟨after.1, after.2, []⟩

def emit (e : Event) : Action Unit :=
  fun fs => ⟨.ok (), fs, [e]⟩

def say (m : Message) : Action Unit :=
  emit (.message m)

def note (n : Note) : Action Unit :=
  emit (.note n)

/-- Turns the faults that `contained` picks into values; all others end the action. -/
def contain (contained : Fault → Option β) (x : Action α) : Action (Except β α) :=
  fun fs =>
    match x fs with
    | ⟨.ok a, after, events⟩ => ⟨.ok (.ok a), after, events⟩
    | ⟨.error fault, after, events⟩ =>
      match contained fault with
      | some b => ⟨.ok (.error b), after, events⟩
      | none => ⟨.error fault, after, events⟩

theorem run_pure (a : α) (fs : FileSystem) : (pure a : Action α).run fs = ⟨.ok a, fs, []⟩ := rfl

theorem run_bind_ok {x : Action α} {f : α → Action β} {fs after : FileSystem} {a : α}
    {events : List Event} (h : x.run fs = ⟨.ok a, after, events⟩) :
    (x >>= f).run fs =
      ⟨((f a).run after).result, ((f a).run after).files, events ++ ((f a).run after).events⟩ := by
  simp only [run, bind, Action.bind] at *
  rw [h]

theorem run_bind_error {x : Action α} {f : α → Action β} {fs after : FileSystem} {fault : Fault}
    {events : List Event} (h : x.run fs = ⟨.error fault, after, events⟩) :
    (x >>= f).run fs = ⟨.error fault, after, events⟩ := by
  simp only [run, bind, Action.bind] at *
  rw [h]

theorem run_contain_ok (contained : Fault → Option β) {x : Action α} {fs after : FileSystem}
    {a : α} {events : List Event} (h : x.run fs = ⟨.ok a, after, events⟩) :
    (contain contained x).run fs = ⟨.ok (.ok a), after, events⟩ := by
  simp only [run, contain] at *
  rw [h]

theorem run_contain_error (contained : Fault → Option β) {x : Action α} {fs after : FileSystem}
    {fault : Fault} {events : List Event} (h : x.run fs = ⟨.error fault, after, events⟩) :
    (contain contained x).run fs =
      match contained fault with
      | some b => ⟨.ok (.error b), after, events⟩
      | none => ⟨.error fault, after, events⟩ := by
  simp only [run, contain] at *
  rw [h]

end Action

end ResourceAccessors
