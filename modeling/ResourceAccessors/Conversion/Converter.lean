import ResourceAccessors.Conversion.Value
import ResourceAccessors.FileSystem.Basic

/-! Converters: what they are asked, and what they answer or raise. A converter looks at the files
and changes none of them. -/
namespace ResourceAccessors
set_option autoImplicit false

/-- The families of faults that loaded code can raise, as far as the handling of a fault depends on
its family. An interruption, by the code itself or by the user who cancels it, is no fault of the
code and is never contained. That an input is at its end, or a pipe is broken, matters only to the
command line. -/
inductive Family where
  | conversion
  | loading
  | configuration
  | importing
  | typing
  | interruption
  | cancellation
  | endOfInput
  | brokenPipe
  | other
  deriving DecidableEq

def Family.interrupts : Family → Bool
  | interruption | cancellation => true
  | conversion | loading | configuration | importing | typing | endOfInput | brokenPipe
  | other => false

/-- A fault raised by loaded code: the name of its class and its text. -/
structure Raised where
  family : Family
  name : String
  text : String
  deriving DecidableEq

/-- What is raised where the text of a fault is asked for: the name of the class and the text of a
fault that is handled like no other. -/
structure Breakdown where
  name : String
  text : String
  deriving DecidableEq

def Breakdown.raised (breakdown : Breakdown) : Raised :=
  ⟨.other, breakdown.name, breakdown.text⟩

/-- What a converter raises: a fault and, if its text cannot be told, what is raised instead. -/
structure Thrown where
  raised : Raised
  instead : Option Breakdown
  deriving DecidableEq

/-- One call: the resource file, the namespace and visibility asked for, and the number of calls
made before this one. -/
structure Request where
  source : Path
  accessorNamespace : String
  internal : Bool
  ordinal : Nat
  deriving DecidableEq

abbrev Converter := FileSystem → Request → Except Thrown Value

end ResourceAccessors
