import ResourceAccessors.Text.Template.Conversion

/-! Filling message templates. The slots of a template take the arguments one after another, and
none may be left over. A single argument that is a record and not empty is taken apart instead: a
slot with a key takes a field of it, and one without a key, if no key comes before it, all of it. A
template without arguments is taken as it is. -/
namespace ResourceAccessors.Text
set_option autoImplicit false

/-- The arguments that are left: those that slots without keys take, and the fields of a record. -/
structure Supply where
  pending : List Argument
  fields : Option (List (String × Argument))

namespace Supply

def ofArguments (arguments : List Argument) : Supply :=
  match arguments with
  | [.record (first :: more)] => ⟨arguments, some (first :: more)⟩
  | _ => ⟨arguments, none⟩

def next (s : Supply) : Except TemplateFault (Argument × Supply) :=
  match s.pending with
  | [] => .error .tooFewArguments
  | a :: rest => .ok (a, { s with pending := rest })

/-- A key makes its field the argument that comes next. -/
def select (s : Supply) (key : Key) : Except TemplateFault Supply :=
  match key, s.fields with
  | .unset, _ => .ok s
  | _, none => .error .noRecord
  | .unclosed, some _ => .error .openKey
  | .named name, some fields =>
    match fields.lookup name with
    | some value => .ok { s with pending := [value] }
    | none => .error (.unknownKey name)

end Supply

/-- The largest amounts. -/
def mostWidth : Nat := Nat.pow 2 63 - 1
def mostPrecision : Nat := Nat.pow 2 31 - 1

/-- An amount taken from the arguments. -/
def givenAmount (most : Nat) (tooLarge : TemplateFault) (s : Supply) :
    Except TemplateFault (Int × Supply) :=
  match s.next with
  | .error fault => .error fault
  | .ok (a, rest) =>
    match a.toInt? with
    | none => .error .amountNotInteger
    | some n => if n < -(most : Int) - 1 || most < n then .error tooLarge else .ok (n, rest)

/-- The width of a slot, with its flags: a negative one asks for padding on the right. -/
def widthOf (slot : Slot) (s : Supply) : Except TemplateFault (Option Nat × Flags × Supply) :=
  match slot.width with
  | .unset => .ok (none, slot.flags, s)
  | .fixed n => if mostWidth < n then .error .widthTooLarge else .ok (some n, slot.flags, s)
  | .given =>
    match givenAmount mostWidth .givenWidthTooLarge s with
    | .error fault => .error fault
    | .ok (n, rest) =>
      .ok (some n.natAbs, { slot.flags with left := slot.flags.left || n < 0 }, rest)

/-- The precision of a slot; a negative one counts as zero. -/
def precisionOf (slot : Slot) (s : Supply) : Except TemplateFault (Option Nat × Supply) :=
  match slot.precision with
  | .unset => .ok (none, s)
  | .fixed n => if mostPrecision < n then .error .precisionTooLarge else .ok (some n, s)
  | .given =>
    match givenAmount mostPrecision .givenPrecisionTooLarge s with
    | .error fault => .error fault
    | .ok (n, rest) => .ok (some n.toNat, rest)

/-- Fills one slot of a template of `total` characters. -/
def fillSlot (total : Nat) (slot : Slot) (s : Supply) :
    Except TemplateFault (List Char × Supply) := do
  let s ← s.select slot.key
  let (width, flags, s) ← widthOf slot s
  let (precision, s) ← precisionOf slot s
  match slot.conversion with
  | none => throw .incomplete
  | some c =>
    let (a, s) ← s.next
    let written ← Conversion.fill flags width precision c (total - slot.behind - 1) a
    return (written, s)

/-- Fills the slots from left to right; the first fault counts. -/
def fillPieces (total : Nat) (s : Supply) : List Piece → Except TemplateFault (List Char)
  | [] => if s.fields.isNone && !s.pending.isEmpty then .error .tooManyArguments else .ok []
  | .literal c :: rest => (fillPieces total s rest).map (c :: ·)
  | .slot slot :: rest =>
    match fillSlot total slot s with
    | .error fault => .error fault
    | .ok (written, s) => (fillPieces total s rest).map (written ++ ·)

def fill (template : String) (arguments : List Argument) : Except TemplateFault String :=
  if arguments.isEmpty then .ok template
  else
    let cs := template.toList
    (fillPieces cs.length (.ofArguments arguments) (pieces cs)).map String.ofList

end ResourceAccessors.Text
