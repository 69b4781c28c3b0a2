/-! Message templates as sequences of pieces: characters that stand for themselves, and slots that
arguments are put into.

A slot is a percent sign, a key in parentheses, flags, a width, a point and a precision, a size
mark and a conversion, of which only the percent sign and the conversion are always there. A
percent sign directly behind another one makes the two of them stand for one. A width or precision
given as an asterisk is taken from the arguments. Main statement: a template without percent signs
is a sequence of characters that stand for themselves. -/
namespace ResourceAccessors.Text
set_option autoImplicit false

inductive Amount where
  | unset
  | fixed (n : Nat)
  | given
  deriving DecidableEq

/-- The key of a slot: the parentheses in it are balanced, unless it is never closed. -/
inductive Key where
  | unset
  | named (name : String)
  | unclosed
  deriving DecidableEq

structure Flags where
  left : Bool
  sign : Bool
  blank : Bool
  alternate : Bool
  zero : Bool
  deriving DecidableEq

/-- A slot; `behind` is the number of characters behind it. A slot that the template ends in has no
conversion. -/
structure Slot where
  key : Key
  flags : Flags
  width : Amount
  precision : Amount
  conversion : Option Char
  behind : Nat
  deriving DecidableEq

inductive Piece where
  | literal (c : Char)
  | slot (s : Slot)
  deriving DecidableEq

namespace Slot

/-- Reads the rest of a key, `depth` parentheses deep; nothing if it is not closed. -/
def readKeyChars : (depth : Nat) → List Char → Option (List Char × List Char)
  | _, [] => none
  | depth, c :: rest =>
    if c = ')' then
      match depth with
      | 0 => some ([], rest)
      | depth + 1 => (readKeyChars depth rest).map fun (key, after) => (c :: key, after)
    else
      let deeper := if c = '(' then depth + 1 else depth
      (readKeyChars deeper rest).map fun (key, after) => (c :: key, after)

def readKey : List Char → Key × List Char
  | '(' :: rest =>
    match readKeyChars 0 rest with
    | some (key, after) => (.named (String.ofList key), after)
    | none => (.unclosed, [])
  | cs => (.unset, cs)

def isFlag (c : Char) : Bool :=
  ['-', '+', ' ', '#', '0'].contains c

def flagsOf (cs : List Char) : Flags where
  left := cs.contains '-'
  sign := cs.contains '+'
  blank := cs.contains ' '
  alternate := cs.contains '#'
  zero := cs.contains '0'

def numberOf (digits : List Char) : Nat :=
  digits.foldl (fun n c => 10 * n + (c.toNat - '0'.toNat)) 0

/-- Reads an amount; `dflt` is meant if there is none. -/
def readAmount (dflt : Amount) : List Char → Amount × List Char
  | '*' :: rest => (.given, rest)
  | cs =>
    let digits := cs.takeWhile Char.isDigit
    (if digits.isEmpty then dflt else .fixed (numberOf digits), cs.dropWhile Char.isDigit)

/-- Reads a precision. A point with nothing behind it asks for none. -/
def readPrecision : List Char → Amount × List Char
  | '.' :: rest => readAmount (.fixed 0) rest
  | cs => (.unset, cs)

/-- Size marks mean nothing. -/
def dropSizeMark : List Char → List Char
  | c :: rest => if c = 'h' || c = 'l' || c = 'L' then rest else c :: rest
  | [] => []

/-- Reads a slot behind its percent sign. -/
def read (cs : List Char) : Slot × List Char :=
  let (key, cs) := readKey cs
  let flags := flagsOf (cs.takeWhile isFlag)
  let (width, cs) := readAmount .unset (cs.dropWhile isFlag)
  let (precision, cs) := readPrecision cs
  let cs := dropSizeMark cs
  (⟨key, flags, width, precision, cs.head?, cs.length - 1⟩, cs.tail)

theorem length_readKeyChars {depth : Nat} {cs key after : List Char}
    (h : readKeyChars depth cs = some (key, after)) : after.length < cs.length := by
  induction cs generalizing depth key with
  | nil => simp [readKeyChars] at h
  | cons c rest ih =>
    simp only [readKeyChars] at h
    split at h
    · cases depth with
      | zero =>
        simp only [Option.some.injEq, Prod.mk.injEq] at h
        simp [h.2]
      | succ depth =>
        obtain ⟨⟨key', after'⟩, hk, he⟩ := Option.map_eq_some_iff.1 h
        simp only [Prod.mk.injEq] at he
        have := ih (he.2 ▸ hk)
        simp only [List.length_cons]
        omega
    · obtain ⟨⟨key', after'⟩, hk, he⟩ := Option.map_eq_some_iff.1 h
      simp only [Prod.mk.injEq] at he
      have := ih (he.2 ▸ hk)
      simp only [List.length_cons]
      omega

theorem length_readKey (cs : List Char) : (readKey cs).2.length ≤ cs.length := by
  unfold readKey
  split
  · next rest =>
    cases h : readKeyChars 0 rest with
    | none => simp
    | some found =>
      have := length_readKeyChars h
      simp only [List.length_cons]
      omega
  · simp

theorem length_readAmount (dflt : Amount) (cs : List Char) :
    (readAmount dflt cs).2.length ≤ cs.length := by
  unfold readAmount
  split
  · simp
  · exact (List.dropWhile_sublist _).length_le

theorem length_readPrecision (cs : List Char) : (readPrecision cs).2.length ≤ cs.length := by
  unfold readPrecision
  split
  · next rest =>
    have := length_readAmount (.fixed 0) rest
    simp only [List.length_cons]
    omega
  · simp

theorem length_dropSizeMark (cs : List Char) : (dropSizeMark cs).length ≤ cs.length := by
  unfold dropSizeMark
  split
  · split <;> simp
  · simp

theorem length_read (cs : List Char) : (read cs).2.length ≤ cs.length := by
  have h1 := length_readKey cs
  have h2 := (List.dropWhile_sublist (l := (readKey cs).2) isFlag).length_le
  have h3 := length_readAmount .unset ((readKey cs).2.dropWhile isFlag)
  have h4 := length_readPrecision (readAmount .unset ((readKey cs).2.dropWhile isFlag)).2
  have h5 := length_dropSizeMark
    (readPrecision (readAmount .unset ((readKey cs).2.dropWhile isFlag)).2).2
  simp only [read, List.length_tail]
  omega

end Slot

/-- Cuts a template into its pieces. -/
def pieces : List Char → List Piece
  | [] => []
  | '%' :: '%' :: rest => .literal '%' :: pieces rest
  | c :: rest =>
    if c = '%' then
      have := Slot.length_read rest
      .slot (Slot.read rest).1 :: pieces (Slot.read rest).2
    else .literal c :: pieces rest
termination_by cs => cs.length
decreasing_by all_goals simp only [List.length_cons]; omega

theorem pieces_eq_map_literal {cs : List Char} (h : '%' ∉ cs) : pieces cs = cs.map .literal := by
  induction cs with
  | nil => simp [pieces]
  | cons c rest ih =>
    have hc : c ≠ '%' := fun e => h (e ▸ List.mem_cons_self ..)
    have hr : '%' ∉ rest := fun hm => h (List.mem_cons_of_mem c hm)
    rw [pieces.eq_def]
    split
    · simp_all
    · simp_all
    · next heq =>
      obtain ⟨rfl, rfl⟩ := List.cons.inj heq
      simp [hc, ih hr]

end ResourceAccessors.Text
