/-! Bracket groups of file name patterns: the text between the brackets and the characters it
accepts.

The text is cut into chunks at the hyphens that can stand for a range; the last character of a chunk
and the first of the next are the ends of the range. A chunk that a hyphen follows is at least one
character long, and every chunk after the first of these at least two, so that a hyphen next to one
that makes a range, or at either end of the text, is an ordinary character. A range whose ends are
in the wrong order is dropped together with its ends. -/
namespace ResourceAccessors.Pattern
set_option autoImplicit false

structure Group where
  negated : Bool
  members : List Char
  ranges : List (Char × Char)
  deriving DecidableEq

namespace Group

def accepts (g : Group) (c : Char) : Bool :=
  (g.members.contains c || g.ranges.any fun r => r.1 ≤ c && c ≤ r.2) != g.negated

/-- Cuts at hyphens, the first `skip` characters left alone; `chunk` is what has been read since the
last cut, backwards. -/
def cut (chunk : List Char) (skip : Nat) : List Char → List (List Char)
  | [] => [chunk.reverse]
  | ['-'] => [('-' :: chunk).reverse]
  | c :: rest =>
    if skip = 0 && c = '-' then chunk.reverse :: cut [] 2 rest
    else cut (c :: chunk) (skip - 1) rest

/-- Drops the ranges in the wrong order, from the last to the first. -/
def dropEmptyRanges : List (List Char) → List (List Char)
  | [] => []
  | chunk :: rest =>
    match dropEmptyRanges rest with
    | [] => [chunk]
    | next :: more =>
      match chunk.getLast?, next.head? with
      | some low, some high =>
        if high < low then (chunk.dropLast ++ next.tail) :: more else chunk :: next :: more
      | _, _ => chunk :: next :: more

/-- The ranges between neighbouring chunks. -/
def rangesBetween : List (List Char) → List (Char × Char)
  | chunk :: next :: more =>
    let here :=
      match chunk.getLast?, next.head? with
      | some low, some high => [(low, high)]
      | _, _ => []
    here ++ rangesBetween (next :: more)
  | _ => []

/-- The characters of the chunks. A hyphen with nothing before it is one of them. -/
def membersOf (chunks : List (List Char)) : List Char :=
  match chunks with
  | [] :: _ :: _ => '-' :: chunks.flatten
  | _ => chunks.flatten

/-- A group whose text starts with an exclamation mark once its empty ranges are gone accepts what
the rest of the text does not. -/
def ofChars (text : List Char) : Group :=
  let skip := if text.head? = some '!' then 2 else 1
  match dropEmptyRanges (cut [] skip text) with
  | ('!' :: chunk) :: more => ⟨true, membersOf (chunk :: more), rangesBetween (chunk :: more)⟩
  | chunks => ⟨false, membersOf chunks, rangesBetween chunks⟩

end Group

end ResourceAccessors.Pattern
