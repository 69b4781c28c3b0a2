import ResourceAccessors.Text.Segments

/-! Slash-separated paths. A path is an anchor and a list of names; its text form has no empty and
no `.` name, keeps `..`, and distinguishes a root of exactly two slashes from the usual one. -/
namespace ResourceAccessors
set_option autoImplicit false

/-- Where a path starts: at the working directory, at the root, or at the root written with two
slashes, which is a root of its own spelling. -/
inductive Anchor where
  | relative
  | root
  | doubleRoot
  deriving DecidableEq

structure Path where
  anchor : Anchor
  names : List String
  deriving DecidableEq

namespace Anchor

def text : Anchor → String
  | relative => ""
  | root => "/"
  | doubleRoot => "//"

/-- Three or more slashes count as one. -/
def ofChars : List Char → Anchor
  | '/' :: '/' :: '/' :: _ => root
  | '/' :: '/' :: _ => doubleRoot
  | '/' :: _ => root
  | _ => relative

end Anchor

namespace Path

/-- What can stand between two slashes and name an entry of a directory. -/
def isEntryName (s : String) : Bool :=
  s ≠ "" && s ≠ "." && s ≠ ".." && !s.toList.contains '/'

/-- A segment that a path keeps. -/
def isKept (s : String) : Bool :=
  s ≠ "" && s ≠ "."

def ofString (s : String) : Path where
  anchor := Anchor.ofChars s.toList
  names := (Text.split '/' s).filter isKept

/-- The path of the directory it is read from. -/
def here : Path := ⟨.relative, []⟩

protected def toString (p : Path) : String :=
  let inner := "/".intercalate p.names
  if p.anchor = .relative && p.names.isEmpty then "." else p.anchor.text ++ inner

instance : ToString Path := ⟨Path.toString⟩

def isAbsolute (p : Path) : Bool :=
  p.anchor ≠ .relative

/-- The second path as seen from the first; an absolute one forgets where it is seen from. -/
def join (p q : Path) : Path :=
  if q.isAbsolute then q else ⟨p.anchor, p.names ++ q.names⟩

instance : Append Path := ⟨join⟩

/-- The path without its last name; a path without names is its own parent. -/
def parent (p : Path) : Path :=
  ⟨p.anchor, p.names.dropLast⟩

/-- The path of the first `n` names. -/
def take (p : Path) (n : Nat) : Path :=
  ⟨p.anchor, p.names.take n⟩

/-- The last name, empty if there is none. -/
def name (p : Path) : String :=
  p.names.getLastD ""

/-- Splits a name before its last dot, if that dot is neither its first nor its last character. -/
def splitSuffix (s : String) : String × String :=
  let cs := s.toList
  let ending := (cs.reverse.takeWhile (· ≠ '.')).reverse
  let stem := cs.take (cs.length - ending.length - 1)
  if cs.contains '.' && !stem.isEmpty && !ending.isEmpty then
    (String.ofList stem, String.ofList ('.' :: ending))
  else (s, "")

def stem (p : Path) : String :=
  (splitSuffix p.name).1

def suffix (p : Path) : String :=
  (splitSuffix p.name).2

/-! ## Lexical normal form -/

/-- One step of reading names from left to right: `..` takes back the last name kept, and is
dropped where there is none. -/
def stepLexically (kept : List String) (name : String) : List String :=
  if name = ".." then kept.dropLast else kept ++ [name]

/-- The names an absolute path comes to when `..` is read without looking at the files. -/
def lexicalNames (names : List String) : List String :=
  names.foldl stepLexically []

def lexicallyNormal (p : Path) : Path :=
  ⟨p.anchor, lexicalNames p.names⟩

/-- The path one name further. `..` takes back the last name; where there is none to take back, a
relative path climbs and a root stays. -/
def advance (p : Path) (name : String) : Path :=
  if name ≠ ".." then ⟨p.anchor, p.names ++ [name]⟩
  else
    match p.names.getLast? with
    | none | some ".." => if p.isAbsolute then p else ⟨p.anchor, p.names ++ [".."]⟩
    | some _ => p.parent

theorem dotdot_not_mem_foldl {names kept : List String} (h : ".." ∉ kept) :
    ".." ∉ names.foldl stepLexically kept := by
  induction names generalizing kept with
  | nil => simpa using h
  | cons n names ih =>
    refine ih ?_
    simp only [stepLexically]
    split
    · exact fun hm => h (List.dropLast_subset kept hm)
    · simp_all [eq_comm]

theorem dotdot_not_mem_lexicalNames (names : List String) : ".." ∉ lexicalNames names :=
  dotdot_not_mem_foldl (by simp)

end Path

end ResourceAccessors
