import ResourceAccessors.Pattern.Group

/-! File name patterns. A star stands for any text, a question mark for any character, a closed
bracket group for one character that the group accepts, and any other character for itself. -/
namespace ResourceAccessors.Pattern
set_option autoImplicit false

inductive Token where
  | star
  | anyChar
  | group (g : Group)
  | char (c : Char)
  deriving DecidableEq

/-! ## Tokens -/

/-- The text of a group, read from behind the opening bracket to the closing one. A closing bracket
right behind the opening one, or behind an exclamation mark there, is part of the text. -/
def groupText? (cs : List Char) : Option (List Char) :=
  let lead :=
    match cs with
    | '!' :: ']' :: _ => 2
    | '!' :: _ => 1
    | ']' :: _ => 1
    | _ => 0
  let rest := cs.drop lead
  if rest.contains ']' then some (cs.take lead ++ rest.takeWhile (· ≠ ']')) else none

/-- The tokens of a pattern, its first `skip` characters left out. -/
def tokensFrom (skip : Nat) : List Char → List Token
  | [] => []
  | c :: rest =>
    if 0 < skip then tokensFrom (skip - 1) rest
    else if c = '*' then .star :: tokensFrom 0 rest
    else if c = '?' then .anyChar :: tokensFrom 0 rest
    else if c = '[' then
      match groupText? rest with
      | some text => .group (.ofChars text) :: tokensFrom (text.length + 1) rest
      | none => .char '[' :: tokensFrom 0 rest
    else .char c :: tokensFrom 0 rest

def tokens (pattern : String) : List Token :=
  tokensFrom 0 pattern.toList

/-! ## Matching

The matching goes from the last token to the first. For the tokens behind, a row says of every
ending of the name, from the name itself to the empty one, whether they match it. -/

/-- Whether a token that stands for one character accepts it. -/
def Token.accepts : Token → Char → Bool
  | .star, _ => false
  | .anyChar, _ => true
  | .group g, c => g.accepts c
  | .char d, c => c = d

/-- An ending matches behind a star if it or a shorter one matches. -/
def starRow : List Bool → List Bool
  | [] => []
  | b :: row =>
    let shorter := starRow row
    (b || shorter.headD false) :: shorter

/-- An ending matches behind a token for one character if that accepts its first character and the
ending less that character matches. -/
def charRow (accept : Char → Bool) : List Char → List Bool → List Bool
  | c :: rest, _ :: row => (accept c && row.headD false) :: charRow accept rest row
  | _, _ => [false]

def tokenRow (name : List Char) (t : Token) (row : List Bool) : List Bool :=
  match t with
  | .star => starRow row
  | t => charRow t.accepts name row

/-- Only the empty ending is matched by no tokens. -/
def endRow (name : List Char) : List Bool :=
  name.map (fun _ => false) ++ [true]

def matchesTokens (ts : List Token) (name : List Char) : Bool :=
  (ts.foldr (tokenRow name) (endRow name)).headD false

def hasWildcard (pattern : String) : Bool :=
  pattern.toList.any fun c => c = '*' || c = '?' || c = '['

/-- A pattern without wildcards is compared as it is. -/
def accepts (pattern name : String) : Bool :=
  if hasWildcard pattern then matchesTokens (tokens pattern) name.toList else name = pattern

def anyAccepts (patterns : List String) (name : String) : Bool :=
  patterns.any fun pattern => accepts pattern name

end ResourceAccessors.Pattern
