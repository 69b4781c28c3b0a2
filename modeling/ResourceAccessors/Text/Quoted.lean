import ResourceAccessors.Text.Printable

/-! Texts in quotation marks, as messages show them: the mark is the single quote unless the text
holds one and holds no double quote; the mark and the backslash are escaped by a backslash, and
characters that cannot be printed are written by name or by their code point. -/
namespace ResourceAccessors.Text
set_option autoImplicit false

/-- The number in lower-case hexadecimal with at least `width` digits. -/
def hexadecimal (width n : Nat) : String :=
  let digits := Nat.toDigits 16 n
  String.ofList (List.replicate (width - digits.length) '0' ++ digits)

/-- The code point of a character as an escape of two, four or eight digits. -/
def codePointEscape (c : Char) : String :=
  if c.toNat ≤ 0xff then "\\x" ++ hexadecimal 2 c.toNat
  else if c.toNat ≤ 0xffff then "\\u" ++ hexadecimal 4 c.toNat
  else "\\U" ++ hexadecimal 8 c.toNat

def quotationMark (s : String) : Char :=
  if s.toList.contains '\'' && !s.toList.contains '"' then '"' else '\''

def quotedChar (mark c : Char) : String :=
  if c = mark || c = '\\' then String.ofList ['\\', c]
  else if c = '\n' then "\\n"
  else if c = '\t' then "\\t"
  else if c = '\r' then "\\r"
  else if isPrintable c then String.ofList [c]
  else codePointEscape c

def quoted (s : String) : String :=
  let mark := quotationMark s
  let inner := String.join (s.toList.map (quotedChar mark))
  String.singleton mark ++ inner ++ String.singleton mark

end ResourceAccessors.Text
