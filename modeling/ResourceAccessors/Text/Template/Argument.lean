import ResourceAccessors.Number.Numeral
import ResourceAccessors.Text.Quoted

/-! What can be put into the slots of a message template, and how it is shown: a text by itself is
shown as it is, and quoted where quotes are asked for and inside a list or a record. -/
namespace ResourceAccessors.Text
set_option autoImplicit false

/-- An argument. The fields of a record are in the order in which they were given. -/
inductive Argument where
  | absent
  | flag (b : Bool)
  | integer (n : Int)
  | real (x : Double)
  | text (s : String)
  | list (items : List Argument)
  | record (fields : List (String × Argument))
  deriving Inhabited

namespace Argument

/-- The kind of an argument, as complaints name it. -/
def kind : Argument → String
  | absent => "NoneType"
  | flag _ => "bool"
  | integer _ => "int"
  | real _ => "float"
  | text _ => "str"
  | list _ => "list"
  | record _ => "dict"

mutual

def quoted : Argument → String
  | absent => "None"
  | flag b => if b then "True" else "False"
  | integer n => toString n
  | real x => x.text
  | text s => Text.quoted s
  | list items => "[" ++ ", ".intercalate (quotedItems items) ++ "]"
  | record fields => "\x7b" ++ ", ".intercalate (quotedFields fields) ++ "\x7d"

def quotedItems : List Argument → List String
  | [] => []
  | item :: rest => quoted item :: quotedItems rest

def quotedFields : List (String × Argument) → List String
  | [] => []
  | (name, value) :: rest => (Text.quoted name ++ ": " ++ quoted value) :: quotedFields rest

end

def shown : Argument → String
  | text s => s
  | a => a.quoted

/-- The quoted argument in ASCII characters only. -/
def escaped (a : Argument) : String :=
  String.join (a.quoted.toList.map fun c => if c.toNat < 128 then c.toString else codePointEscape c)

/-- The integer that an argument is; a flag counts as one. -/
def toInt? : Argument → Option Int
  | flag b => some (if b then 1 else 0)
  | integer n => some n
  | _ => none

end Argument

end ResourceAccessors.Text
