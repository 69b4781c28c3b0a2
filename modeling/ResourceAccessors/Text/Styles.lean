/-! Terminal style sequences. A sequence is an escape character, an opening bracket, any number of
digits, semicolons and question marks, and a letter. What is printed to something that is no
terminal is printed without them. Main statement: a text without escape characters is not
changed. -/
namespace ResourceAccessors.Text
set_option autoImplicit false

def escape : Char := '\x1b'

/-- What may stand between the bracket and the letter of a sequence. -/
def isStyleParameter (c : Char) : Bool :=
  c.isDigit || c = ';' || c = '?'

/-- Whether a character goes on with the sequence that `held` begins, and does not end it. -/
def continuesStyle (held : List Char) (c : Char) : Bool :=
  match held with
  | [] => c = escape
  | [_] => c = '['
  | _ :: _ :: _ => isStyleParameter c

/-- Whether a character is the letter that ends the sequence that `held` begins. -/
def endsStyle (held : List Char) (c : Char) : Bool :=
  2 ≤ held.length && c.isAlpha

/-- Leaves out the sequences. `held` is the beginning of one, which is kept if no sequence comes
of it. -/
def dropStyles (held : List Char) : List Char → List Char
  | [] => held
  | c :: rest =>
    if continuesStyle held c then dropStyles (held ++ [c]) rest
    else if endsStyle held c then dropStyles [] rest
    else if c = escape then held ++ dropStyles [c] rest
    else held ++ c :: dropStyles [] rest

def withoutStyles (s : String) : String :=
  String.ofList (dropStyles [] s.toList)

theorem dropStyles_eq_self {cs : List Char} (h : escape ∉ cs) : dropStyles [] cs = cs := by
  induction cs with
  | nil => rfl
  | cons c rest ih =>
    have hc : c ≠ escape := fun e => h (e ▸ List.mem_cons_self ..)
    have hr : escape ∉ rest := fun hm => h (List.mem_cons_of_mem c hm)
    simp [dropStyles, continuesStyle, endsStyle, hc, ih hr]

end ResourceAccessors.Text
