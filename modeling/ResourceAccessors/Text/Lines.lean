/-! The lines of a text. A line ends at a line feed, a carriage return, both in a row, a vertical
tab, a form feed, one of the separators U+001C to U+001E, a next-line character, a line separator
or a paragraph separator. What ends a line is not part of it, and behind the last end there is no
further line. Main statement: no line holds a line end. -/
namespace ResourceAccessors.Text
set_option autoImplicit false

def isLineEnd (c : Char) : Bool :=
  ('\n' ≤ c && c ≤ '\r') || ('\x1c' ≤ c && c ≤ '\x1e') || c = '\x85' || c = '\u2028' || c = '\u2029'

/-- Puts a character in front of the first line. -/
def addToFirst (c : Char) : List (List Char) → List (List Char)
  | [] => [[c]]
  | line :: more => (c :: line) :: more

def linesOf : List Char → List (List Char)
  | [] => []
  | '\r' :: '\n' :: rest => [] :: linesOf rest
  | c :: rest => if isLineEnd c then [] :: linesOf rest else addToFirst c (linesOf rest)

/-- The lines of a stream to which texts are written one after another, each with a line feed
behind it. -/
def streamLines (texts : List String) : List String :=
  (linesOf (texts.flatMap fun s => s.toList ++ ['\n'])).map String.ofList

theorem not_isLineEnd_of_mem_linesOf {cs line : List Char} {c : Char} (hl : line ∈ linesOf cs)
    (hc : c ∈ line) : isLineEnd c = false := by
  fun_induction linesOf cs generalizing line with
  | case1 => simp at hl
  | case2 rest ih =>
    rcases List.mem_cons.1 hl with rfl | hm
    · simp at hc
    · exact ih hm hc
  | case3 d rest _ _ ih =>
    rcases List.mem_cons.1 hl with rfl | hm
    · simp at hc
    · exact ih hm hc
  | case4 d rest _ hd ih =>
    have hd' : isLineEnd d = false := by simpa using hd
    cases hlines : linesOf rest with
    | nil =>
      simp only [addToFirst, hlines, List.mem_singleton] at hl
      subst hl
      rwa [List.mem_singleton.1 hc]
    | cons first more =>
      simp only [addToFirst, hlines, List.mem_cons] at hl
      rcases hl with rfl | hm
      · rcases List.mem_cons.1 hc with rfl | hf
        · exact hd'
        · exact ih (hlines ▸ List.mem_cons_self ..) hf
      · exact ih (hlines ▸ List.mem_cons_of_mem first hm) hc

end ResourceAccessors.Text
