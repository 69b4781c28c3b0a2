import ResourceAccessors.Pattern.Basic
import ResourceAccessors.Proofs.Pattern.Group

/-! What a pattern means: it is read as a list of elements, and it matches the names that can be cut
into pieces, one for each element. The matching by rows finds such a cut whenever there is one, and
on a pattern without wildcards it is equality. -/
namespace ResourceAccessors.Pattern
set_option autoImplicit false

/-! ## Elements -/

inductive Element where
  | star
  | anyChar
  | group (text : List Char)
  | char (c : Char)
  deriving DecidableEq

/-- The text of a closed group: after the exclamation mark, if there is one, at least one character,
of which only the first can be a closing bracket. -/
inductive IsGroupText : List Char → Prop
  | plain {c : Char} {more : List Char} : c ≠ '!' → ']' ∉ more → IsGroupText (c :: more)
  | negated {c : Char} {more : List Char} : ']' ∉ more → IsGroupText ('!' :: c :: more)

/-- How the characters of a pattern are read. An opening bracket that no group follows, and any
other character that is no wildcard, stands for itself. -/
inductive Reads : List Char → List Element → Prop
  | nil : Reads [] []
  | star {rest : List Char} {es : List Element} : Reads rest es → Reads ('*' :: rest) (.star :: es)
  | anyChar {rest : List Char} {es : List Element} :
      Reads rest es → Reads ('?' :: rest) (.anyChar :: es)
  | group {text rest : List Char} {es : List Element} : IsGroupText text → Reads rest es →
      Reads ('[' :: (text ++ ']' :: rest)) (.group text :: es)
  | unclosed {rest : List Char} {es : List Element} :
      (∀ text behind, IsGroupText text → rest ≠ text ++ ']' :: behind) → Reads rest es →
      Reads ('[' :: rest) (.char '[' :: es)
  | char {c : Char} {rest : List Char} {es : List Element} : c ≠ '*' → c ≠ '?' → c ≠ '[' →
      Reads rest es → Reads (c :: rest) (.char c :: es)

/-- The pieces of a name that an element can stand for. -/
def Element.Takes : Element → List Char → Prop
  | .star, _ => True
  | .anyChar, piece => ∃ c, piece = [c]
  | .group text, piece =>
    ∃ c, Group.holds c (Group.written text).2 ≠ (Group.written text).1 ∧ piece = [c]
  | .char c, piece => piece = [c]

/-- Whether a name can be cut into consecutive pieces, one for each element. -/
inductive Splits : List Element → List Char → Prop
  | nil : Splits [] []
  | cons {e : Element} {es : List Element} {piece rest : List Char} : e.Takes piece →
      Splits es rest → Splits (e :: es) (piece ++ rest)

def Element.token : Element → Token
  | .star => .star
  | .anyChar => .anyChar
  | .group text => .group (.ofChars text)
  | .char c => .char c

variable {cs text rest name : List Char} {e : Element} {es : List Element} {c : Char}

/-! ## Reading -/

theorem takeWhile_of_closing (h : ']' ∉ text) (rest : List Char) :
    (text ++ ']' :: rest).takeWhile (· ≠ ']') = text := by
  have hall : ∀ c ∈ text, decide (c ≠ ']') = true := by
    intro c hc
    exact decide_eq_true fun heq => h (heq ▸ hc)
  rw [List.takeWhile_append_of_pos hall]
  simp

theorem exists_closing (h : ']' ∈ cs) :
    ']' ∉ cs.takeWhile (· ≠ ']') ∧ ∃ rest, cs = cs.takeWhile (· ≠ ']') ++ ']' :: rest := by
  obtain ⟨text, rest, rfl, htext⟩ := List.eq_append_cons_of_mem h
  rw [takeWhile_of_closing htext]
  exact ⟨htext, rest, rfl⟩

theorem groupText?_plain (hc : c ≠ '!') (rest : List Char) :
    groupText? (c :: rest) =
      if rest.contains ']' then some (c :: rest.takeWhile (· ≠ ']')) else none := by
  by_cases hbracket : c = ']'
  · subst hbracket
    rfl
  · unfold groupText?
    split
    · next heq => exact absurd (List.cons.inj heq).1 hc
    · next heq => exact absurd (List.cons.inj heq).1 hc
    · next heq => exact absurd (List.cons.inj heq).1 hbracket
    · simp [hbracket, Ne.symm hbracket]

theorem groupText?_negated (c : Char) (rest : List Char) :
    groupText? ('!' :: c :: rest) =
      if rest.contains ']' then some ('!' :: c :: rest.takeWhile (· ≠ ']')) else none := by
  by_cases hbracket : c = ']'
  · subst hbracket
    rfl
  · unfold groupText?
    split
    · next heq => exact absurd (List.cons.inj (List.cons.inj heq).2).1 hbracket
    · simp [hbracket, Ne.symm hbracket]
    · next heq => exact absurd (List.cons.inj heq).1 (by decide)
    · next hplain _ => exact absurd rfl (hplain _)

theorem groupText?_of_isGroupText (h : IsGroupText text) (rest : List Char) :
    groupText? (text ++ ']' :: rest) = some text := by
  cases h with
  | plain hc hmore =>
    rw [List.cons_append, groupText?_plain hc, takeWhile_of_closing hmore, if_pos (by simp)]
  | negated hmore =>
    rw [List.cons_append, List.cons_append, groupText?_negated, takeWhile_of_closing hmore,
      if_pos (by simp)]

/-- The text of a group is found exactly where there is a closed group. -/
theorem groupText?_eq_some_iff :
    groupText? cs = some text ↔ IsGroupText text ∧ ∃ rest, cs = text ++ ']' :: rest := by
  constructor
  · intro h
    cases cs with
    | nil => simp [groupText?] at h
    | cons c cs =>
      by_cases hc : c = '!'
      · subst hc
        cases cs with
        | nil => simp [groupText?] at h
        | cons c cs =>
          rw [groupText?_negated, Option.ite_none_right_eq_some, Option.some.injEq] at h
          obtain ⟨hbracket, rfl⟩ := h
          obtain ⟨hmore, rest, hrest⟩ := exists_closing (List.contains_iff_mem.1 hbracket)
          exact ⟨.negated hmore, rest, congrArg ('!' :: c :: ·) hrest⟩
      · rw [groupText?_plain hc, Option.ite_none_right_eq_some, Option.some.injEq] at h
        obtain ⟨hbracket, rfl⟩ := h
        obtain ⟨hmore, rest, hrest⟩ := exists_closing (List.contains_iff_mem.1 hbracket)
        exact ⟨.plain hc hmore, rest, congrArg (c :: ·) hrest⟩
  · rintro ⟨htext, rest, rfl⟩
    exact groupText?_of_isGroupText htext rest

theorem tokensFrom_append (text rest : List Char) :
    tokensFrom text.length (text ++ rest) = tokensFrom 0 rest := by
  induction text with
  | nil => rfl
  | cons c text ih =>
    rw [List.cons_append, List.length_cons, tokensFrom, if_pos (Nat.succ_pos _),
      Nat.add_sub_cancel, ih]

theorem tokensFrom_closing (text rest : List Char) :
    tokensFrom (text.length + 1) (text ++ ']' :: rest) = tokensFrom 0 rest := by
  have happend : text ++ ']' :: rest = (text ++ [']']) ++ rest := by simp
  have hlength : text.length + 1 = (text ++ [']']).length := by simp
  rw [happend, hlength, tokensFrom_append]

theorem groupText?_eq_none_iff :
    groupText? cs = none ↔ ∀ text behind, IsGroupText text → cs ≠ text ++ ']' :: behind := by
  rw [Option.eq_none_iff_forall_ne_some]
  constructor
  · intro h text behind htext heq
    exact h text (groupText?_eq_some_iff.2 ⟨htext, behind, heq⟩)
  · intro h text htext
    obtain ⟨hgroup, behind, heq⟩ := groupText?_eq_some_iff.1 htext
    exact h text behind hgroup heq

/-- The tokens of a pattern are those of its elements. -/
theorem tokens_of_reads (h : Reads cs es) : tokensFrom 0 cs = es.map Element.token := by
  induction h with
  | nil => rfl
  | star _ ih =>
    simp [tokensFrom, ih, Element.token]
  | anyChar _ ih =>
    simp [tokensFrom, ih, Element.token]
  | @group text rest es htext _ ih =>
    have hgroup := groupText?_of_isGroupText htext rest
    simp [tokensFrom, hgroup, tokensFrom_closing, ih, Element.token]
  | unclosed hopen _ ih =>
    simp [tokensFrom, groupText?_eq_none_iff.2 hopen, ih, Element.token]
  | char h1 h2 h3 _ ih =>
    simp [tokensFrom, h1, h2, h3, ih, Element.token]

theorem exists_reads (cs : List Char) : ∃ es, Reads cs es := by
  induction hn : cs.length using Nat.strongRecOn generalizing cs with
  | ind n ih =>
    subst hn
    cases cs with
    | nil => exact ⟨[], .nil⟩
    | cons c rest =>
      obtain ⟨es, hes⟩ := ih rest.length (by simp) rest rfl
      by_cases h1 : c = '*'
      · subst h1
        exact ⟨_, .star hes⟩
      by_cases h2 : c = '?'
      · subst h2
        exact ⟨_, .anyChar hes⟩
      by_cases h3 : c = '['
      · subst h3
        cases hgroup : groupText? rest with
        | none => exact ⟨_, .unclosed (groupText?_eq_none_iff.1 hgroup) hes⟩
        | some text =>
          obtain ⟨htext, behind, rfl⟩ := groupText?_eq_some_iff.1 hgroup
          obtain ⟨es, hes⟩ := ih behind.length (by simp; omega) behind rfl
          exact ⟨_, .group htext hes⟩
      · exact ⟨_, .char h1 h2 h3 hes⟩

/-! ## Rows -/

/-- The row of a name behind some tokens. -/
def rowOf (ts : List Token) (name : List Char) : List Bool :=
  ts.foldr (tokenRow name) (endRow name)

variable {t : Token} {ts : List Token}

/-- The row of a name goes on as that of the name less its first character. -/
theorem rowOf_cons (ts : List Token) (c : Char) (name : List Char) :
    rowOf ts (c :: name) = matchesTokens ts (c :: name) :: rowOf ts name := by
  induction ts with
  | nil => rfl
  | cons t ts ih =>
    have hrow : ∀ name, rowOf (t :: ts) name = tokenRow name t (rowOf ts name) := fun _ => rfl
    have hhead : matchesTokens (t :: ts) (c :: name) =
        (tokenRow (c :: name) t (rowOf ts (c :: name))).headD false := rfl
    rw [hhead, hrow, hrow, ih]
    cases t <;> rfl

theorem rowOf_nil (ts : List Token) : rowOf ts [] = [matchesTokens ts []] := by
  induction ts with
  | nil => rfl
  | cons t ts ih =>
    have hrow : rowOf (t :: ts) [] = tokenRow [] t (rowOf ts []) := rfl
    have hhead : matchesTokens (t :: ts) [] = (tokenRow [] t (rowOf ts [])).headD false := rfl
    rw [hhead, hrow, ih]
    cases t <;> rfl

theorem matchesTokens_star_nil (ts : List Token) :
    matchesTokens (.star :: ts) [] = matchesTokens ts [] := by
  have h : matchesTokens (.star :: ts) [] = (starRow (rowOf ts [])).headD false := rfl
  rw [h, rowOf_nil]
  simp [starRow]

theorem matchesTokens_star_cons (ts : List Token) (c : Char) (name : List Char) :
    matchesTokens (.star :: ts) (c :: name) =
      (matchesTokens ts (c :: name) || matchesTokens (.star :: ts) name) := by
  have h : matchesTokens (.star :: ts) (c :: name) = (starRow (rowOf ts (c :: name))).headD false :=
    rfl
  rw [h, rowOf_cons]
  rfl

theorem matchesTokens_char_nil (ht : t ≠ .star) (ts : List Token) :
    matchesTokens (t :: ts) [] = false := by
  cases t with
  | star => exact absurd rfl ht
  | _ => rfl

theorem matchesTokens_char_cons (ht : t ≠ .star) (ts : List Token) (c : Char) (name : List Char) :
    matchesTokens (t :: ts) (c :: name) = (t.accepts c && matchesTokens ts name) := by
  have h : matchesTokens (t :: ts) (c :: name) =
      (tokenRow (c :: name) t (rowOf ts (c :: name))).headD false := rfl
  rw [h, rowOf_cons]
  cases t with
  | star => exact absurd rfl ht
  | _ => rfl

/-! ## Splits -/

theorem splits_nil_iff : Splits [] name ↔ name = [] := by
  constructor
  · intro h
    cases h
    rfl
  · rintro rfl
    exact .nil

theorem splits_cons_iff :
    Splits (e :: es) name ↔
      ∃ piece rest, name = piece ++ rest ∧ e.Takes piece ∧ Splits es rest := by
  constructor
  · intro h
    cases h with
    | cons htakes hrest => exact ⟨_, _, rfl, htakes, hrest⟩
  · rintro ⟨piece, rest, rfl, htakes, hrest⟩
    exact .cons htakes hrest

theorem splits_star_nil_iff : Splits (.star :: es) [] ↔ Splits es [] := by
  rw [splits_cons_iff]
  constructor
  · rintro ⟨piece, rest, hname, -, hrest⟩
    obtain ⟨-, rfl⟩ := List.append_eq_nil_iff.1 hname.symm
    exact hrest
  · intro h
    exact ⟨[], [], rfl, trivial, h⟩

/-- A star takes nothing, or the first character and whatever it takes of the others. -/
theorem splits_star_cons_iff :
    Splits (.star :: es) (c :: name) ↔ Splits es (c :: name) ∨ Splits (.star :: es) name := by
  constructor
  · intro h
    obtain ⟨piece, rest, hname, -, hrest⟩ := splits_cons_iff.1 h
    cases piece with
    | nil => exact .inl (hname ▸ hrest)
    | cons d piece =>
      obtain ⟨-, rfl⟩ := List.cons.inj hname
      exact .inr (splits_cons_iff.2 ⟨piece, rest, rfl, trivial, hrest⟩)
  · rintro (h | h)
    · exact splits_cons_iff.2 ⟨[], c :: name, rfl, trivial, h⟩
    · obtain ⟨piece, rest, rfl, -, hrest⟩ := splits_cons_iff.1 h
      exact splits_cons_iff.2 ⟨c :: piece, rest, rfl, trivial, hrest⟩

theorem takes_iff (he : e ≠ .star) {piece : List Char} :
    e.Takes piece ↔ ∃ c, e.token.accepts c = true ∧ piece = [c] := by
  cases e with
  | star => exact absurd rfl he
  | anyChar => simp [Element.Takes, Element.token, Token.accepts]
  | group text => simp [Element.Takes, Element.token, Token.accepts, Group.accepts_ofChars]
  | char d => simp [Element.Takes, Element.token, Token.accepts]

theorem not_splits_char_nil (he : e ≠ .star) : ¬ Splits (e :: es) [] := by
  rw [splits_cons_iff]
  rintro ⟨piece, rest, hname, htakes, -⟩
  obtain ⟨c, -, rfl⟩ := (takes_iff he).1 htakes
  simp at hname

theorem splits_char_cons_iff (he : e ≠ .star) :
    Splits (e :: es) (c :: name) ↔ e.token.accepts c = true ∧ Splits es name := by
  rw [splits_cons_iff]
  constructor
  · rintro ⟨piece, rest, hname, htakes, hrest⟩
    obtain ⟨d, haccepts, rfl⟩ := (takes_iff he).1 htakes
    obtain ⟨rfl, rfl⟩ := List.cons.inj hname
    exact ⟨haccepts, hrest⟩
  · rintro ⟨haccepts, hrest⟩
    exact ⟨[c], name, rfl, (takes_iff he).2 ⟨c, haccepts, rfl⟩, hrest⟩

theorem token_ne_star (he : e ≠ .star) : e.token ≠ .star := by
  cases e <;> simp_all [Element.token]

/-- The rows find a cut exactly if there is one. -/
theorem matchesTokens_iff (es : List Element) (name : List Char) :
    matchesTokens (es.map Element.token) name = true ↔ Splits es name := by
  induction es generalizing name with
  | nil =>
    rw [splits_nil_iff]
    cases name <;> simp [matchesTokens, endRow]
  | cons e es ih =>
    rw [List.map_cons]
    by_cases he : e = .star
    · subst he
      -- behind a star the recursion goes along the name
      induction name with
      | nil => rw [splits_star_nil_iff, ← ih, Element.token, matchesTokens_star_nil]
      | cons c name ihname =>
        rw [splits_star_cons_iff, ← ih, ← ihname, Element.token, matchesTokens_star_cons,
          Bool.or_eq_true]
    · have ht := token_ne_star he
      cases name with
      | nil => simp [matchesTokens_char_nil ht, not_splits_char_nil he]
      | cons c name =>
        rw [splits_char_cons_iff he, ← ih, matchesTokens_char_cons ht, Bool.and_eq_true]

/-! ## Patterns without wildcards -/

theorem reads_plain (h : cs.any (fun c => c = '*' || c = '?' || c = '[') = false) :
    Reads cs (cs.map .char) := by
  induction cs with
  | nil => exact .nil
  | cons c cs ih =>
    simp only [List.any_cons, Bool.or_eq_false_iff, decide_eq_false_iff_not] at h
    obtain ⟨⟨⟨h1, h2⟩, h3⟩, hrest⟩ := h
    exact .char h1 h2 h3 (ih hrest)

theorem splits_plain_iff : Splits (cs.map .char) name ↔ name = cs := by
  induction cs generalizing name with
  | nil => exact splits_nil_iff
  | cons c cs ih =>
    rw [List.map_cons, splits_cons_iff]
    simp [ih, Element.Takes]

variable {pattern : String}

theorem matchesTokens_tokens_iff (h : Reads pattern.toList es) (name : String) :
    matchesTokens (tokens pattern) name.toList = true ↔ Splits es name.toList := by
  rw [tokens, tokens_of_reads h, matchesTokens_iff]

theorem decide_eq_matchesTokens (h : hasWildcard pattern = false) (name : String) :
    decide (name = pattern) = matchesTokens (tokens pattern) name.toList := by
  rw [Bool.eq_iff_iff, decide_eq_true_eq, matchesTokens_tokens_iff (reads_plain h),
    splits_plain_iff, String.toList_inj]

theorem accepts_eq_matchesTokens (pattern name : String) :
    accepts pattern name = matchesTokens (tokens pattern) name.toList := by
  unfold accepts
  split
  · rfl
  · next h => exact decide_eq_matchesTokens (Bool.eq_false_iff.2 h) name

theorem accepts_iff_splits (pattern name : String) :
    accepts pattern name = true ↔ ∃ es, Reads pattern.toList es ∧ Splits es name.toList := by
  rw [accepts_eq_matchesTokens]
  constructor
  · intro h
    obtain ⟨es, hes⟩ := exists_reads pattern.toList
    exact ⟨es, hes, (matchesTokens_tokens_iff hes name).1 h⟩
  · rintro ⟨es, hes, hsplits⟩
    exact (matchesTokens_tokens_iff hes name).2 hsplits

/-- A name is accepted if one of the patterns can be cut along it, and for a pattern without
wildcards the comparison says what the matching would say. -/
theorem anyAccepts_iff_splits (patterns : List String) (name : String) :
    (anyAccepts patterns name = true ↔
      ∃ pattern ∈ patterns, ∃ es, Reads pattern.toList es ∧ Splits es name.toList) ∧
    ∀ pattern, hasWildcard pattern = false →
      accepts pattern name = decide (name = pattern) ∧
        decide (name = pattern) = matchesTokens (tokens pattern) name.toList := by
  constructor
  · simp only [anyAccepts, List.any_eq_true, accepts_iff_splits]
  · intro pattern hplain
    refine ⟨?_, decide_eq_matchesTokens hplain name⟩
    rw [accepts, hplain]
    rfl

/-- A group that starts with a closing bracket and holds a range from it on, behind a group that is
not closed, and a backslash in a pattern without wildcards. -/
theorem anyAccepts_iff_splits_bracket :
    hasWildcard "a\\]" = false ∧ anyAccepts ["[b", "?*[]-a]"] "x^" = true ∧
      matchesTokens (tokens "a\\]") "a\\]".toList = true := by
  have hplain : hasWildcard "a\\]" = false := by decide
  have hgroup : IsGroupText [']', '-', 'a'] := .plain (by decide) (by decide)
  have hreads : Reads "?*[]-a]".toList [.anyChar, .star, .group [']', '-', 'a']] :=
    .anyChar (.star (.group hgroup .nil))
  have hsplits : Splits [.anyChar, .star, .group [']', '-', 'a']] "x^".toList := by
    refine splits_cons_iff.2 ⟨['x'], ['^'], rfl, ⟨'x', rfl⟩, ?_⟩
    refine splits_cons_iff.2 ⟨[], ['^'], rfl, trivial, ?_⟩
    exact splits_cons_iff.2 ⟨['^'], [], rfl, ⟨'^', by decide, rfl⟩, .nil⟩
  refine ⟨hplain, ?_, ?_⟩
  · exact (anyAccepts_iff_splits _ "x^").1.2 ⟨_, by simp, _, hreads, hsplits⟩
  · rw [← ((anyAccepts_iff_splits [] "a\\]").2 _ hplain).2]
    decide

end ResourceAccessors.Pattern
