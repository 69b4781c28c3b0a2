/-! Cutting a text at every occurrence of one character. Main statements: putting the character
back between the segments gives the text again, and segments without it that are joined by it are
found again. -/
namespace ResourceAccessors.Text
set_option autoImplicit false

/-- The stretches between the occurrences of `sep`; there is always one more than occurrences. -/
def segments (sep : Char) : List Char → List (List Char)
  | [] => [[]]
  | c :: rest =>
    if c = sep then [] :: segments sep rest
    else
      match segments sep rest with
      | [] => [[c]]
      | s :: more => (c :: s) :: more

/-- The segments of a text, as texts. -/
def split (sep : Char) (s : String) : List String :=
  (segments sep s.toList).map String.ofList

theorem segments_ne_nil (sep : Char) (cs : List Char) : segments sep cs ≠ [] := by
  cases cs with
  | nil => simp [segments]
  | cons c rest =>
    simp only [segments]
    split
    · simp
    · split <;> simp

theorem intercalate_segments (sep : Char) (cs : List Char) :
    [sep].intercalate (segments sep cs) = cs := by
  induction cs with
  | nil => rfl
  | cons c rest ih =>
    simp only [segments]
    split
    · next h =>
      subst h
      obtain ⟨s, more, hs⟩ := List.exists_cons_of_ne_nil (segments_ne_nil c rest)
      rw [hs] at ih ⊢
      simp_all [List.intercalate, List.intersperse]
    · split
      · next hs => exact absurd hs (segments_ne_nil sep rest)
      · next s more hs =>
        rw [hs] at ih
        cases more with
        | nil => simp_all [List.intercalate]
        | cons t more => simp_all [List.intercalate]

theorem segments_of_not_mem {sep : Char} {cs : List Char} (h : sep ∉ cs) : segments sep cs = [cs] := by
  induction cs with
  | nil => rfl
  | cons c rest ih =>
    rw [List.mem_cons, not_or] at h
    simp only [segments, if_neg (Ne.symm h.1), ih h.2]

theorem not_mem_of_mem_segments {sep : Char} {cs s : List Char} (h : s ∈ segments sep cs) :
    sep ∉ s := by
  induction cs generalizing s with
  | nil => simp_all [segments]
  | cons c rest ih =>
    simp only [segments] at h
    split at h
    · rcases List.mem_cons.1 h with rfl | hm
      · simp
      · exact ih hm
    · next hc =>
      split at h
      · next hs => exact absurd hs (segments_ne_nil sep rest)
      · next t more hs =>
        rcases List.mem_cons.1 h with rfl | hm
        · have ht := ih (hs ▸ List.mem_cons_self ..)
          simp [ht, Ne.symm hc]
        · exact ih (hs ▸ List.mem_cons_of_mem t hm)

theorem segments_append_cons {sep : Char} {cs : List Char} (h : sep ∉ cs) (rest : List Char) :
    segments sep (cs ++ sep :: rest) = cs :: segments sep rest := by
  induction cs with
  | nil => simp [segments]
  | cons c cs ih =>
    rw [List.mem_cons, not_or] at h
    simp only [List.cons_append, segments, if_neg (Ne.symm h.1), ih h.2]

/-- Segments that do not hold the character are found again. -/
theorem segments_intercalate {sep : Char} {pieces : List (List Char)} (hne : pieces ≠ [])
    (h : ∀ piece ∈ pieces, sep ∉ piece) : segments sep ([sep].intercalate pieces) = pieces := by
  induction pieces with
  | nil => exact absurd rfl hne
  | cons piece pieces ih =>
    have hpiece := h piece (List.mem_cons_self ..)
    cases pieces with
    | nil => simpa using segments_of_not_mem hpiece
    | cons next more =>
      have hmore := ih (by simp) fun q hq => h q (List.mem_cons_of_mem _ hq)
      rw [List.intercalate_cons_cons, List.append_assoc, List.singleton_append,
        segments_append_cons hpiece, hmore]

end ResourceAccessors.Text
