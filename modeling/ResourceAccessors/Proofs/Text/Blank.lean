import ResourceAccessors.Text.Blank

/-! Texts that are trimmed. A trimmed text lies between the blanks that were taken from its ends, and
a text with no blank at its ends is left as it is. -/
namespace ResourceAccessors.Text
set_option autoImplicit false

variable {cs : List Char} {s : String}

/-- A text whose last character is no blank; the empty text is one. -/
def EndsUnblank (s : String) : Prop :=
  s.toList.getLast?.any isBlank = false

instance (s : String) : Decidable (EndsUnblank s) :=
  inferInstanceAs (Decidable (_ = false))

/-- A text whose first character is no blank; the empty text is one. -/
def StartsUnblank (s : String) : Prop :=
  s.toList.head?.any isBlank = false

instance (s : String) : Decidable (StartsUnblank s) :=
  inferInstanceAs (Decidable (_ = false))

theorem dropWhile_isBlank (h : cs.head?.any isBlank = false) : cs.dropWhile isBlank = cs := by
  cases cs with
  | nil => rfl
  | cons c cs =>
    have hc : isBlank c = false := h
    exact List.dropWhile_cons_of_neg (by simp [hc])

/-- Behind its first character a text only loses blanks, and none if it ends in no blank. -/
theorem exists_blanks (h : StartsUnblank s) :
    ∃ blanks, s.toList = (trim s).toList ++ blanks ∧ (∀ c ∈ blanks, isBlank c = true) ∧
      (blanks = [] ↔ EndsUnblank s) := by
  refine ⟨(s.toList.reverse.takeWhile isBlank).reverse, ?_, ?_, ?_⟩
  · rw [trim, String.toList_ofList, trimChars, dropWhile_isBlank h, ← List.reverse_append,
      List.takeWhile_append_dropWhile, List.reverse_reverse]
  · intro c hc
    exact List.all_eq_true.1 List.all_takeWhile c (List.mem_reverse.1 hc)
  · rw [List.reverse_eq_nil_iff, EndsUnblank, ← List.head?_reverse]
    cases s.toList.reverse with
    | nil => simp
    | cons c cs => cases hc : isBlank c <;> simp [hc]

theorem trim_eq_self (hstart : StartsUnblank s) (hend : EndsUnblank s) : trim s = s := by
  obtain ⟨blanks, hs, -, hempty⟩ := exists_blanks hstart
  rw [hempty.2 hend, List.append_nil] at hs
  exact (String.toList_injective hs).symm

end ResourceAccessors.Text
