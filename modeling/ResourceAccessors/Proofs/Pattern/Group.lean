import ResourceAccessors.Pattern.Group

/-! What a bracket group accepts. Its chunks, with a hyphen between any two, are the written form of
a set of characters, which is read from left to right: a character, a hyphen and a character are a
range, and anything else stands for itself. A group accepts what that set holds, or what it does
not.

The reading comes to the ranges between neighbouring chunks because every chunk between two others
has two characters at least, so that no character is an end of two ranges. -/
namespace ResourceAccessors.Pattern
set_option autoImplicit false

/-- A mark in the written form of a set: a character, or a hyphen between two chunks. -/
inductive Mark where
  | literal (c : Char)
  | hyphen
  deriving DecidableEq

namespace Group

/-! ## Written sets -/

def marks (chunks : List (List Char)) : List Mark :=
  [Mark.hyphen].intercalate (chunks.map fun chunk => chunk.map Mark.literal)

/-- Whether a written set holds a character. A hyphen that makes no range is one of its
characters. -/
def holds (c : Char) : List Mark → Bool
  | .literal low :: .hyphen :: .literal high :: rest => low ≤ c && c ≤ high || holds c rest
  | .literal d :: rest => c = d || holds c rest
  | .hyphen :: rest => c = '-' || holds c rest
  | [] => false

/-- The chunks of a group's text that are left once its empty ranges are dropped. -/
def chunksOf (text : List Char) : List (List Char) :=
  dropEmptyRanges (cut [] (if text.head? = some '!' then 2 else 1) text)

/-- The written set of a group, and whether the group accepts what it does not hold. -/
def written (text : List Char) : Bool × List Mark :=
  match chunksOf text with
  | ('!' :: chunk) :: more => (true, marks (chunk :: more))
  | chunks => (false, marks chunks)

variable {c low high : Char} {chunk first pre : List Char} {more chunks : List (List Char)}

theorem marks_singleton (chunk : List Char) : marks [chunk] = chunk.map .literal := by
  simp [marks]

theorem marks_cons_cons (chunk next : List Char) (more : List (List Char)) :
    marks (chunk :: next :: more) = chunk.map .literal ++ .hyphen :: marks (next :: more) := by
  simp [marks, List.intercalate_cons_cons]

theorem marks_cons_head (high : Char) (tail : List Char) (more : List (List Char)) :
    marks ((high :: tail) :: more) = .literal high :: marks (tail :: more) := by
  cases more with
  | nil => simp [marks_singleton]
  | cons next more => simp [marks_cons_cons]

theorem holds_literal_literal (c d e : Char) (rest : List Mark) :
    holds c (.literal d :: .literal e :: rest) = (c = d || holds c (.literal e :: rest)) := by
  rw [holds]
  simp

theorem holds_literals (c : Char) (chunk : List Char) :
    holds c (chunk.map .literal) = chunk.contains c := by
  induction chunk with
  | nil => rfl
  | cons d chunk ih =>
    cases chunk with
    | nil => simp [holds]
    | cons e chunk =>
      rw [List.map_cons, List.map_cons, holds_literal_literal, ← List.map_cons, ih]
      simp

/-- The characters in front of a range stand for themselves. -/
theorem holds_range (c low high : Char) (pre : List Char) (rest : List Mark) :
    holds c ((pre ++ [low]).map .literal ++ .hyphen :: .literal high :: rest) =
      (pre.contains c || (low ≤ c && c ≤ high || holds c rest)) := by
  induction pre with
  | nil => rfl
  | cons d pre ih =>
    cases pre with
    | nil =>
      rw [← Bool.or_assoc] at ih
      simp only [List.nil_append, List.cons_append, List.map_cons, List.map_nil] at ih ⊢
      rw [holds_literal_literal, ih]
      simp
    | cons e pre =>
      simp only [List.cons_append, List.map_cons] at ih ⊢
      rw [holds_literal_literal, ih]
      simp [Bool.or_assoc]

/-! ## Chunks -/

/-- The chunks behind the first: none is empty, and one with another behind it has two characters
at least. -/
def Behind : List (List Char) → Prop
  | [] => True
  | [chunk] => chunk ≠ []
  | chunk :: next :: more => 2 ≤ chunk.length ∧ Behind (next :: more)

/-- No range between neighbours is empty. -/
def Ordered : List (List Char) → Prop
  | chunk :: next :: more =>
    (∀ low ∈ chunk.getLast?, ∀ high ∈ next.head?, low ≤ high) ∧ Ordered (next :: more)
  | _ => True

theorem Behind.ne_nil (h : Behind (chunk :: more)) : chunk ≠ [] := by
  cases more with
  | nil => exact h
  | cons next more =>
    intro hempty
    have hsize := h.1
    simp [hempty] at hsize

theorem Behind.tail (h : Behind (chunk :: more)) : Behind more := by
  cases more with
  | nil => trivial
  | cons next more => exact h.2

/-- Cutting leaves the first chunk as long as it has to be, and fit chunks behind it. -/
theorem exists_cut (chunk : List Char) (skip : Nat) (text : List Char)
    (h : 0 < skip ∨ chunk ≠ []) :
    ∃ first more, cut chunk skip text = first :: more ∧ Behind more ∧
      (more ≠ [] → chunk.length + skip ≤ first.length) ∧
      (chunk ≠ [] ∨ text ≠ [] → first ≠ []) := by
  fun_induction cut chunk skip text with
  | case1 chunk skip =>
    refine ⟨chunk.reverse, [], rfl, trivial, by simp, by simp⟩
  | case2 chunk skip =>
    refine ⟨('-' :: chunk).reverse, [], rfl, trivial, by simp, by simp⟩
  | case3 chunk skip c rest hlast hcut ih =>
    simp only [Bool.and_eq_true, decide_eq_true_eq] at hcut
    obtain ⟨rfl, rfl⟩ := hcut
    have hchunk : chunk ≠ [] := h.resolve_left (Nat.lt_irrefl 0)
    obtain ⟨first, more, heq, hbehind, hsize, hne⟩ := ih (.inl (by omega))
    refine ⟨chunk.reverse, first :: more, by rw [heq], ?_, by simp, by simpa using hchunk⟩
    cases more with
    | nil => exact hne (.inr fun hrest => hlast rfl hrest)
    | cons next more =>
      have hlong := hsize (by simp)
      exact ⟨by simpa using hlong, hbehind⟩
  | case4 chunk skip c rest hlast hcut ih =>
    obtain ⟨first, more, heq, hbehind, hsize, hne⟩ := ih (.inr (by simp))
    refine ⟨first, more, heq, hbehind, fun hmore => ?_, fun _ => hne (.inl (by simp))⟩
    have hlong := hsize hmore
    rw [List.length_cons] at hlong
    omega

/-- What becomes of a chunk and those behind it when the empty ranges are dropped. Each range that is
dropped takes one character of the chunk before it, and a chunk that stays between two others gets
at least as many from the chunk that is merged into it. -/
structure Dropped (first : List Char) (more : List (List Char)) (kept : List Char)
    (behind : List (List Char)) : Prop where
  fit : Behind behind
  ordered : Ordered (kept :: behind)
  alone : more = [] → kept = first ∧ behind = []
  size_le : first.length ≤ kept.length + 1
  size_le_of_ne : behind ≠ [] → first.length ≤ kept.length

theorem Dropped.behind_cons {kept : List Char} {behind : List (List Char)}
    (h : Dropped first more kept behind) (hfirst : Behind (first :: more)) :
    Behind (kept :: behind) := by
  cases more with
  | nil =>
    obtain ⟨rfl, rfl⟩ := h.alone rfl
    exact hfirst
  | cons next more =>
    have hsize := hfirst.1
    have hle := h.size_le
    cases behind with
    | nil =>
      rintro rfl
      simp at hle
      omega
    | cons other behind => exact ⟨Nat.le_trans hsize (h.size_le_of_ne (by simp)), h.fit⟩

theorem getLast?_append_tail {tail : List Char} (h : 2 ≤ (high :: tail).length) :
    (pre ++ tail).getLast? = (high :: tail).getLast? := by
  cases tail with
  | nil => simp at h
  | cons d tail =>
    rw [List.getLast?_append, List.getLast?_cons_cons, List.getLast?_cons, Option.some_or]

theorem Ordered.merge {tail : List Char} (h : Ordered ((high :: tail) :: chunks))
    (hsize : chunks ≠ [] → 2 ≤ (high :: tail).length) : Ordered ((pre ++ tail) :: chunks) := by
  cases chunks with
  | nil => trivial
  | cons next chunks =>
    refine ⟨?_, h.2⟩
    rw [getLast?_append_tail (hsize (by simp))]
    exact h.1

theorem exists_dropped (h : Behind more) (hfirst : more ≠ [] → first ≠ []) :
    ∃ kept behind, dropEmptyRanges (first :: more) = kept :: behind ∧
      Dropped first more kept behind := by
  induction more generalizing first with
  | nil => exact ⟨first, [], rfl, trivial, trivial, fun _ => ⟨rfl, rfl⟩, by omega, by simp⟩
  | cons next more ih =>
    obtain ⟨kept, behind, heq, hdropped⟩ := ih h.tail fun hmore => by
      exact h.ne_nil
    have hbehind := hdropped.behind_cons h
    obtain ⟨high, tail, rfl⟩ := List.exists_cons_of_ne_nil hbehind.ne_nil
    obtain ⟨pre, low, rfl⟩ : ∃ pre low, first = pre ++ [low] :=
      ⟨_, _, (List.dropLast_concat_getLast (hfirst (by simp))).symm⟩
    have hdrop : dropEmptyRanges ((pre ++ [low]) :: next :: more) =
        if high < low then (pre ++ tail) :: behind else (pre ++ [low]) :: (high :: tail) :: behind := by
      rw [dropEmptyRanges, heq]
      simp
    have hlong : behind ≠ [] → 2 ≤ (high :: tail).length := by
      intro hne
      obtain ⟨other, behind, rfl⟩ := List.exists_cons_of_ne_nil hne
      exact hbehind.1
    by_cases hlt : high < low
    · refine ⟨_, _, hdrop.trans (if_pos hlt), hdropped.fit, hdropped.ordered.merge hlong, by simp, ?_,
        fun hne => ?_⟩
      · simp
      · have hsize := hlong hne
        simp at hsize ⊢
        omega
    · refine ⟨_, _, hdrop.trans (if_neg hlt), hbehind, ⟨?_, hdropped.ordered⟩, by simp, by simp,
        by simp⟩
      simpa using hlt

/-! ## Reading the chunks that are left -/

theorem Behind.tail_ne_nil {d : Char} (h : Behind ((d :: chunk) :: more)) (hmore : more ≠ []) :
    chunk ≠ [] := by
  obtain ⟨next, more, rfl⟩ := List.exists_cons_of_ne_nil hmore
  have hsize := h.1
  rintro rfl
  simp at hsize

theorem Ordered.uncons {d : Char} (h : Ordered ((d :: chunk) :: more)) : Ordered (chunk :: more) := by
  cases more with
  | nil => trivial
  | cons next more =>
    refine ⟨fun low hlow => ?_, h.2⟩
    cases chunk with
    | nil => simp at hlow
    | cons e chunk =>
      rw [← @List.getLast?_cons_cons _ d] at hlow
      exact h.1 low hlow

theorem rangesBetween_head {d : Char} (h : more ≠ [] → chunk ≠ []) :
    rangesBetween ((d :: chunk) :: more) = rangesBetween (chunk :: more) := by
  cases more with
  | nil => rfl
  | cons next more =>
    obtain ⟨e, chunk, rfl⟩ := List.exists_cons_of_ne_nil (h (by simp))
    rw [rangesBetween, rangesBetween, List.getLast?_cons_cons]

theorem rangesBetween_low_high (pre : List Char) (low high : Char) (tail : List Char)
    (more : List (List Char)) :
    rangesBetween ((pre ++ [low]) :: (high :: tail) :: more) =
      (low, high) :: rangesBetween ((high :: tail) :: more) := by
  rw [rangesBetween]
  simp

/-- Read from left to right, the chunks are their characters and the ranges between them. The ends
of a range are in it, so that they need not be told from the other characters. -/
theorem holds_marks (h : Behind more) (hfirst : more ≠ [] → first ≠ [])
    (hordered : Ordered (first :: more)) (c : Char) :
    holds c (marks (first :: more)) =
      ((first :: more).flatten.contains c ||
        (rangesBetween (first :: more)).any fun r => r.1 ≤ c && c ≤ r.2) := by
  induction more generalizing first with
  | nil => simp [marks_singleton, holds_literals, rangesBetween]
  | cons next more ih =>
    obtain ⟨high, tail, rfl⟩ := List.exists_cons_of_ne_nil h.ne_nil
    obtain ⟨pre, low, rfl⟩ : ∃ pre low, first = pre ++ [low] :=
      ⟨_, _, (List.dropLast_concat_getLast (hfirst (by simp))).symm⟩
    have htail : more ≠ [] → tail ≠ [] := h.tail_ne_nil
    have hle : low ≤ high := by simpa using hordered.1
    rw [marks_cons_cons, marks_cons_head, holds_range, ih h.tail htail hordered.2.uncons,
      rangesBetween_low_high, rangesBetween_head htail, Bool.eq_iff_iff]
    simp only [List.contains_eq_mem, List.flatten_cons, List.mem_append, List.mem_cons,
      Bool.or_eq_true, Bool.and_eq_true, decide_eq_true_eq, List.any_cons]
    grind

/-- With no character in front of it the first hyphen makes no range. -/
theorem holds_membersOf (h : Behind more) (hordered : Ordered (first :: more)) (c : Char) :
    holds c (marks (first :: more)) =
      ((membersOf (first :: more)).contains c ||
        (rangesBetween (first :: more)).any fun r => r.1 ≤ c && c ≤ r.2) := by
  cases first with
  | cons d first => exact holds_marks h (by simp) hordered c
  | nil =>
    cases more with
    | nil => rfl
    | cons next more =>
      have hnext := holds_marks h.tail (fun _ => h.ne_nil) hordered.2 c
      rw [marks_cons_cons, List.map_nil, List.nil_append, holds, hnext]
      simp [membersOf, rangesBetween, Bool.or_assoc]

theorem exists_chunksOf (text : List Char) :
    ∃ kept behind, chunksOf text = kept :: behind ∧ Behind behind ∧ Ordered (kept :: behind) := by
  have hskip : 0 < if text.head? = some '!' then 2 else 1 := by split <;> omega
  obtain ⟨first, more, hcut, hmore, hsize, -⟩ := exists_cut [] _ text (.inl hskip)
  have hfirst : more ≠ [] → first ≠ [] := by
    rintro hne rfl
    have hle := hsize hne
    rw [List.length_nil] at hle
    omega
  obtain ⟨kept, behind, hdrop, hdropped⟩ := exists_dropped hmore hfirst
  exact ⟨kept, behind, by rw [chunksOf, hcut, hdrop], hdropped.fit, hdropped.ordered⟩

theorem ofChars_eq (text : List Char) :
    ofChars text =
      match chunksOf text with
      | ('!' :: chunk) :: more => ⟨true, membersOf (chunk :: more), rangesBetween (chunk :: more)⟩
      | chunks => ⟨false, membersOf chunks, rangesBetween chunks⟩ := rfl

/-- A group accepts what its written set holds, or with an exclamation mark in front what that does
not hold. -/
theorem accepts_ofChars (text : List Char) (c : Char) :
    (ofChars text).accepts c = (holds c (written text).2 != (written text).1) := by
  obtain ⟨kept, behind, heq, hfit, hordered⟩ := exists_chunksOf text
  rw [ofChars_eq, written, heq]
  split
  · next chunk more hnegated =>
    obtain ⟨rfl, rfl⟩ := List.cons.inj hnegated
    rw [accepts, holds_membersOf hfit hordered.uncons]
  · rw [accepts, holds_membersOf hfit hordered]

end Group

end ResourceAccessors.Pattern
