import ResourceAccessors.Path

/-! What the text of a path holds. A NUL character is in it exactly if it is in one of its names,
and the text has as many bytes as its anchor and its names with the separators between them, so the
path to a directory above is never longer. The text of a path that was read from a text is read as
that path again, so such paths differ if they do not have the same text. -/
namespace ResourceAccessors
set_option autoImplicit false

/-! ## NUL characters -/

def Path.HoldsNul (p : Path) : Prop := ∃ n ∈ p.names, '\x00' ∈ n.toList

theorem mem_intercalate_singleton {α : Type} {sep a : α} (h : a ≠ sep) (ls : List (List α)) :
    a ∈ [sep].intercalate ls ↔ ∃ l ∈ ls, a ∈ l := by
  induction ls with
  | nil => simp
  | cons l ls ih =>
    cases ls with
    | nil => simp
    | cons m more =>
      rw [List.intercalate_cons_cons, List.mem_append, List.mem_append, ih]
      simp [h]

namespace Path

theorem nul_mem_toString_iff (p : Path) : '\x00' ∈ p.toString.toList ↔ p.HoldsNul := by
  have hanchor : ∀ a : Anchor, '\x00' ∉ a.text.toList := by
    intro a
    cases a <;> decide
  have hinner : '\x00' ∈ ("/".intercalate p.names).toList ↔ p.HoldsNul := by
    rw [String.toList_intercalate]
    refine (mem_intercalate_singleton (by decide) _).trans ?_
    constructor
    · rintro ⟨cs, hcs, hnul⟩
      obtain ⟨n, hn, rfl⟩ := List.mem_map.1 hcs
      exact ⟨n, hn, hnul⟩
    · rintro ⟨n, hn, hnul⟩
      exact ⟨_, List.mem_map_of_mem hn, hnul⟩
  unfold Path.toString
  split
  · next hempty =>
    have hnames : p.names = [] := by simp_all
    simp [HoldsNul, hnames]
  · simp only [String.toList_append, List.mem_append, hanchor, false_or]
    exact hinner

theorem take_of_length_le {p : Path} {n : Nat} (h : p.names.length ≤ n) : p.take n = p := by
  rw [take, List.take_of_length_le h]

theorem take_parent_of_lt {p : Path} {n : Nat} (h : n < p.names.length) :
    p.parent.take n = p.take n := by
  have hmin : min n (p.names.length - 1) = n := by omega
  simp only [parent, take, List.dropLast_eq_take, List.take_take, hmin]

theorem HoldsNul.of_take {p : Path} {n : Nat} (h : (p.take n).HoldsNul) : p.HoldsNul := by
  obtain ⟨name, hname, hnul⟩ := h
  exact ⟨name, List.mem_of_mem_take hname, hnul⟩

theorem HoldsNul.of_parent {p : Path} (h : p.parent.HoldsNul) : p.HoldsNul := by
  obtain ⟨name, hname, hnul⟩ := h
  exact ⟨name, List.dropLast_subset _ hname, hnul⟩

end Path

/-! ## Bytes -/

/-- A path some names further down. -/
def Path.below (p : Path) (names : List String) : Path :=
  ⟨p.anchor, p.names ++ names⟩

/-- The bytes of names with a separator behind each. -/
def Path.sizeOfNames : List String → Nat
  | [] => 0
  | n :: names => n.utf8ByteSize + 1 + sizeOfNames names

theorem Path.sizeOfNames_append (a b : List String) :
    sizeOfNames (a ++ b) = sizeOfNames a + sizeOfNames b := by
  induction a with
  | nil => simp [sizeOfNames]
  | cons n a ih =>
    rw [List.cons_append, sizeOfNames, sizeOfNames, ih]
    omega

theorem Path.sizeOfNames_replicate (n : Nat) (s : String) :
    sizeOfNames (List.replicate n s) = n * (s.utf8ByteSize + 1) := by
  induction n with
  | zero => rw [List.replicate_zero, sizeOfNames, Nat.zero_mul]
  | succ n ih =>
    rw [List.replicate_succ, sizeOfNames, ih, Nat.succ_mul]
    omega

theorem Path.size_intercalate {names : List String} (h : names ≠ []) :
    ("/".intercalate names).utf8ByteSize + 1 = sizeOfNames names := by
  induction names with
  | nil => simp at h
  | cons n names ih =>
    cases names with
    | nil => simp [sizeOfNames]
    | cons m more =>
      have ih := ih (by simp)
      rw [String.intercalate_cons_cons, String.utf8ByteSize_append, String.utf8ByteSize_append,
        sizeOfNames, ← ih]
      have hslash : "/".utf8ByteSize = 1 := rfl
      omega

theorem Path.size_toString {p : Path} (h : p.names ≠ []) :
    p.toString.utf8ByteSize + 1 = p.anchor.text.utf8ByteSize + sizeOfNames p.names := by
  have hsize := Path.size_intercalate h
  have hempty : p.names.isEmpty = false := by simpa using h
  simp only [Path.toString, hempty, Bool.and_false, Bool.false_eq_true, if_false,
    String.utf8ByteSize_append]
  omega

theorem Path.size_below_le {p : Path} {a b : List String} (ha : a ≠ []) (h : a <+: b) :
    (p.below a).toString.utf8ByteSize ≤ (p.below b).toString.utf8ByteSize := by
  obtain ⟨c, rfl⟩ := h
  have h1 := Path.size_toString (p := p.below a) (by simp [Path.below, ha])
  have h2 := Path.size_toString (p := p.below (a ++ c)) (by simp [Path.below, ha])
  simp only [Path.below, sizeOfNames_append] at h1 h2 ⊢
  omega

/-! ## Reading a text -/

/-- A path that is read from a text. -/
def Path.Spelled (p : Path) : Prop := ∃ s, p = ofString s

theorem Path.of_mem_names_ofString {s n : String} (h : n ∈ (ofString s).names) :
    isKept n = true ∧ '/' ∉ n.toList := by
  obtain ⟨hsplit, hkept⟩ := List.mem_filter.1 h
  obtain ⟨cs, hcs, rfl⟩ := List.mem_map.1 hsplit
  rw [String.toList_ofList]
  exact ⟨hkept, Text.not_mem_of_mem_segments hcs⟩

theorem Path.filter_split_slash (s : String) :
    (Text.split '/' ("/" ++ s)).filter isKept = (Text.split '/' s).filter isKept := by
  have hchars : ("/" ++ s).toList = '/' :: s.toList := by
    rw [String.toList_append]
    rfl
  have hempty : isKept (String.ofList []) = false := by decide
  rw [Text.split, hchars, Text.segments, if_pos rfl, List.map_cons,
    List.filter_cons_of_neg (by simp [hempty]), Text.split]

theorem Path.filter_split_intercalate {names : List String}
    (h : ∀ n ∈ names, isKept n = true ∧ '/' ∉ n.toList) :
    (Text.split '/' ("/".intercalate names)).filter isKept = names := by
  by_cases hempty : names = []
  · subst hempty
    decide
  have hchars : ("/".intercalate names).toList = ['/'].intercalate (names.map String.toList) := by
    rw [String.toList_intercalate]
    rfl
  have hsplit : Text.split '/' ("/".intercalate names) = names := by
    rw [Text.split, hchars, Text.segments_intercalate (by simpa using hempty), List.map_map]
    · simp [Function.comp_def]
    · intro cs hcs
      obtain ⟨n, hn, rfl⟩ := List.mem_map.1 hcs
      exact (h n hn).2
  rw [hsplit, List.filter_eq_self]
  exact fun n hn => (h n hn).1

theorem Anchor.ofChars_text_append (a : Anchor) {cs : List Char} (h : cs.head? ≠ some '/') :
    ofChars (a.text.toList ++ cs) = a := by
  cases a <;> rcases cs with _ | ⟨c, cs⟩ <;> simp_all [text, ofChars]

/-- The first character of a path's text behind its anchor is no slash. -/
theorem Path.head?_intercalate_ne_slash {names : List String}
    (h : ∀ n ∈ names, isKept n = true ∧ '/' ∉ n.toList) :
    ("/".intercalate names).toList.head? ≠ some '/' := by
  cases names with
  | nil => decide
  | cons n names =>
    obtain ⟨hkept, hslash⟩ := h n (List.mem_cons_self ..)
    have hne : n.toList ≠ [] := by
      rw [ne_eq, String.toList_eq_nil_iff]
      rintro rfl
      simp [isKept] at hkept
    obtain ⟨c, cs, hcs⟩ := List.exists_cons_of_ne_nil hne
    have hc : c ≠ '/' := by
      rintro rfl
      simp [hcs] at hslash
    rw [String.toList_intercalate]
    cases names <;> simp [hcs, hc]

theorem Path.ofString_toString_of_names {p : Path}
    (hnames : ∀ n ∈ p.names, isKept n = true ∧ '/' ∉ n.toList) : ofString p.toString = p := by
  have hinner := filter_split_intercalate hnames
  unfold Path.toString
  split
  · next hempty =>
    obtain ⟨anchor, names⟩ := p
    simp only [Bool.and_eq_true, decide_eq_true_eq, List.isEmpty_iff] at hempty
    obtain ⟨rfl, rfl⟩ := hempty
    decide
  · have hanchor : Anchor.ofChars (p.anchor.text ++ "/".intercalate p.names).toList = p.anchor := by
      rw [String.toList_append]
      exact Anchor.ofChars_text_append _ (head?_intercalate_ne_slash hnames)
    have hsplit : (Text.split '/' (p.anchor.text ++ "/".intercalate p.names)).filter isKept =
        p.names := by
      cases p.anchor with
      | relative => rw [Anchor.text, String.empty_append, hinner]
      | root => rw [Anchor.text, filter_split_slash, hinner]
      | doubleRoot =>
        have htext : Anchor.doubleRoot.text ++ "/".intercalate p.names =
            "/" ++ ("/" ++ "/".intercalate p.names) := by
          rw [← String.append_assoc]
          rfl
        rw [htext, filter_split_slash, filter_split_slash, hinner]
    rw [ofString, hanchor, hsplit]

/-- The paths that are read from a text are those whose names can be. -/
theorem Path.spelled_iff {p : Path} :
    p.Spelled ↔ ∀ n ∈ p.names, isKept n = true ∧ '/' ∉ n.toList := by
  constructor
  · rintro ⟨s, rfl⟩ n hn
    exact of_mem_names_ofString hn
  · exact fun h => ⟨p.toString, (ofString_toString_of_names h).symm⟩

/-- The text of a path is read as that path. -/
theorem Path.Spelled.ofString_toString {p : Path} (h : p.Spelled) : ofString p.toString = p :=
  ofString_toString_of_names (spelled_iff.1 h)

theorem Path.Spelled.toString_inj {p q : Path} (hp : p.Spelled) (hq : q.Spelled)
    (h : p.toString = q.toString) : p = q := by
  rw [← hp.ofString_toString, ← hq.ofString_toString, h]

theorem Path.Spelled.toString_ne_empty {p : Path} (h : p.Spelled) : p.toString ≠ "" := by
  intro hempty
  have hp := h.ofString_toString
  rw [hempty] at hp
  rw [← hp] at hempty
  exact absurd hempty (by decide)

end ResourceAccessors
