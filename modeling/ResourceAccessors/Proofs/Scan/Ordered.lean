import ResourceAccessors.Proofs.Scan.Below

/-! The order of what is below a directory. Names come in the order of their code points, and paths
name by name, so that a directory stands before what is in it and that before the next name of the
directory above. A list in this order is determined by its members. -/
namespace ResourceAccessors
set_option autoImplicit false

def Text.codePoints (s : String) : List Nat :=
  s.toList.map Char.toNat

/-- The names of a path, each as its code points. -/
def Path.nameCodes (names : List String) : List (List Nat) :=
  names.map Text.codePoints

theorem Text.codePoints_lt {s t : String} (h : s < t) : codePoints s < codePoints t :=
  List.map_lt (fun _ _ hlt => hlt) h

namespace FileSystem

variable {fs : FileSystem} {dir : Location} {x y : String} {n : Nat}

/-- Locations in one directory are in the order of their names. -/
theorem compare_concat (dir : Location) (x y : String) :
    compare (dir ++ [x]) (dir ++ [y]) = compare x y := by
  induction dir with
  | nil =>
    change List.compareLex compare [x] [y] = compare x y
    rw [List.compareLex_cons_cons]
    exact Ordering.then_eq
  | cons name dir ih =>
    change List.compareLex compare (name :: (dir ++ [x])) (name :: (dir ++ [y])) = compare x y
    have hname : compare name name = .eq := Std.ReflCmp.compare_self
    rw [List.compareLex_cons_cons, hname]
    exact ih

theorem children_ordered (fs : FileSystem) (dir : Location) :
    (fs.children dir).Pairwise fun x y => Text.codePoints x < Text.codePoints y := by
  rw [children_eq]
  refine List.Pairwise.filterMap _ (fun a b hab x hx y hy => ?_) fs.locations_ordered
  obtain ⟨rfl, -⟩ := childOf_eq_some_iff.1 hx
  obtain ⟨rfl, -⟩ := childOf_eq_some_iff.1 hy
  rw [compare_concat] at hab
  exact Text.codePoints_lt (compareOfLessAndEq_eq_lt.1 hab)

/-- A name comes before all that is below it. -/
theorem listed_ordered
    (hdeep : ∀ dir, (fs.below n dir).Pairwise fun a b => Path.nameCodes a < Path.nameCodes b)
    (dir : Location) (name : String) :
    (fs.listed n dir name).Pairwise fun a b => Path.nameCodes a < Path.nameCodes b := by
  refine List.pairwise_cons.2 ⟨fun names hnames => ?_, List.pairwise_map.2 ?_⟩
  · obtain ⟨rest, hrest, rfl⟩ := List.mem_map.1 hnames
    have hne : rest ≠ [] := by
      split at hrest
      · exact (of_mem_below hrest).1
      · simp at hrest
    obtain ⟨next, more, rfl⟩ := List.exists_cons_of_ne_nil hne
    exact List.cons_lt_cons_iff.2 (.inr ⟨rfl, List.nil_lt_cons ..⟩)
  · have htail : ∀ a b, Path.nameCodes a < Path.nameCodes b →
        Path.nameCodes (name :: a) < Path.nameCodes (name :: b) :=
      fun a b hab => List.cons_lt_cons_iff.2 (.inr ⟨rfl, hab⟩)
    split
    · exact (hdeep _).imp (htail _ _)
    · exact List.Pairwise.nil

theorem exists_of_mem_listed {name : String} {names : List String}
    (h : names ∈ fs.listed n dir name) : ∃ rest, names = name :: rest := by
  rcases List.mem_cons.1 h with rfl | hdeep
  · exact ⟨[], rfl⟩
  · obtain ⟨rest, -, rfl⟩ := List.mem_map.1 hdeep
    exact ⟨rest, rfl⟩

theorem below_ordered (fs : FileSystem) (n : Nat) (dir : Location) :
    (fs.below n dir).Pairwise fun a b => Path.nameCodes a < Path.nameCodes b := by
  induction n generalizing dir with
  | zero => exact List.Pairwise.nil
  | succ n ih =>
    rw [below_succ, List.pairwise_flatMap]
    refine ⟨fun name _ => listed_ordered ih dir name, (fs.children_ordered dir).imp ?_⟩
    intro x y hxy a ha b hb
    obtain ⟨rest, rfl⟩ := exists_of_mem_listed ha
    obtain ⟨more, rfl⟩ := exists_of_mem_listed hb
    exact List.cons_lt_cons_iff.2 (.inl hxy)

end FileSystem

end ResourceAccessors
