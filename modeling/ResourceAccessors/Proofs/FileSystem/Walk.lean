import ResourceAccessors.FileSystem.Change
import ResourceAccessors.Proofs.FileSystem.Tree

/-! Walks that survive changes. A walk to an entry comes to the same location in every file system
that keeps the entries of the first, and a walk to where a file may be written comes to that file
once it is there.

Reading and writing follow links alike except for a slash behind the target of the last one, which
lets a file be neither written nor read there: a target that ends in a slash behind a name is
refused for writing, and one that ends in a slash behind dots leads to a directory. -/
namespace ResourceAccessors
set_option autoImplicit false

namespace FileSystem

variable {fs after : FileSystem} {dir : Location} {names : List String} {place : Place}

/-! ## Entries that are kept -/

theorem Keeps.descend_at (h : fs.Keeps after)
    (hfree : ∀ d name, place = .vacant d name → ∃ b, after.entryAt (d ++ [name]) = some (.file b))
    (hp : fs.descend dir names = .at place) :
    after.descend dir names = .at (.found place.location) := by
  fun_induction descend fs dir names with
  | case1 dir =>
    simp only [Descent.at.injEq] at hp
    exact hp ▸ rfl
  | case2 dir rest ih =>
    rw [descend, if_pos rfl]
    exact ih hp
  | case3 dir rest hdot ih =>
    rw [descend, if_neg hdot, if_pos rfl]
    exact ih hp
  | case4 => simp at hp
  | case5 dir name rest h1 h2 hsize hnone hrest =>
    simp only [Descent.at.injEq] at hp
    obtain ⟨b, hb⟩ := hfree dir name hp.symm
    rw [descend, if_neg h1, if_neg h2, if_neg hsize, hb, ← hp]
    exact if_pos hrest
  | case6 => simp at hp
  | case7 dir name rest h1 h2 hsize hdir ih =>
    rw [descend, if_neg h1, if_neg h2, if_neg hsize, h.directory hdir]
    exact ih hp
  | case8 dir name rest h1 h2 hsize b hfile hrest =>
    simp only [Descent.at.injEq] at hp
    obtain ⟨now, hnow⟩ := h.file hfile
    rw [descend, if_neg h1, if_neg h2, if_neg hsize, hnow, ← hp]
    exact if_pos hrest
  | case9 => simp at hp
  | case10 => simp at hp

theorem Keeps.descend_found {loc : Location} (h : fs.Keeps after)
    (hp : fs.descend dir names = .at (.found loc)) : after.descend dir names = .at (.found loc) :=
  h.descend_at (by simp) hp

theorem Keeps.descend_link {d : Location} {target : String} {rest : List String}
    (h : fs.Keeps after) (hp : fs.descend dir names = .link d target rest) :
    after.descend dir names = .link d target rest := by
  fun_induction descend fs dir names with
  | case1 => simp at hp
  | case2 dir more ih =>
    rw [descend, if_pos rfl]
    exact ih hp
  | case3 dir more hdot ih =>
    rw [descend, if_neg hdot, if_pos rfl]
    exact ih hp
  | case4 => simp at hp
  | case5 => simp at hp
  | case6 => simp at hp
  | case7 dir name more h1 h2 hsize hdir ih =>
    rw [descend, if_neg h1, if_neg h2, if_neg hsize, h.directory hdir]
    exact ih hp
  | case8 => simp at hp
  | case9 => simp at hp
  | case10 dir name more h1 h2 hsize t hlink =>
    rw [descend, if_neg h1, if_neg h2, if_neg hsize, h.link hlink]
    exact hp

theorem Keeps.follow_found {links : Nat} {slashed ends : Bool} {loc : Location} (h : fs.Keeps after)
    (hf : fs.follow links slashed dir names = .ok ⟨.found loc, ends⟩) :
    after.follow links slashed dir names = .ok ⟨.found loc, ends⟩ := by
  induction links generalizing slashed dir names with
  | zero =>
    unfold follow at hf ⊢
    split at hf
    · next place hp =>
      simp only [Except.ok.injEq, Arrival.mk.injEq] at hf
      rw [h.descend_found (hf.1 ▸ hp), hf.2]
    · simp at hf
    · simp at hf
  | succ links ih =>
    unfold follow at hf ⊢
    split at hf
    · next place hp =>
      simp only [Except.ok.injEq, Arrival.mk.injEq] at hf
      rw [h.descend_found (hf.1 ▸ hp), hf.2]
    · simp at hf
    · next d target rest hp =>
      rw [h.descend_link hp]
      exact ih hf

theorem Keeps.start (h : fs.Keeps after) (p : Path) : after.start p = fs.start p := by
  unfold FileSystem.start
  rw [h.working]

/-! ## Walks along more names -/

theorem descend_append_link {d : Location} {target : String} {rest more : List String}
    (h : fs.descend dir names = .link d target more) :
    fs.descend dir (names ++ rest) = .link d target (more ++ rest) := by
  fun_induction descend fs dir names with
  | case2 dir names ih =>
    rw [List.cons_append, descend, if_pos rfl]
    exact ih h
  | case3 dir names hdot ih =>
    rw [List.cons_append, descend, if_neg hdot, if_pos rfl]
    exact ih h
  | case7 dir name names h1 h2 hsize hdir ih =>
    rw [List.cons_append, descend, if_neg h1, if_neg h2, if_neg hsize, hdir]
    exact ih h
  | case10 dir name names h1 h2 hsize t hlink =>
    obtain ⟨rfl, rfl, rfl⟩ := Descent.link.inj h
    rw [List.cons_append, descend, if_neg h1, if_neg h2, if_neg hsize, hlink]
  | _ => simp at h

/-! ## Ends in dots -/

def EndsInDots (names : List String) : Prop :=
  ∀ n, names.getLast? = some n → n = "." ∨ n = ".."

theorem EndsInDots.tail {name : String} {rest : List String} (h : EndsInDots (name :: rest)) :
    EndsInDots rest := by
  intro n hn
  refine h n ?_
  rw [List.getLast?_cons, hn]
  rfl

theorem EndsInDots.rest_ne_nil {name : String} {rest : List String}
    (h : EndsInDots (name :: rest)) (h1 : name ≠ ".") (h2 : name ≠ "..") : rest ≠ [] := by
  rintro rfl
  rcases h name rfl with rfl | rfl
  · exact h1 rfl
  · exact h2 rfl

theorem endsInDots_targetNames {target : String}
    (h : endsInEntryName (targetNames target) = false) : EndsInDots (targetNames target) := by
  intro n hn
  rw [endsInEntryName, hn, Option.any_some] at h
  have hm := List.mem_filter.1 (List.mem_of_getLast? hn)
  obtain ⟨seg, hseg, rfl⟩ := List.mem_map.1 hm.1
  have hslash := Text.not_mem_of_mem_segments hseg
  have hkept : String.ofList seg ≠ "" := by simpa using hm.2
  by_cases h1 : String.ofList seg = "."
  · exact .inl h1
  by_cases h2 : String.ofList seg = ".."
  · exact .inr h2
  simp [Path.isEntryName, hkept, h1, h2, hslash] at h

/-- What a walk along names that end in dots gives. -/
def DescendedToDirectory (fs : FileSystem) : Descent → Prop
  | .at place => ∃ loc, place = .found loc ∧ fs.entryAt loc = some .directory
  | .link _ _ rest => rest ≠ [] ∧ EndsInDots rest
  | .blocked _ => True

theorem IsTree.descended_toDirectory (h : fs.IsTree) (hd : fs.entryAt dir = some .directory)
    (hdots : EndsInDots names) : fs.DescendedToDirectory (fs.descend dir names) := by
  fun_induction descend fs dir names with
  | case1 dir => exact ⟨dir, rfl, hd⟩
  | case2 dir rest ih => exact ih hd hdots.tail
  | case3 dir rest _ ih => exact ih (h.directory_dropLast hd) hdots.tail
  | case4 => trivial
  | case5 dir name rest h1 h2 _ _ hrest =>
    exact absurd (List.isEmpty_iff.1 hrest) (hdots.rest_ne_nil h1 h2)
  | case6 => trivial
  | case7 dir name rest _ _ _ hdir ih => exact ih hdir hdots.tail
  | case8 dir name rest h1 h2 _ _ _ hrest =>
    exact absurd (List.isEmpty_iff.1 hrest) (hdots.rest_ne_nil h1 h2)
  | case9 => trivial
  | case10 dir name rest h1 h2 => exact ⟨hdots.rest_ne_nil h1 h2, hdots.tail⟩

theorem IsTree.followToWrite_dots {links : Nat} (h : fs.IsTree)
    (hd : fs.entryAt dir = some .directory) (hdots : EndsInDots names)
    (hf : fs.followToWrite links dir names = .ok place) :
    ∃ loc, place = .found loc ∧ fs.entryAt loc = some .directory := by
  induction links generalizing dir names with
  | zero =>
    have hs := h.descended_toDirectory hd hdots
    unfold followToWrite at hf
    split at hf
    · next p hp =>
      simp only [Except.ok.injEq] at hf
      rw [hp, hf] at hs
      exact hs
    · simp at hf
    · simp at hf
  | succ links ih =>
    have hs := h.descended_toDirectory hd hdots
    have ht := h.descended hd names
    unfold followToWrite at hf
    split at hf
    · next p hp =>
      simp only [Except.ok.injEq] at hf
      rw [hp, hf] at hs
      exact hs
    · simp at hf
    · next d target rest hp =>
      rw [hp] at hs ht
      obtain ⟨hne, hrest⟩ := hs
      have hempty : rest.isEmpty = false := by simpa using hne
      simp only [hempty, Bool.false_and, Bool.false_eq_true, if_false] at hf
      refine ih (directory_targetStart ht target) ?_ hf
      intro n hn
      refine hrest n ?_
      rwa [List.getLast?_append, List.getLast?_eq_some_getLast hne, Option.some_or,
        ← List.getLast?_eq_some_getLast hne] at hn

/-! ## Files that were written -/

/-- A walk to where a file may be written comes to the file that is written there. -/
theorem IsTree.follow_of_followToWrite {links : Nat} {slashed : Bool} {b : List UInt8}
    (h : fs.IsTree) (hk : fs.Keeps after) (hd : fs.entryAt dir = some .directory)
    (hf : fs.followToWrite links dir names = .ok place)
    (hb : after.entryAt place.location = some (.file b)) :
    after.follow links slashed dir names = .ok ⟨.found place.location, slashed⟩ := by
  have hfree : ∀ d name, place = .vacant d name →
      ∃ b, after.entryAt (d ++ [name]) = some (.file b) := by
    rintro d name rfl
    exact ⟨b, hb⟩
  induction links generalizing dir names slashed with
  | zero =>
    unfold followToWrite at hf
    unfold follow
    split at hf
    · next p hp =>
      simp only [Except.ok.injEq] at hf
      rw [hk.descend_at hfree (hf ▸ hp)]
    · simp at hf
    · simp at hf
  | succ links ih =>
    unfold followToWrite at hf
    unfold follow
    have hs := h.descended hd names
    split at hf
    · next p hp =>
      simp only [Except.ok.injEq] at hf
      rw [hk.descend_at hfree (hf ▸ hp)]
    · simp at hf
    · next d target rest hp =>
      rw [hk.descend_link hp]
      rw [hp] at hs
      have hstart := directory_targetStart hs target
      have hnot : (rest.isEmpty && endsInSlash target && endsInEntryName (targetNames target)) =
          false := by
        refine Bool.eq_false_iff.2 fun hc => ?_
        simp only [hc, if_true] at hf
        split at hf <;> simp at hf
      simp only [hnot, Bool.false_eq_true, if_false] at hf
      -- a slash that is not refused stands behind dots, and those lead to no file
      have hslash : (rest.isEmpty && endsInSlash target) = false := by
        refine Bool.eq_false_iff.2 fun hc => ?_
        simp only [hc, Bool.true_and] at hnot
        have hrest : rest = [] := List.isEmpty_iff.1 (Bool.and_eq_true_iff.1 hc).1
        rw [hrest, List.append_nil] at hf
        obtain ⟨loc, rfl, hdir⟩ := h.followToWrite_dots hstart (endsInDots_targetNames hnot) hf
        have := hk.directory hdir
        simp_all [Place.location]
      simp only [hslash, Bool.or_false]
      exact ih hstart hf

end FileSystem

end ResourceAccessors
