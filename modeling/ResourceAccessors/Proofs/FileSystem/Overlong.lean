import ResourceAccessors.Proofs.FileSystem.Faults
import ResourceAccessors.Proofs.FileSystem.Plain

/-! Lookups that are left open. Every obstacle that a lookup meets means that the path leads to
nothing, except for one: a path of more bytes than are looked up, or a name on its way of more bytes
than a name may have. `Overlong` says when a walk comes to such a name, links included, and a
question about a path is left open exactly for the paths that are too long in one of these ways. -/
namespace ResourceAccessors.FileSystem
set_option autoImplicit false

variable {fs : FileSystem} {links : Nat} {slashed : Bool} {dir : Location} {name target : String}
  {names rest : List String} {p : Path} {test : Entry → Bool} {fault : FileFault}

/-! ## Walks -/

/-- A walk through at most so many links comes to a name that is too long for any directory. -/
inductive Overlong (fs : FileSystem) : (links : Nat) → Location → List String → Prop
  | here {links : Nat} {dir : Location} {name : String} {rest : List String} :
      maxNameBytes < name.utf8ByteSize → Overlong fs links dir (name :: rest)
  | stay {links : Nat} {dir : Location} {name : String} {rest : List String} : name = "." →
      Overlong fs links dir rest → Overlong fs links dir (name :: rest)
  | climb {links : Nat} {dir : Location} {name : String} {rest : List String} : name = ".." →
      Overlong fs links dir.dropLast rest → Overlong fs links dir (name :: rest)
  | enter {links : Nat} {dir : Location} {name : String} {rest : List String} :
      name ≠ "." → name ≠ ".." → fs.entryAt (dir ++ [name]) = some .directory →
      Overlong fs links (dir ++ [name]) rest → Overlong fs links dir (name :: rest)
  | link {links : Nat} {dir : Location} {name target : String} {rest : List String} :
      name ≠ "." → name ≠ ".." → fs.entryAt (dir ++ [name]) = some (.link target) →
      Overlong fs links (targetStart dir target) (targetNames target ++ rest) →
      Overlong fs (links + 1) dir (name :: rest)

/-- Behind a name that fits, a walk goes on in a directory or along a link and nowhere else. -/
theorem Overlong.next (hdot : name ≠ ".") (hdots : name ≠ "..")
    (hsize : ¬ maxNameBytes < name.utf8ByteSize) (h : fs.Overlong links dir (name :: rest)) :
    (fs.entryAt (dir ++ [name]) = some .directory ∧ fs.Overlong links (dir ++ [name]) rest) ∨
      ∃ fewer target, links = fewer + 1 ∧ fs.entryAt (dir ++ [name]) = some (.link target) ∧
        fs.Overlong fewer (targetStart dir target) (targetNames target ++ rest) := by
  cases h with
  | here h => exact absurd h hsize
  | stay h => exact absurd h hdot
  | climb h => exact absurd h hdots
  | enter _ _ hdir h => exact .inl ⟨hdir, h⟩
  | link _ _ hlink h => exact .inr ⟨_, _, rfl, hlink, h⟩

/-- Whether a walk comes to a name that is too long is known where it first stops, unless that is
at a link. -/
theorem overlong_iff : fs.Overlong links dir names ↔
    match fs.descend dir names with
    | .at _ => False
    | .blocked obstacle => obstacle = .nameTooLong
    | .link d target rest => ∃ fewer, links = fewer + 1 ∧
        fs.Overlong fewer (targetStart d target) (targetNames target ++ rest) := by
  fun_induction descend fs dir names with
  | case1 dir =>
    refine ⟨fun h => ?_, False.elim⟩
    cases h
  | case2 dir rest ih =>
    rw [← ih]
    refine ⟨fun h => ?_, .stay rfl⟩
    cases h with
    | here hsize => exact absurd hsize (by decide)
    | stay _ h => exact h
    | climb h => simp at h
    | enter hdot => exact absurd rfl hdot
    | link hdot => exact absurd rfl hdot
  | case3 dir rest hdot ih =>
    rw [← ih]
    refine ⟨fun h => ?_, .climb rfl⟩
    cases h with
    | here hsize => exact absurd hsize (by decide)
    | stay h => exact absurd h hdot
    | climb _ h => exact h
    | enter _ hdots => exact absurd rfl hdots
    | link _ hdots => exact absurd rfl hdots
  | case4 dir name rest h1 h2 hsize => exact ⟨fun _ => rfl, fun _ => .here hsize⟩
  | case5 dir name rest h1 h2 hsize hnone hrest =>
    refine ⟨fun h => ?_, False.elim⟩
    simpa [hnone] using h.next h1 h2 hsize
  | case6 dir name rest h1 h2 hsize hnone hrest =>
    refine ⟨fun h => ?_, by simp⟩
    simpa [hnone] using h.next h1 h2 hsize
  | case7 dir name rest h1 h2 hsize hdir ih =>
    rw [← ih]
    refine ⟨fun h => ?_, .enter h1 h2 hdir⟩
    simpa [hdir] using h.next h1 h2 hsize
  | case8 dir name rest h1 h2 hsize content hfile hrest =>
    refine ⟨fun h => ?_, False.elim⟩
    simpa [hfile] using h.next h1 h2 hsize
  | case9 dir name rest h1 h2 hsize content hfile hrest =>
    refine ⟨fun h => ?_, by simp⟩
    simpa [hfile] using h.next h1 h2 hsize
  | case10 dir name rest h1 h2 hsize target hlink =>
    constructor
    · intro h
      simpa [hlink] using h.next h1 h2 hsize
    · rintro ⟨fewer, rfl, h⟩
      exact .link h1 h2 hlink h

theorem follow_eq_nameTooLong_iff :
    fs.follow links slashed dir names = .error .nameTooLong ↔ fs.Overlong links dir names := by
  induction links generalizing slashed dir names with
  | zero =>
    rw [overlong_iff, follow]
    split <;> simp_all
  | succ links ih =>
    rw [overlong_iff, follow]
    rcases fs.descend dir names with place | ⟨d, target, rest⟩ | obstacle
    · simp
    · simp only [Nat.add_right_cancel_iff, exists_eq_left', ih]
    · simp

theorem descend_blocked {obstacle : Obstacle} (h : fs.descend dir names = .blocked obstacle) :
    obstacle = .nameTooLong ∨ obstacle.meansAbsent = true := by
  fun_induction descend fs dir names with
  | case2 dir rest ih => exact ih h
  | case3 dir rest _ ih => exact ih h
  | case4 => exact .inl (Descent.blocked.inj h).symm
  | case6 => exact .inr (Descent.blocked.inj h ▸ rfl)
  | case7 dir name rest _ _ _ _ ih => exact ih h
  | case9 => exact .inr (Descent.blocked.inj h ▸ rfl)
  | _ => simp at h

theorem follow_error {obstacle : Obstacle}
    (h : fs.follow links slashed dir names = .error obstacle) :
    obstacle = .nameTooLong ∨ obstacle.meansAbsent = true := by
  induction links generalizing slashed dir names with
  | zero =>
    unfold follow at h
    split at h
    · simp at h
    · next hd =>
      rw [Except.error.injEq] at h
      exact h ▸ descend_blocked hd
    · rw [Except.error.injEq] at h
      exact .inr (h ▸ rfl)
  | succ links ih =>
    unfold follow at h
    split at h
    · simp at h
    · next hd =>
      rw [Except.error.injEq] at h
      exact h ▸ descend_blocked hd
    · exact ih h

/-! ## Paths -/

/-- A path that is looked up, as it holds no NUL character, and is too long for that or comes to a
name that is. -/
def TooLong (fs : FileSystem) (p : Path) : Prop :=
  ¬ p.HoldsNul ∧
    (maxPathBytes < p.toString.utf8ByteSize ∨ fs.Overlong maxLinks (fs.start p) p.names)

theorem locate_of_tooLong (h : fs.TooLong p) :
    fs.locate p = .error (.obstructed .nameTooLong p) := by
  obtain ⟨hnul, hlong⟩ := h
  unfold locate arrive
  cases hlooked : checkPath p with
  | error fault =>
    rcases checkPath_eq_error hlooked with rfl | rfl
    · exact absurd (checkPath_eq_nul_iff.1 hlooked) hnul
    · rfl
  | ok u =>
    have hsize := (checkPath_eq_ok_iff.1 hlooked).2
    have hover := hlong.resolve_left (Nat.not_lt.2 hsize)
    simp only [follow_eq_nameTooLong_iff.2 hover]

theorem not_tooLong_of_locate {obstacle : Obstacle} (h : fs.locate p = .error (.obstructed obstacle p))
    (hne : obstacle ≠ .nameTooLong) : ¬ fs.TooLong p := by
  intro hlong
  rw [locate_of_tooLong hlong, Except.error.injEq, FileFault.obstructed.injEq] at h
  exact hne h.1.symm

theorem absent_or_tooLong_of_locate {obstacle : Obstacle} {q : Path}
    (h : fs.locate p = .error (.obstructed obstacle q)) :
    q = p ∧ (obstacle.meansAbsent = true ∨ obstacle = .nameTooLong ∧ fs.TooLong p) := by
  unfold locate arrive at h
  cases hlooked : checkPath p with
  | error f =>
    simp only [hlooked, Except.error.injEq] at h
    rcases checkPath_eq_error hlooked with rfl | rfl
    · simp at h
    · rw [FileFault.obstructed.injEq] at h
      obtain ⟨rfl, rfl⟩ := h
      have hnul : ¬ p.HoldsNul := fun hnul => by
        rw [checkPath_eq_nul_iff.2 hnul] at hlooked
        simp at hlooked
      refine ⟨rfl, .inr ⟨rfl, hnul, .inl (Nat.lt_of_not_le fun hsize => ?_)⟩⟩
      rw [checkPath_eq_ok_iff.2 ⟨hnul, hsize⟩] at hlooked
      simp at hlooked
  | ok u =>
    cases hf : fs.follow maxLinks false (fs.start p) p.names with
    | error o =>
      simp only [hlooked, hf, Except.error.injEq, FileFault.obstructed.injEq] at h
      obtain ⟨rfl, rfl⟩ := h
      rcases follow_error hf with rfl | habsent
      · exact ⟨rfl, .inr ⟨rfl, (checkPath_eq_ok_iff.1 hlooked).1,
          .inr (follow_eq_nameTooLong_iff.1 hf)⟩⟩
      · exact ⟨rfl, .inl habsent⟩
    | ok arrival =>
      obtain ⟨place, slashed⟩ := arrival
      cases place with
      | vacant d name =>
        simp only [hlooked, hf, Except.error.injEq, FileFault.obstructed.injEq] at h
        exact ⟨h.2.symm, .inl (h.1 ▸ rfl)⟩
      | found loc =>
        simp only [hlooked, hf] at h
        split at h
        · rw [Except.error.injEq, FileFault.obstructed.injEq] at h
          exact ⟨h.2.symm, .inl (h.1 ▸ rfl)⟩
        · simp at h

/-- A question about a path is left open exactly if the path is too long. -/
theorem leadsTo_eq_error_iff :
    fs.leadsTo test p = .error fault ↔ fault = .obstructed .nameTooLong p ∧ fs.TooLong p := by
  constructor
  · intro h
    unfold leadsTo at h
    split at h
    · simp at h
    · simp at h
    · next obstacle q hlocate =>
      obtain ⟨rfl, habsent | ⟨rfl, hlong⟩⟩ := absent_or_tooLong_of_locate hlocate
      · simp [habsent] at h
      · exact ⟨(Except.error.inj h).symm, hlong⟩
    · next reason hlocate => exact absurd rfl ((ofLookup_of_locate hlocate).ne_tooNested reason)
  · rintro ⟨rfl, hlong⟩
    simp only [leadsTo, locate_of_tooLong hlong, Obstacle.meansAbsent, Bool.false_eq_true, if_false]

/-- What leads to no directory is told from one, unless its path is too long. -/
theorem isDirectory_eq_false (hlong : ¬ fs.TooLong p)
    (hno : ∀ loc, fs.locate p = .ok loc → fs.entryAt loc ≠ some .directory) :
    fs.isDirectory p = .ok false := by
  cases h : fs.isDirectory p with
  | error fault => exact absurd (leadsTo_eq_error_iff.1 h).2 hlong
  | ok isDir =>
    cases isDir with
    | false => rfl
    | true =>
      obtain ⟨loc, hloc, hdir⟩ := isDirectory_eq_true_iff.1 h
      exact absurd hdir (hno loc hloc)

end ResourceAccessors.FileSystem
