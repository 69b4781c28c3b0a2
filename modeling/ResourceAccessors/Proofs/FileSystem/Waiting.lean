import ResourceAccessors.Proofs.FileSystem.Laid

/-! How many directories of a path wait for the one above them. A directory waits if the one it is
to be added in is missing, and what is not missing is kept. So of a path that entries are kept for
no more directories wait later than at first, and too many of them only if too many did then. Where
the first directory of a path is missing, all the others wait. -/
namespace ResourceAccessors.FileSystem
set_option autoImplicit false

variable {fs after : FileSystem} {p : Path} {dir loc : Location} {names : List String}
  {links n : Nat} {slashed : Bool} {limit : CallLimit}

/-! ## Walks that come to nothing -/

theorem Keeps.descend_missing_or_eq (h : fs.Keeps after) (dir : Location) (names : List String) :
    (fs.descend dir names = .blocked .notFound ∨
        ∃ holder name, fs.descend dir names = .at (.vacant holder name)) ∨
      after.descend dir names = fs.descend dir names := by
  fun_induction descend fs dir names with
  | case1 => exact .inr rfl
  | case2 dir rest ih => rwa [descend, if_pos rfl]
  | case3 dir rest hdot ih => rwa [descend, if_neg hdot, if_pos rfl]
  | case4 dir name rest h1 h2 hsize =>
    rw [descend, if_neg h1, if_neg h2, if_pos hsize]
    exact .inr rfl
  | case5 dir name => exact .inl (.inr ⟨dir, name, rfl⟩)
  | case6 => exact .inl (.inl rfl)
  | case7 dir name rest h1 h2 hsize hdir ih =>
    rwa [descend, if_neg h1, if_neg h2, if_neg hsize, h.directory hdir]
  | case8 dir name rest h1 h2 hsize bytes hfile hrest =>
    obtain ⟨now, hnow⟩ := h.file hfile
    rw [descend, if_neg h1, if_neg h2, if_neg hsize, hnow]
    exact .inr (if_pos hrest)
  | case9 dir name rest h1 h2 hsize bytes hfile hrest =>
    obtain ⟨now, hnow⟩ := h.file hfile
    rw [descend, if_neg h1, if_neg h2, if_neg hsize, hnow]
    exact .inr (if_neg hrest)
  | case10 dir name rest h1 h2 hsize target hlink =>
    rw [descend, if_neg h1, if_neg h2, if_neg hsize, h.link hlink]
    exact .inr rfl

theorem Keeps.follow_missing_or_eq (h : fs.Keeps after) (links : Nat) (slashed : Bool)
    (dir : Location) (names : List String) :
    (fs.follow links slashed dir names = .error .notFound ∨
        ∃ holder name ends, fs.follow links slashed dir names = .ok ⟨.vacant holder name, ends⟩) ∨
      after.follow links slashed dir names = fs.follow links slashed dir names := by
  induction links generalizing slashed dir names with
  | zero =>
    unfold follow
    rcases h.descend_missing_or_eq dir names with (hmissing | ⟨holder, name, hvacant⟩) | heq
    · exact .inl (.inl (by rw [hmissing]))
    · exact .inl (.inr ⟨holder, name, slashed, by rw [hvacant]⟩)
    · exact .inr (by rw [heq])
  | succ links ih =>
    unfold follow
    rcases h.descend_missing_or_eq dir names with (hmissing | ⟨holder, name, hvacant⟩) | heq
    · exact .inl (.inl (by rw [hmissing]))
    · exact .inl (.inr ⟨holder, name, slashed, by rw [hvacant]⟩)
    · rw [heq]
      cases fs.descend dir names with
      | «at» place => exact .inr rfl
      | blocked obstacle => exact .inr rfl
      | link holder target rest => exact ih _ _ _

/-- What a walk to a directory comes to is kept, unless it is that something is missing. -/
theorem Keeps.followToDirectory_missing_or_eq (h : fs.Keeps after) (htree : fs.IsTree)
    (hd : fs.entryAt dir = some .directory) (links : Nat) (names : List String) :
    fs.followToDirectory links dir names = .error .notFound ∨
      after.followToDirectory links dir names = fs.followToDirectory links dir names := by
  unfold followToDirectory
  rcases h.follow_missing_or_eq links false dir names with
    (hmissing | ⟨holder, name, ends, hvacant⟩) | heq
  · exact .inl (by rw [hmissing])
  · exact .inl (by rw [hvacant])
  · rw [heq]
    cases hf : fs.follow links false dir names with
    | error obstacle => exact .inr rfl
    | ok arrival =>
      obtain ⟨place, ends⟩ := arrival
      cases place with
      | vacant holder name => exact .inl rfl
      | found loc =>
        obtain ⟨e, he, -⟩ := htree.reached_of_follow hd hf
        exact .inr (by simp only [h.directory_iff he])

/-! ## Directories that wait -/

/-- The directory that a path names cannot be added before the one above it. -/
def Waits (fs : FileSystem) (p : Path) : Prop :=
  checkPath p = .ok () ∧ fs.holder p = .error .notFound

theorem Waits.ensureDirectory (h : fs.Waits p) :
    fs.ensureDirectory p = .error (.obstructed .notFound p) := by
  simp only [FileSystem.ensureDirectory, makeDirectory_of_holder_error h.1 h.2]

theorem waits_of_makeDirectory {q : Path}
    (h : fs.makeDirectory p = .error (.obstructed .notFound q)) : fs.Waits p := by
  unfold makeDirectory at h
  split at h
  · next fault hlooked =>
    rcases checkPath_eq_error hlooked with rfl | rfl <;> simp at h
  · next hlooked =>
    split at h
    · next obstacle hholder =>
      obtain ⟨rfl, -⟩ := FileFault.obstructed.inj (Except.error.inj h)
      exact ⟨hlooked, hholder⟩
    · split at h
      · simp at h
      · simp at h
      · split at h
        · simp at h
        · split at h <;> simp at h

theorem waits_of_ensureDirectory {q : Path}
    (h : fs.ensureDirectory p = .error (.obstructed .notFound q)) : fs.Waits p := by
  unfold FileSystem.ensureDirectory at h
  split at h
  · simp at h
  · simp at h
  · next hmake => exact waits_of_makeDirectory hmake
  · next fault _ hnot hmake =>
    split at h
    · simp at h
    · obtain rfl := Except.error.inj h
      exact waits_of_makeDirectory hmake
    · next other hdir =>
      obtain rfl := Except.error.inj h
      exact absurd rfl (leadsTo_eq_error hdir q)

theorem waiting_succ_of_waits (h : fs.Waits (p.take (n + 1))) :
    fs.waiting p (n + 1) = fs.waiting p n + 1 := by
  simp only [waiting, h.ensureDirectory]

theorem waiting_succ_of_not_waits (h : ¬ fs.Waits (p.take (n + 1))) :
    fs.waiting p (n + 1) = 0 := by
  unfold waiting
  split
  · next hensure => exact absurd (waits_of_ensureDirectory hensure) h
  · rfl

/-- Where entries are kept, what waits has waited from the first. -/
theorem Waits.of_keeps (h : after.Waits p) (hkeeps : fs.Keeps after) (htree : fs.IsTree) :
    fs.Waits p := by
  refine ⟨h.1, ?_⟩
  have hholder := h.2
  unfold holder at hholder ⊢
  rw [hkeeps.start] at hholder
  rcases hkeeps.followToDirectory_missing_or_eq htree (htree.directory_start p) maxLinks
    p.names.dropLast with hmissing | heq
  · exact hmissing
  · rwa [heq] at hholder

theorem Keeps.waiting_le (h : fs.Keeps after) (htree : fs.IsTree) (p : Path) (n : Nat) :
    after.waiting p n ≤ fs.waiting p n := by
  induction n with
  | zero => exact Nat.le_refl _
  | succ n ih =>
    by_cases hwaits : after.Waits (p.take (n + 1))
    · rw [waiting_succ_of_waits hwaits, waiting_succ_of_waits (hwaits.of_keeps h htree)]
      exact Nat.succ_le_succ ih
    · rw [waiting_succ_of_not_waits hwaits]
      exact Nat.zero_le _

theorem TooDeep.of_keeps (h : after.TooDeep limit p) (hkeeps : fs.Keeps after)
    (htree : fs.IsTree) : fs.TooDeep limit p :=
  Nat.lt_of_lt_of_le h (hkeeps.waiting_le htree p _)

theorem not_tooDeep_of_keeps (h : ¬ fs.TooDeep fs.limits.outputs p) (hkeeps : fs.Keeps after)
    (htree : fs.IsTree) : ¬ after.TooDeep after.limits.outputs p := by
  rw [hkeeps.limits]
  exact fun hdeep => h (hdeep.of_keeps hkeeps htree)

/-! ## Paths whose first name is missing -/

theorem followToDirectory_missing {name : String} {rest : List String}
    (hname : Path.isEntryName name = true) (hsize : name.utf8ByteSize ≤ maxNameBytes)
    (hfree : fs.entryAt (dir ++ [name]) = none) :
    fs.followToDirectory links dir (name :: rest) = .error .notFound := by
  obtain ⟨hdot, hdots⟩ := Path.ne_dot_of_isEntryName hname
  have hdescend : fs.descend dir (name :: rest) =
      if rest.isEmpty then .at (.vacant dir name) else .blocked .notFound := by
    rw [descend, if_neg hdot, if_neg hdots, if_neg (Nat.not_lt.2 hsize), hfree]
  unfold followToDirectory follow
  rw [hdescend]
  cases rest <;> rfl

/-- Where not even the first directory of a path is there, all of them wait but that one. -/
theorem waiting_of_missing {name : String} {rest : List String} (hlooked : checkPath p = .ok ())
    (habs : p.isAbsolute = true) (hnames : p.names = name :: rest)
    (hname : Path.isEntryName name = true) (hsize : name.utf8ByteSize ≤ maxNameBytes)
    (hfree : fs.entryAt [name] = none) (hn : n ≤ rest.length) : fs.waiting p (n + 1) = n := by
  have hstart : ∀ k, fs.start (p.take k) = [] := fun _ => if_pos habs
  induction n with
  | zero =>
    refine waiting_succ_of_not_waits fun hwaits => ?_
    have hholder := hwaits.2
    rw [holder, hstart, Path.take, hnames] at hholder
    simp [followToDirectory, follow, descend] at hholder
  | succ n ih =>
    have htake : p.names.take (n + 1 + 1) = name :: rest.take (n + 1) := by
      rw [hnames, List.take_succ_cons]
    have hwaits : fs.Waits (p.take (n + 1 + 1)) := by
      refine ⟨checkPath_take hlooked (by simp [htake]), ?_⟩
      have hlength : (rest.take (n + 1)).length = n + 1 := by
        rw [List.length_take, Nat.min_eq_left hn]
      have habove : (p.take (n + 1 + 1)).names.dropLast = name :: (rest.take (n + 1)).dropLast := by
        rw [Path.take, htake,
          List.dropLast_cons_of_ne_nil (List.ne_nil_of_length_eq_add_one hlength)]
      rw [holder, hstart, habove]
      exact followToDirectory_missing hname hsize hfree
    rw [waiting_succ_of_waits hwaits, ih (Nat.le_of_succ_le hn)]

theorem hasEntry_of_missing {name : String} {rest : List String} (hlooked : checkPath p = .ok ())
    (habs : p.isAbsolute = true) (hnames : p.names = name :: rest)
    (hname : Path.isEntryName name = true) (hsize : name.utf8ByteSize ≤ maxNameBytes)
    (hfree : fs.entryAt [name] = none) : fs.hasEntry p = .ok false := by
  obtain ⟨hdot, hdots⟩ := Path.ne_dot_of_isEntryName hname
  have hstart : fs.start p = [] := if_pos habs
  have hdescend : fs.descend [] (name :: rest) =
      if rest.isEmpty then .at (.vacant [] name) else .blocked .notFound := by
    rw [descend, if_neg hdot, if_neg hdots, if_neg (Nat.not_lt.2 hsize), List.nil_append, hfree]
  have hlocate : fs.locate p = .error (.obstructed .notFound p) := by
    unfold locate arrive follow
    rw [hlooked, hstart, hnames, hdescend]
    cases rest <;> rfl
  simp only [hasEntry, leadsTo, hlocate, Obstacle.meansAbsent, if_true]

theorem tooDeep_missing_iff {name : String} {rest : List String} (hlooked : checkPath p = .ok ())
    (habs : p.isAbsolute = true) (hnames : p.names = name :: rest)
    (hname : Path.isEntryName name = true) (hsize : name.utf8ByteSize ≤ maxNameBytes)
    (hfree : fs.entryAt [name] = none) : fs.TooDeep limit p ↔ limit.calls < rest.length := by
  rw [TooDeep, hnames, List.length_cons,
    waiting_of_missing hlooked habs hnames hname hsize hfree (Nat.le_refl _)]

end ResourceAccessors.FileSystem
