import ResourceAccessors.Proofs.FileSystem.Waiting

/-! Where a file cannot be saved. The way to a file that can be read leads through directories, none
of which has to be added, and what is read there can be written. So where saving fails there is no
file to be read afterwards, old or new. -/
namespace ResourceAccessors.FileSystem
set_option autoImplicit false

variable {fs after partway : FileSystem} {p : Path} {dir loc : Location}
  {names rest : List String} {links n : Nat} {slashed : Bool} {arrival : Arrival} {place : Place}
  {bytes old : List UInt8} {fault : FileFault} {limit : CallLimit}

/-! ## The way to an entry -/

/-- Names with more names behind them that can be walked lead to a directory or meet a link. -/
theorem descend_front {d : Descent} (htree : fs.IsTree) (hd : fs.entryAt dir = some .directory)
    (hrest : rest ≠ []) (hwalk : fs.descend dir (names ++ rest) = d)
    (hfree : ∀ obstacle, d ≠ .blocked obstacle) :
    (∃ loc, fs.descend dir names = .at (.found loc) ∧ fs.entryAt loc = some .directory) ∨
      ∃ holder target more, fs.descend dir names = .link holder target more := by
  have hempty : ∀ names : List String, (names ++ rest).isEmpty = false := by simp [hrest]
  fun_induction descend fs dir names with
  | case1 dir => exact .inl ⟨dir, rfl, hd⟩
  | case2 dir names ih =>
    rw [List.cons_append, descend, if_pos rfl] at hwalk
    exact ih hd hwalk
  | case3 dir names hdot ih =>
    rw [List.cons_append, descend, if_neg hdot, if_pos rfl] at hwalk
    exact ih (htree.directory_dropLast hd) hwalk
  | case4 dir name names h1 h2 hsize =>
    rw [List.cons_append, descend, if_neg h1, if_neg h2, if_pos hsize] at hwalk
    exact absurd hwalk.symm (hfree _)
  | case5 dir name names h1 h2 hsize hnone _ | case6 dir name names h1 h2 hsize hnone _ =>
    rw [List.cons_append, descend, if_neg h1, if_neg h2, if_neg hsize, hnone] at hwalk
    simp only [hempty, Bool.false_eq_true, if_false] at hwalk
    exact absurd hwalk.symm (hfree _)
  | case7 dir name names h1 h2 hsize hdir ih =>
    rw [List.cons_append, descend, if_neg h1, if_neg h2, if_neg hsize, hdir] at hwalk
    exact ih hdir hwalk
  | case8 dir name names h1 h2 hsize _ hfile _ | case9 dir name names h1 h2 hsize _ hfile _ =>
    rw [List.cons_append, descend, if_neg h1, if_neg h2, if_neg hsize, hfile] at hwalk
    simp only [hempty, Bool.false_eq_true, if_false] at hwalk
    exact absurd hwalk.symm (hfree _)
  | case10 dir name names _ _ _ target hlink => exact .inr ⟨_, _, _, rfl⟩

/-- Where a walk through links comes along more names, it comes to a directory at the first of them
or to a link, behind whose target it goes on. -/
theorem follow_front (htree : fs.IsTree) (hd : fs.entryAt dir = some .directory) (hrest : rest ≠ [])
    (h : fs.follow links slashed dir (names ++ rest) = .ok arrival) :
    (∃ loc, fs.descend dir names = .at (.found loc) ∧ fs.entryAt loc = some .directory) ∨
      ∃ fewer holder target more asked, links = fewer + 1 ∧
        fs.descend dir names = .link holder target more ∧ fs.entryAt holder = some .directory ∧
        fs.follow fewer asked (targetStart holder target) (targetNames target ++ more ++ rest) =
          .ok arrival := by
  have hfree : ∀ obstacle, fs.descend dir (names ++ rest) ≠ .blocked obstacle := by
    intro obstacle hblocked
    rw [follow_of_blocked hblocked] at h
    simp at h
  rcases descend_front htree hd hrest rfl hfree with hfound | ⟨holder, target, more, hlink⟩
  · exact .inl hfound
  · have hholder := htree.descended hd names
    rw [hlink] at hholder
    rw [follow, descend_append_link hlink] at h
    simp only at h
    cases links with
    | zero => simp at h
    | succ fewer =>
      rw [← List.append_assoc] at h
      exact .inr ⟨fewer, holder, target, more, _, rfl, hlink, hholder, h⟩

theorem exists_follow_front {ends : Bool} (htree : fs.IsTree)
    (hd : fs.entryAt dir = some .directory) (hrest : rest ≠ [])
    (h : fs.follow links slashed dir (names ++ rest) = .ok arrival) :
    ∃ loc slashed, fs.follow links ends dir names = .ok ⟨.found loc, slashed⟩ ∧
      fs.entryAt loc = some .directory := by
  induction links generalizing slashed ends dir names with
  | zero =>
    rcases follow_front htree hd hrest h with ⟨loc, hfront, hloc⟩ | ⟨fewer, _, _, _, _, hzero, -⟩
    · exact ⟨loc, ends, follow_of_descend hfront, hloc⟩
    · exact absurd hzero.symm (Nat.succ_ne_zero fewer)
  | succ links ih =>
    rcases follow_front htree hd hrest h with
      ⟨loc, hfront, hloc⟩ | ⟨fewer, holder, target, more, asked, hfewer, hlink, hholder, hgoes⟩
    · exact ⟨loc, ends, follow_of_descend hfront, hloc⟩
    · obtain rfl := Nat.succ.inj hfewer
      -- the names in front of `rest` are now those of the target and what was left behind the link
      rw [follow, hlink]
      exact ih (directory_targetStart hholder target) hgoes

/-- The names above an entry lead to a directory each. -/
theorem exists_directory_take (htree : fs.IsTree) (h : fs.locate p = .ok loc)
    (hn : n < p.names.length) : ∃ dir slashed,
      fs.follow maxLinks false (fs.start p) (p.names.take n) = .ok ⟨.found dir, slashed⟩ ∧
        fs.entryAt dir = some .directory := by
  obtain ⟨-, slashed, hfollow, -⟩ := locate_eq_ok_iff.1 h
  have hrest : p.names.drop n ≠ [] := by simpa using hn
  rw [← List.take_append_drop n p.names] at hfollow
  exact exists_follow_front htree (htree.directory_start p) hrest hfollow

theorem isDirectory_take (htree : fs.IsTree) (h : fs.locate p = .ok loc) (h0 : n ≠ 0)
    (hn : n < p.names.length) : fs.isDirectory (p.take n) = .ok true := by
  obtain ⟨dir, slashed, hfollow, hdir⟩ := exists_directory_take htree h hn
  have hne : p.names.take n ≠ [] := by
    rw [ne_eq, List.take_eq_nil_iff, not_or]
    exact ⟨h0, List.ne_nil_of_length_pos (Nat.zero_lt_of_lt hn)⟩
  have hlooked := checkPath_take (locate_eq_ok_iff.1 h).1 hne
  exact isDirectory_eq_true_iff.2
    ⟨dir, locate_eq_ok_iff.2 ⟨hlooked, slashed, hfollow, fun _ => hdir⟩, hdir⟩

theorem exists_holder_take (htree : fs.IsTree) (h : fs.locate p = .ok loc)
    (hn : n < p.names.length) : ∃ dir, fs.holder (p.take n) = .ok dir := by
  obtain ⟨dir, slashed, hfollow, hdir⟩ :=
    exists_directory_take (n := n - 1) htree h (Nat.lt_of_le_of_lt (Nat.sub_le n 1) hn)
  have hnames : (p.take n).names.dropLast = p.names.take (n - 1) := List.dropLast_take hn
  have hstart : fs.start (p.take n) = fs.start p := rfl
  refine ⟨dir, ?_⟩
  unfold holder followToDirectory
  rw [hnames, hstart, hfollow]
  simp only [hdir, if_true]

/-- No directory on the way to an entry has to be added. -/
theorem ensureDirectory_take (htree : fs.IsTree) (h : fs.locate p = .ok loc) (h0 : n ≠ 0)
    (hn : n < p.names.length) : ∃ after, fs.ensureDirectory (p.take n) = .ok after := by
  have hdir := isDirectory_take htree h h0 hn
  obtain ⟨dir, hholder⟩ := exists_holder_take htree h hn
  obtain ⟨reached, hreached, -⟩ := isDirectory_eq_true_iff.1 hdir
  have hlooked := (locate_eq_ok_iff.1 hreached).1
  cases hmake : fs.makeDirectory (p.take n) with
  | ok added => exact ⟨added, by simp only [ensureDirectory, hmake]⟩
  | error fault =>
    -- the holder is there, so only what stands under the name can be in the way
    have hfault : fault = .obstructed .taken (p.take n) ∨
        fault = .obstructed .nameTooLong (p.take n) := by
      simp only [makeDirectory, hlooked, hholder] at hmake
      split at hmake
      · exact .inl (Except.error.inj hmake).symm
      · exact .inl (Except.error.inj hmake).symm
      · split at hmake
        · exact .inr (Except.error.inj hmake).symm
        · split at hmake
          · exact .inl (Except.error.inj hmake).symm
          · simp at hmake
    refine ⟨fs, ?_⟩
    rcases hfault with rfl | rfl <;> simp only [ensureDirectory, hmake, hdir]

/-! ## Adding directories -/

/-- Where adding directories stops, one of them cannot be added. -/
theorem exists_ensureDirectory_error (h : fs.makeDirectoriesTo p n = (.error fault, partway)) :
    ∃ k < n, partway.ensureDirectory (p.take (k + 1)) = .error fault := by
  induction n with
  | zero => simp [makeDirectoriesTo] at h
  | succ n ih =>
    unfold makeDirectoriesTo at h
    split at h
    · simp at h
    · split at h
      · next hmore =>
        obtain ⟨hfault, rfl⟩ := Prod.mk.inj h
        obtain rfl := Except.error.inj hfault
        obtain ⟨k, hk, hensure⟩ := ih hmore
        exact ⟨k, Nat.lt_succ_of_lt hk, hensure⟩
      · split at h
        · simp at h
        · next hensure =>
          obtain ⟨hfault, rfl⟩ := Prod.mk.inj h
          obtain rfl := Except.error.inj hfault
          exact ⟨n, Nat.lt_succ_self n, hensure⟩
    · next hensure =>
      obtain ⟨hfault, rfl⟩ := Prod.mk.inj h
      obtain rfl := Except.error.inj hfault
      exact ⟨n, Nat.lt_succ_self n, hensure⟩

/-- No directory on the way to an entry waits. -/
theorem not_tooDeep_parent (htree : fs.IsTree) (h : fs.locate p = .ok loc) :
    ¬ fs.TooDeep limit p.parent := by
  unfold TooDeep
  cases hn : p.parent.names.length with
  | zero => exact Nat.not_lt_zero _
  | succ n =>
    have hlt : n + 1 < p.names.length := by
      rw [Path.parent, List.length_dropLast] at hn
      omega
    obtain ⟨after, hensured⟩ := ensureDirectory_take htree h (Nat.succ_ne_zero n) hlt
    have hwaits : ¬ fs.Waits (p.parent.take (n + 1)) := by
      rw [Path.take_parent_of_lt hlt]
      intro hwaits
      simp [hwaits.ensureDirectory] at hensured
    rw [waiting_succ_of_not_waits hwaits]
    exact Nat.not_lt_zero _

theorem makeDirectories_parent_ne_error (htree : partway.IsTree)
    (h : partway.locate p = .ok loc) :
    fs.makeDirectories limit p.parent ≠ (.error fault, partway) := by
  intro hmake
  by_cases hdeep : fs.TooDeep limit p.parent
  · rw [makeDirectories_of_tooDeep hdeep] at hmake
    obtain rfl := (Prod.mk.inj hmake).2
    exact not_tooDeep_parent htree h hdeep
  · rw [makeDirectories_of_not_tooDeep hdeep] at hmake
    obtain ⟨k, hk, hensure⟩ := exists_ensureDirectory_error hmake
    have hk : k < p.names.length - 1 := by simpa [Path.parent] using hk
    obtain ⟨after, hensured⟩ := ensureDirectory_take (n := k + 1) htree h (by omega) (by omega)
    rw [Path.take_parent_of_lt (by omega), hensured] at hensure
    simp at hensure

/-! ## Writing what is read -/

/-- Where a walk is not asked for a directory, a file is written where it would be read. -/
theorem followToWrite_of_follow
    (h : fs.follow links slashed dir names = .ok ⟨place, false⟩) :
    slashed = false ∧ fs.followToWrite links dir names = .ok place := by
  induction links generalizing slashed dir names with
  | zero =>
    rw [follow] at h
    rw [followToWrite]
    cases hwalk : fs.descend dir names <;> simp_all
  | succ links ih =>
    rw [follow] at h
    rw [followToWrite]
    cases hwalk : fs.descend dir names with
    | «at» reached =>
      rw [hwalk] at h
      simp_all
    | blocked obstacle =>
      rw [hwalk] at h
      simp at h
    | link holder target more =>
      rw [hwalk] at h
      obtain ⟨hslashed, hwrite⟩ := ih h
      simp only [Bool.or_eq_false_iff] at hslashed
      refine ⟨hslashed.1, ?_⟩
      simp only [hslashed.2, Bool.false_and, Bool.false_eq_true, if_false]
      exact hwrite

/-- A file that can be read can be written. -/
theorem exists_write_of_read (h : fs.read p = .ok old) (bytes : List UInt8) :
    ∃ after, fs.write p bytes = .ok after := by
  obtain ⟨loc, hlocate, hfile⟩ := read_eq_ok_iff.1 h
  obtain ⟨hlooked, slashed, hfollow, hslashed⟩ := locate_eq_ok_iff.1 hlocate
  obtain rfl : slashed = false := by
    cases slashed with
    | false => rfl
    | true => simp [hfile] at hslashed
  have harrive : fs.arriveToWrite p = .ok (.found loc) := by
    simp only [arriveToWrite, hlooked, (followToWrite_of_follow hfollow).2]
  exact ⟨fs.set loc (.file bytes), by simp only [write, harrive, hfile]⟩

/-- Where a file cannot be saved, none can be read afterwards. -/
theorem not_read_of_save_error (htree : fs.IsTree)
    (h : fs.save limit p bytes = (.error fault, after)) : after.read p ≠ .ok old := by
  intro hread
  have hafter := (made_of_save_error h).isTree htree
  obtain ⟨loc, hlocate, -⟩ := read_eq_ok_iff.1 hread
  unfold save at h
  split at h
  · next hmake =>
    obtain ⟨-, rfl⟩ := Prod.mk.inj h
    exact makeDirectories_parent_ne_error hafter hlocate hmake
  · split at h
    · next hwrite =>
      obtain ⟨-, rfl⟩ := Prod.mk.inj h
      obtain ⟨written, hwritten⟩ := exists_write_of_read hread bytes
      rw [hwrite] at hwritten
      simp at hwritten
    · simp at h

end ResourceAccessors.FileSystem
