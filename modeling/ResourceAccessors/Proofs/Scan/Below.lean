import ResourceAccessors.Scan
import ResourceAccessors.Proofs.FileSystem.Tree

/-! What is below a directory. The names in a directory come in the order of their locations, so a
file system lists the names of any other that it keeps in the same order, with new ones in between:
taking those out gives the old list back, at every depth. A scan visits the entries below a
directory and lists the directories among them. -/
namespace ResourceAccessors
set_option autoImplicit false

/-- Two lists in the same strict order with the same members are one list. -/
theorem eq_of_pairwise_of_mem_iff {α : Type} {lt : α → α → Prop} {l m : List α}
    (hasymm : ∀ {a b}, lt a b → ¬ lt b a) (hl : l.Pairwise lt) (hm : m.Pairwise lt)
    (hmem : ∀ a, a ∈ l ↔ a ∈ m) : l = m := by
  have hne : ∀ {a b}, lt a b → a ≠ b := by
    rintro a b hab rfl
    exact hasymm hab hab
  have hperm := (List.perm_ext_iff_of_nodup (hl.imp hne) (hm.imp hne)).2 fun {a} => hmem a
  exact hperm.eq_of_pairwise (fun a b _ _ hab hba => absurd hba (hasymm hab)) hl hm

namespace FileSystem

variable {fs after : FileSystem} {dir loc : Location} {name : String} {names : List String}
  {n m : Nat}

/-! ## Locations in order -/

/-- The locations of all entries but the root. -/
def locations (fs : FileSystem) : List Location :=
  fs.entries.keys.filter (· ≠ [])

theorem mem_locations : loc ∈ fs.locations ↔ loc ≠ [] ∧ (fs.entryAt loc).isSome = true := by
  simp only [locations, List.mem_filter, decide_eq_true_eq, Std.ExtTreeMap.mem_keys]
  constructor
  · rintro ⟨hmem, hne⟩
    refine ⟨hne, ?_⟩
    rw [entryAt, if_neg hne]
    exact Std.ExtTreeMap.isSome_getElem?_iff_mem.2 hmem
  · rintro ⟨hne, hsome⟩
    rw [entryAt, if_neg hne] at hsome
    exact ⟨Std.ExtTreeMap.isSome_getElem?_iff_mem.1 hsome, hne⟩

theorem locations_ordered (fs : FileSystem) :
    fs.locations.Pairwise fun a b => compare a b = .lt :=
  fs.entries.ordered_keys.filter _

theorem locations_eq_filter (hk : fs.Keeps after) :
    fs.locations = after.locations.filter fun loc => (fs.entryAt loc).isSome := by
  have hmem : ∀ loc, loc ∈ fs.locations ↔
      loc ∈ after.locations.filter fun loc => (fs.entryAt loc).isSome := by
    intro loc
    rw [List.mem_filter, mem_locations, mem_locations]
    constructor
    · rintro ⟨hne, hsome⟩
      obtain ⟨e, he⟩ := Option.isSome_iff_exists.1 hsome
      obtain ⟨e', he', -⟩ := hk.entry he
      exact ⟨⟨hne, by rw [he']; rfl⟩, hsome⟩
    · rintro ⟨⟨hne, -⟩, hsome⟩
      exact ⟨hne, hsome⟩
  -- both lists are ordered by the same comparison, so the same members come in the same places
  exact eq_of_pairwise_of_mem_iff Std.OrientedCmp.not_lt_of_lt fs.locations_ordered
    (after.locations_ordered.filter _) hmem

/-! ## The names in a directory -/

/-- The name by which a location is listed in a directory. -/
def childOf (dir loc : Location) : Option String :=
  match loc.getLast? with
  | some name => if loc.dropLast = dir && Path.isEntryName name then some name else none
  | none => none

theorem childOf_eq_some_iff :
    childOf dir loc = some name ↔ loc = dir ++ [name] ∧ Path.isEntryName name = true := by
  unfold childOf
  cases hlast : loc.getLast? with
  | none =>
    rw [List.getLast?_eq_none_iff] at hlast
    simp [hlast]
  | some last =>
    obtain ⟨above, rfl⟩ := List.getLast?_eq_some_iff.1 hlast
    simp only [List.dropLast_concat, Bool.and_eq_true, decide_eq_true_eq,
      Option.ite_none_right_eq_some, Option.some.injEq, List.append_singleton_inj]
    constructor
    · rintro ⟨⟨hdir, hname⟩, rfl⟩
      exact ⟨⟨hdir, rfl⟩, hname⟩
    · rintro ⟨⟨hdir, rfl⟩, hname⟩
      exact ⟨⟨hdir, hname⟩, rfl⟩

theorem children_eq (fs : FileSystem) (dir : Location) :
    fs.children dir = fs.locations.filterMap (childOf dir) := by
  have hroot : ∀ loc, (if decide (loc ≠ []) = true then childOf dir loc else none) =
      childOf dir loc := by
    intro loc
    by_cases h : loc = []
    · subst h
      rfl
    · simp [h]
  rw [locations, List.filterMap_filter]
  simp only [hroot]
  rfl

theorem mem_children : name ∈ fs.children dir ↔
    Path.isEntryName name = true ∧ (fs.entryAt (dir ++ [name])).isSome = true := by
  rw [children_eq, List.mem_filterMap]
  constructor
  · rintro ⟨loc, hloc, hchild⟩
    obtain ⟨rfl, hname⟩ := childOf_eq_some_iff.1 hchild
    exact ⟨hname, (mem_locations.1 hloc).2⟩
  · rintro ⟨hname, hsome⟩
    exact ⟨dir ++ [name], mem_locations.2 ⟨by simp, hsome⟩, childOf_eq_some_iff.2 ⟨rfl, hname⟩⟩

theorem children_eq_filter (hk : fs.Keeps after) (dir : Location) :
    fs.children dir =
      (after.children dir).filter fun name => (fs.entryAt (dir ++ [name])).isSome := by
  rw [children_eq, children_eq, locations_eq_filter hk, List.filterMap_filter,
    List.filter_filterMap]
  congr 1
  funext loc
  cases hchild : childOf dir loc with
  | none => simp
  | some name =>
    obtain ⟨rfl, -⟩ := childOf_eq_some_iff.1 hchild
    simp [Option.filter]

/-! ## All entries below a directory -/

/-- What a listing says of one name in a directory: the name, and all below it with it in front. -/
def listed (fs : FileSystem) (n : Nat) (dir : Location) (name : String) : List (List String) :=
  [name] ::
    (if fs.entryAt (dir ++ [name]) = some .directory then fs.below n (dir ++ [name]) else []).map
      (name :: ·)

theorem below_succ (fs : FileSystem) (n : Nat) (dir : Location) :
    fs.below (n + 1) dir = (fs.children dir).flatMap (fs.listed n dir) := rfl

theorem of_mem_below (h : names ∈ fs.below n dir) :
    names ≠ [] ∧ names.length ≤ n ∧ (∀ m ∈ names, Path.isEntryName m = true) ∧
      (fs.entryAt (dir ++ names)).isSome = true := by
  induction n generalizing dir names with
  | zero => simp [below] at h
  | succ n ih =>
    rw [below_succ, List.mem_flatMap] at h
    obtain ⟨name, hname, hnames⟩ := h
    obtain ⟨hentry, hsome⟩ := mem_children.1 hname
    rcases List.mem_cons.1 hnames with rfl | hdeep
    · refine ⟨by simp, by simp, by simpa using hentry, hsome⟩
    · obtain ⟨rest, hrest, rfl⟩ := List.mem_map.1 hdeep
      split at hrest
      · obtain ⟨-, hlength, hentries, hthere⟩ := ih hrest
        rw [List.append_assoc] at hthere
        exact ⟨by simp, by simpa using hlength, List.forall_mem_cons.2 ⟨hentry, hentries⟩, hthere⟩
      · simp at hrest

theorem mem_below_iff (htree : fs.IsTree) : names ∈ fs.below n dir ↔
    names ≠ [] ∧ names.length ≤ n ∧ (∀ m ∈ names, Path.isEntryName m = true) ∧
      (fs.entryAt (dir ++ names)).isSome = true := by
  refine ⟨of_mem_below, ?_⟩
  rintro ⟨hne, hlength, hnames, hthere⟩
  induction n generalizing dir names with
  | zero => exact absurd (List.length_eq_zero_iff.1 (Nat.le_zero.1 hlength)) hne
  | succ n ih =>
    obtain ⟨name, rest, rfl⟩ := List.exists_cons_of_ne_nil hne
    obtain ⟨hname, hrest⟩ := List.forall_mem_cons.1 hnames
    have happend : dir ++ name :: rest = dir ++ [name] ++ rest := by simp
    rw [below_succ, List.mem_flatMap]
    cases rest with
    | nil => exact ⟨name, mem_children.2 ⟨hname, hthere⟩, List.mem_cons_self ..⟩
    | cons next more =>
      rw [happend] at hthere
      have hdir := htree.directory_of_append next more hthere
      have hdeep := ih (List.cons_ne_nil next more) (Nat.le_of_succ_le_succ hlength) hrest hthere
      refine ⟨name, mem_children.2 ⟨hname, by rw [hdir]; rfl⟩, List.mem_cons_of_mem _ ?_⟩
      rw [if_pos hdir]
      exact List.mem_map_of_mem hdeep

theorem listed_eq_filter (hk : fs.Keeps after) (htree : fs.IsTree)
    (ih : ∀ dir, fs.below n dir =
      (after.below n dir).filter fun names => (fs.entryAt (dir ++ names)).isSome)
    (dir : Location) (name : String) :
    (after.listed n dir name).filter (fun names => (fs.entryAt (dir ++ names)).isSome) =
      if (fs.entryAt (dir ++ [name])).isSome then fs.listed n dir name else [] := by
  cases he : fs.entryAt (dir ++ [name]) with
  | none =>
    refine List.filter_eq_nil_iff.2 fun names hnames hsome => ?_
    rcases List.mem_cons.1 hnames with rfl | hdeep
    · simp [he] at hsome
    · obtain ⟨rest, hrest, rfl⟩ := List.mem_map.1 hdeep
      -- an entry below a name that is not there has no directory to be in
      have hrest : rest ≠ [] := by
        split at hrest
        · exact (of_mem_below hrest).1
        · simp at hrest
      obtain ⟨next, more, rfl⟩ := List.exists_cons_of_ne_nil hrest
      have hdir : fs.entryAt (dir ++ [name]) = some .directory := by
        refine htree.directory_of_append next more ?_
        rwa [List.append_assoc]
      simp [he] at hdir
  | some e =>
    obtain ⟨e', he', hkind⟩ := hk.entry he
    have hdir : e' = .directory ↔ e = .directory := by
      cases e <;> cases e' <;> simp_all [Entry.SameKind]
    simp only [listed, he, he', Option.some.injEq, Option.isSome_some, if_true, hdir,
      List.filter_cons]
    congr 1
    rw [List.filter_map]
    congr 1
    split
    · rw [ih (dir ++ [name])]
      simp only [Function.comp_def, List.append_assoc, List.singleton_append]
    · rfl

/-- What is below a directory is what was, with new entries in between. -/
theorem below_eq_filter (hk : fs.Keeps after) (htree : fs.IsTree) (n : Nat) (dir : Location) :
    fs.below n dir =
      (after.below n dir).filter fun names => (fs.entryAt (dir ++ names)).isSome := by
  induction n generalizing dir with
  | zero => rfl
  | succ n ih =>
    rw [below_succ, below_succ, children_eq_filter hk, List.filter_flatMap]
    simp only [listed_eq_filter hk htree ih]
    induction after.children dir with
    | nil => rfl
    | cons name more ihmore =>
      rw [List.flatMap_cons, List.filter_cons]
      split
      · rw [List.flatMap_cons, ihmore]
      · rw [ihmore, List.nil_append]

/-! ## How deep to look -/

theorem le_foldl_length (locs : List Location) (d : Nat) :
    d ≤ locs.foldl (fun d loc => max d loc.length) d ∧
      ∀ loc ∈ locs, loc.length ≤ locs.foldl (fun d loc => max d loc.length) d := by
  induction locs generalizing d with
  | nil => simp
  | cons loc locs ih =>
    obtain ⟨hd, hlocs⟩ := ih (max d loc.length)
    rw [List.foldl_cons, List.forall_mem_cons]
    exact ⟨by omega, by omega, hlocs⟩

theorem length_lt_depth (h : (fs.entryAt loc).isSome = true) : loc.length < fs.depth := by
  refine Nat.lt_succ_of_le ?_
  by_cases hroot : loc = []
  · simp [hroot]
  · have hloc := mem_locations.2 ⟨hroot, h⟩
    exact (le_foldl_length fs.entries.keys 0).2 loc (List.mem_filter.1 hloc).1

/-- Looking deeper than there are entries finds no more. -/
theorem below_eq_below {d : Nat} (hd : ∀ loc, (fs.entryAt loc).isSome = true → loc.length ≤ d)
    (hn : d ≤ dir.length + n) (hm : d ≤ dir.length + m) : fs.below n dir = fs.below m dir := by
  have hnone : ∀ {dir : Location}, d ≤ dir.length → fs.children dir = [] := by
    intro dir hdir
    refine List.eq_nil_iff_forall_not_mem.2 fun name hname => ?_
    have hlength := hd _ (mem_children.1 hname).2
    rw [List.length_append, List.length_singleton] at hlength
    omega
  induction n generalizing m dir with
  | zero =>
    cases m with
    | zero => rfl
    | succ m => rw [below_succ, hnone hn, below, List.flatMap_nil]
  | succ n ih =>
    cases m with
    | zero => rw [below_succ, hnone hm, below, List.flatMap_nil]
    | succ m =>
      have hlisted : fs.listed n dir = fs.listed m dir := by
        funext name
        have hdeeper : fs.below n (dir ++ [name]) = fs.below m (dir ++ [name]) := by
          refine ih ?_ ?_ <;> rw [List.length_append, List.length_singleton] <;> omega
        rw [listed, listed, hdeeper]
      rw [below_succ, below_succ, hlisted]

end FileSystem

/-! ## What is visited -/

namespace Scan

variable {fs : FileSystem} {dir : Location} {name : String} {names : List String}
  {visited : List Visit} {n : Nat}

theorem entry_mem_under_iff : Visit.entry names ∈ visited.map (.under name) ↔
    ∃ more, Visit.entry more ∈ visited ∧ name :: more = names := by
  rw [List.mem_map]
  constructor
  · rintro ⟨visit, hvisit, heq⟩
    cases visit with
    | entry more => exact ⟨more, hvisit, Visit.entry.inj heq⟩
    | listing more => cases heq
  · rintro ⟨more, hmore, rfl⟩
    exact ⟨.entry more, hmore, rfl⟩

theorem listing_mem_under_iff : Visit.listing names ∈ visited.map (.under name) ↔
    ∃ more, Visit.listing more ∈ visited ∧ name :: more = names := by
  rw [List.mem_map]
  constructor
  · rintro ⟨visit, hvisit, heq⟩
    cases visit with
    | entry more => cases heq
    | listing more => exact ⟨more, hvisit, Visit.listing.inj heq⟩
  · rintro ⟨more, hmore, rfl⟩
    exact ⟨.listing more, hmore, rfl⟩

/-- The entries that are visited are those below the directory. -/
theorem entry_mem_visits_iff : Visit.entry names ∈ visits fs n dir ↔ names ∈ fs.below n dir := by
  induction n generalizing dir names with
  | zero => simp [visits, FileSystem.below]
  | succ n ih =>
    have hdeep : ∀ name, (Visit.entry names ∈ if fs.entryAt (dir ++ [name]) = some .directory then
          (visits fs n (dir ++ [name])).map (.under name) else []) ↔
        names ∈ (if fs.entryAt (dir ++ [name]) = some .directory then
          fs.below n (dir ++ [name]) else []).map (name :: ·) := by
      intro name
      split
      · rw [entry_mem_under_iff, List.mem_map]
        simp only [ih]
      · simp
    rw [FileSystem.below_succ, List.mem_flatMap]
    simp only [visits, List.mem_append, List.mem_map, Visit.entry.injEq, List.mem_cons,
      List.mem_flatMap, hdeep, FileSystem.listed, reduceCtorEq, false_or]
    constructor
    · rintro (⟨name, hname, rfl⟩ | ⟨name, hname, h⟩)
      · exact ⟨name, hname, .inl rfl⟩
      · exact ⟨name, hname, .inr h⟩
    · rintro ⟨name, hname, rfl | h⟩
      · exact .inl ⟨name, hname, rfl⟩
      · exact .inr ⟨name, hname, h⟩

/-- The directories that are listed are the one where the scan starts and those below it. -/
theorem listing_mem_visits_iff : Visit.listing names ∈ visits fs (n + 1) dir ↔
    names = [] ∨ (names ∈ fs.below n dir ∧ fs.entryAt (dir ++ names) = some .directory) := by
  induction n generalizing dir names with
  | zero => simp [visits, FileSystem.below]
  | succ n ih =>
    rw [visits, FileSystem.below_succ, List.mem_flatMap]
    simp only [List.mem_append, List.mem_map, reduceCtorEq, and_false, exists_false, false_or,
      List.mem_cons, Visit.listing.injEq, List.mem_flatMap, FileSystem.listed]
    refine or_congr Iff.rfl ⟨?_, ?_⟩
    · rintro ⟨name, hname, h⟩
      split at h
      · next hdir =>
        obtain ⟨more, hmore, rfl⟩ := listing_mem_under_iff.1 h
        rcases ih.1 hmore with rfl | ⟨hbelow, hdeeper⟩
        · exact ⟨⟨name, hname, .inl rfl⟩, hdir⟩
        · refine ⟨⟨name, hname, .inr ⟨more, ?_, rfl⟩⟩, by simpa using hdeeper⟩
          rwa [if_pos hdir]
      · simp at h
    · rintro ⟨⟨name, hname, rfl | ⟨more, hmore, rfl⟩⟩, hdir⟩
      · refine ⟨name, hname, ?_⟩
        rw [if_pos hdir]
        exact listing_mem_under_iff.2 ⟨[], ih.2 (.inl rfl), rfl⟩
      · refine ⟨name, hname, ?_⟩
        split at hmore
        · next habove =>
          rw [if_pos habove]
          exact listing_mem_under_iff.2 ⟨more, ih.2 (.inr ⟨hmore, by simpa using hdir⟩), rfl⟩
        · simp at hmore

end Scan

end ResourceAccessors
