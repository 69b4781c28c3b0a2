import ResourceAccessors.Proofs.FileSystem.Growth

/-! File systems without links. There an absolute path without dots is the location it leads to,
so what adding directories and writing files touch is known from their paths alone: the files
themselves, and directories above them that were missing. -/
namespace ResourceAccessors
set_option autoImplicit false

/-- An absolute path without dots. -/
structure Path.Plain (p : Path) : Prop where
  absolute : p.isAbsolute = true
  entryNames : ∀ n ∈ p.names, Path.isEntryName n = true

theorem Path.Plain.parent {p : Path} (h : p.Plain) : p.parent.Plain :=
  ⟨h.absolute, fun n hn => h.entryNames n (List.dropLast_subset _ hn)⟩

theorem Path.Plain.take {p : Path} (h : p.Plain) (n : Nat) : (p.take n).Plain :=
  ⟨h.absolute, fun m hm => h.entryNames m (List.mem_of_mem_take hm)⟩

theorem Path.ne_dot_of_isEntryName {n : String} (h : Path.isEntryName n = true) :
    n ≠ "." ∧ n ≠ ".." := by
  simp only [Path.isEntryName, Bool.and_eq_true, decide_eq_true_eq] at h
  exact ⟨h.1.1.2, h.1.2⟩

namespace FileSystem

def LinkFree (fs : FileSystem) : Prop :=
  ∀ loc target, fs.entryAt loc ≠ some (.link target)

variable {fs mid after ready : FileSystem} {p q : Path} {dir loc : Location} {name : String}
  {names : List String} {place : Place}

/-! ## Walks -/

theorem LinkFree.descend_ne_link (h : fs.LinkFree) (dir : Location) (names : List String)
    {d : Location} {target : String} {rest : List String} :
    fs.descend dir names ≠ .link d target rest := by
  fun_induction descend fs dir names with
  | case10 dir name rest _ _ _ target hlink => exact absurd hlink (h _ _)
  | case2 dir rest ih => exact ih
  | case3 dir rest _ ih => exact ih
  | case7 dir name rest _ _ _ _ ih => exact ih
  | _ => simp

theorem LinkFree.descend_of_follow {links : Nat} {slashed : Bool} {arrival : Arrival}
    (h : fs.LinkFree) (hf : fs.follow links slashed dir names = .ok arrival) :
    fs.descend dir names = .at arrival.place ∧ arrival.slashed = slashed := by
  unfold follow at hf
  split at hf
  · next place hp =>
    rw [Except.ok.injEq] at hf
    exact hf ▸ ⟨hp, rfl⟩
  · simp at hf
  · next hp => exact absurd hp (h.descend_ne_link dir names)

theorem LinkFree.descend_of_followToWrite {links : Nat} (h : fs.LinkFree)
    (hf : fs.followToWrite links dir names = .ok place) : fs.descend dir names = .at place := by
  unfold followToWrite at hf
  split at hf
  · next place' hp =>
    rw [Except.ok.injEq] at hf
    exact hf ▸ hp
  · simp at hf
  · next hp => exact absurd hp (h.descend_ne_link dir names)

theorem follow_of_descend {links : Nat} {slashed : Bool} (h : fs.descend dir names = .at place) :
    fs.follow links slashed dir names = .ok ⟨place, slashed⟩ := by
  unfold follow
  rw [h]

theorem follow_of_blocked {obstacle : Obstacle} {links : Nat} {slashed : Bool}
    (h : fs.descend dir names = .blocked obstacle) :
    fs.follow links slashed dir names = .error obstacle := by
  unfold follow
  rw [h]

theorem descend_plain (hnames : ∀ n ∈ names, Path.isEntryName n = true)
    (h : fs.descend dir names = .at place) :
    place.location = dir ++ names ∧ ∀ n ∈ names, n.utf8ByteSize ≤ maxNameBytes := by
  fun_induction descend fs dir names with
  | case1 dir =>
    rw [Descent.at.injEq] at h
    rw [← h, Place.location, List.append_nil]
    exact ⟨rfl, by simp⟩
  | case2 dir rest ih => exact absurd rfl (Path.ne_dot_of_isEntryName (hnames _ (by simp))).1
  | case3 dir rest _ ih => exact absurd rfl (Path.ne_dot_of_isEntryName (hnames _ (by simp))).2
  | case4 => simp at h
  | case5 dir name rest _ _ hsize _ hrest =>
    rw [Descent.at.injEq] at h
    rw [← h, List.isEmpty_iff.1 hrest]
    exact ⟨rfl, by simpa using Nat.le_of_not_lt hsize⟩
  | case6 => simp at h
  | case7 dir name rest _ _ hsize _ ih =>
    obtain ⟨hloc, hfits⟩ := ih (fun n hn => hnames n (List.mem_cons_of_mem _ hn)) h
    rw [hloc, List.append_assoc, List.forall_mem_cons]
    exact ⟨rfl, Nat.le_of_not_lt hsize, hfits⟩
  | case8 dir name rest _ _ hsize _ _ hrest =>
    rw [Descent.at.injEq] at h
    rw [← h, List.isEmpty_iff.1 hrest]
    exact ⟨rfl, by simpa using Nat.le_of_not_lt hsize⟩
  | case9 => simp at h
  | case10 => simp at h

theorem Written.location_eq {bytes : List UInt8} (h : fs.Written p bytes after place)
    (hl : fs.LinkFree) (hp : p.Plain) : place.location = p.names := by
  have hdescend := hl.descend_of_followToWrite (arriveToWrite_ok h.arrived).2
  rw [start, if_pos hp.absolute] at hdescend
  exact (descend_plain hp.entryNames hdescend).1

theorem Added.location_eq (h : fs.Added p after dir name) (hl : fs.LinkFree) (hp : p.Plain) :
    dir ++ [name] = p.names := by
  have hholder := h.holder
  unfold FileSystem.holder followToDirectory at hholder
  split at hholder
  · simp at hholder
  · simp at hholder
  · next hf =>
    split at hholder
    · rw [Except.ok.injEq] at hholder
      subst hholder
      have hdescend := (hl.descend_of_follow hf).1
      rw [start, if_pos hp.absolute] at hdescend
      have hloc := (descend_plain hp.parent.entryNames hdescend).1
      obtain ⟨above, habove⟩ := List.getLast?_eq_some_iff.1 h.last
      rw [Place.location, List.nil_append] at hloc
      rw [hloc, Path.parent, habove, List.dropLast_concat]
    · simp at hholder

/-! ## What changes -/

theorem LinkFree.set {e : Entry} (h : fs.LinkFree) (hloc : loc ≠ [])
    (he : ∀ target, e ≠ .link target) : (fs.set loc e).LinkFree := by
  intro l target
  rw [entryAt_set _ _ _ _ hloc]
  split
  · simpa using he target
  · exact h l target

theorem linkFree_empty (limits : Limits) : (empty limits).LinkFree := by
  intro loc target h
  by_cases hloc : loc = [] <;> simp [empty, entryAt, hloc] at h

/-- Files at some locations may have been written, and directories added above them where there
were none. Every other entry is as it was. -/
structure Grown (outputs : List Location) (fs after : FileSystem) : Prop where
  keeps : fs.Keeps after
  others : ∀ {loc}, loc ∉ outputs → after.entryAt loc = fs.entryAt loc ∨
    (fs.entryAt loc = none ∧ after.entryAt loc = some .directory ∧ ∃ out ∈ outputs, loc <+: out)

namespace Grown

variable {outputs more : List Location}

theorem refl (outputs : List Location) (fs : FileSystem) : Grown outputs fs fs :=
  ⟨.refl fs, fun _ => .inl rfl⟩

theorem mono (h : Grown outputs fs after) (hsub : outputs ⊆ more) : Grown more fs after := by
  refine ⟨h.keeps, fun hloc => ?_⟩
  rcases h.others fun hm => hloc (hsub hm) with heq | ⟨hfree, hdir, out, hout, hpre⟩
  · exact .inl heq
  · exact .inr ⟨hfree, hdir, out, hsub hout, hpre⟩

theorem trans (h1 : Grown outputs fs mid) (h2 : Grown outputs mid after) :
    Grown outputs fs after := by
  refine ⟨h1.keeps.trans h2.keeps, fun {loc} hloc => ?_⟩
  rcases h1.others hloc with heq | ⟨hfree, hdir, habove⟩
  · rw [← heq]
    exact h2.others hloc
  · exact .inr ⟨hfree, h2.keeps.directory hdir, habove⟩

theorem entryAt_eq {e : Entry} (h : Grown outputs fs after) (he : fs.entryAt loc = some e)
    (hloc : loc ∉ outputs) : after.entryAt loc = some e := by
  rcases h.others hloc with heq | ⟨hfree, -, -⟩
  · rw [heq, he]
  · simp [he] at hfree

end Grown

theorem Added.grown {out : Location} (h : fs.Added p after dir name) (hl : fs.LinkFree)
    (hp : p.Plain) (hout : p.names <+: out) : after.LinkFree ∧ Grown [out] fs after := by
  have hloc := h.location_eq hl hp
  have hne : p.names ≠ [] := by simp [← hloc]
  have hfree := h.free
  have heq := h.eq
  rw [hloc] at hfree heq
  refine ⟨heq ▸ hl.set hne (by simp), h.keeps, fun {loc} hmem => ?_⟩
  rw [heq, entryAt_set _ _ _ _ hne]
  by_cases hsame : loc = p.names
  · subst hsame
    exact .inr ⟨hfree, if_pos rfl, out, List.mem_singleton_self out, hout⟩
  · exact .inl (if_neg hsame)

theorem Made.grown {out : Location} (h : Made p fs after) (hl : fs.LinkFree) (hp : p.Plain)
    (hout : p.names <+: out) : after.LinkFree ∧ Grown [out] fs after := by
  induction h with
  | refl => exact ⟨hl, .refl _ _⟩
  | add n _ hmake ih =>
    obtain ⟨hmid, hgrown⟩ := ih
    obtain ⟨dir, name, ha⟩ := added_of_makeDirectory hmake
    have hbelow : (p.take n).names <+: out := (List.take_prefix n p.names).trans hout
    obtain ⟨hafter, hlast⟩ := ha.grown hmid (hp.take n) hbelow
    exact ⟨hafter, hgrown.trans hlast⟩

/-- Directories are added on the way of a path and nowhere else. -/
theorem Made.others (h : Made p fs after) (hl : fs.LinkFree) (hp : p.Plain) (loc : Location) :
    after.entryAt loc = fs.entryAt loc ∨
      (fs.entryAt loc = none ∧ after.entryAt loc = some .directory ∧ loc <+: p.names) := by
  induction h with
  | refl => exact .inl rfl
  | add n hmade hmake ih =>
    obtain ⟨dir, name, ha⟩ := added_of_makeDirectory hmake
    have hloc := ha.location_eq (hmade.grown hl hp (List.prefix_refl _)).1 (hp.take n)
    have hfree := ha.free
    rw [ha.eq, entryAt_set _ _ _ _ (by simp)]
    rw [hloc] at hfree ⊢
    by_cases hsame : loc = (p.take n).names
    · subst hsame
      rw [if_pos rfl]
      rw [hfree] at ih
      refine .inr ⟨?_, rfl, List.take_prefix n p.names⟩
      rcases ih with heq | ⟨-, hdir, -⟩
      · exact heq.symm
      · simp at hdir
    · rw [if_neg hsame]
      exact ih

theorem Written.grown {bytes : List UInt8} (h : fs.Written p bytes after place) (htree : fs.IsTree)
    (hl : fs.LinkFree) (hp : p.Plain) : after.LinkFree ∧ Grown [p.names] fs after := by
  have hloc := h.location_eq hl hp
  have hne : p.names ≠ [] := by
    intro hnil
    have hfile := h.entryAt_location
    rw [hloc, hnil, entryAt_nil] at hfile
    simp at hfile
  have heq := h.eq
  rw [hloc] at heq
  refine ⟨heq ▸ hl.set hne (by simp), h.keeps htree, fun {loc} hmem => .inl ?_⟩
  rw [heq, entryAt_set _ _ _ _ hne, if_neg (by simpa using hmem)]

/-! ## Lookups -/

theorem locate_eq_ok_iff :
    fs.locate p = .ok loc ↔ checkPath p = .ok () ∧ ∃ slashed,
      fs.follow maxLinks false (fs.start p) p.names = .ok ⟨.found loc, slashed⟩ ∧
        (slashed = true → fs.entryAt loc = some .directory) := by
  unfold locate arrive
  cases hlooked : checkPath p with
  | error fault => simp
  | ok u =>
    cases hf : fs.follow maxLinks false (fs.start p) p.names with
    | error obstacle => simp
    | ok arrival =>
      obtain ⟨place, slashed⟩ := arrival
      cases place with
      | vacant dir name => simp
      | found found =>
        cases slashed with
        | false => simp
        | true =>
          by_cases hdir : fs.entryAt found = some .directory
          · simp [hdir]
            rintro rfl
            exact hdir
          · simp [hdir]
            rintro rfl
            exact hdir

theorem leadsTo_eq_true_iff {test : Entry → Bool} :
    fs.leadsTo test p = .ok true ↔
      ∃ loc e, fs.locate p = .ok loc ∧ fs.entryAt loc = some e ∧ test e = true := by
  unfold leadsTo
  constructor
  · intro h
    split at h
    · next loc hloc =>
      rw [Except.ok.injEq, Option.any_eq_true] at h
      obtain ⟨e, he, hpasses⟩ := h
      exact ⟨loc, e, hloc, he, hpasses⟩
    · simp at h
    · split at h <;> simp at h
    · simp at h
  · rintro ⟨loc, e, hloc, he, hpasses⟩
    simp [hloc, he, hpasses]

theorem isDirectory_eq_true_iff :
    fs.isDirectory p = .ok true ↔
      ∃ dir, fs.locate p = .ok dir ∧ fs.entryAt dir = some .directory := by
  refine leadsTo_eq_true_iff.trans ?_
  constructor
  · rintro ⟨dir, e, hdir, he, hkind⟩
    cases e <;> simp_all
  · rintro ⟨dir, hdir, he⟩
    exact ⟨dir, .directory, hdir, he, rfl⟩

/-- A path leads to a file exactly if one can be read there. -/
theorem isFile_eq_true_iff : fs.isFile p = .ok true ↔ ∃ bytes, fs.read p = .ok bytes := by
  refine leadsTo_eq_true_iff.trans ?_
  simp only [read_eq_ok_iff]
  constructor
  · rintro ⟨loc, e, hloc, he, hkind⟩
    cases e <;> simp_all
  · rintro ⟨bytes, loc, hloc, hfile⟩
    exact ⟨loc, .file bytes, hloc, hfile, rfl⟩

theorem LinkFree.locate_plain (h : fs.LinkFree) (hp : p.Plain) (hloc : fs.locate p = .ok loc) :
    loc = p.names ∧ ∀ n ∈ p.names, n.utf8ByteSize ≤ maxNameBytes := by
  obtain ⟨-, slashed, hf, -⟩ := locate_eq_ok_iff.1 hloc
  have hdescend := (h.descend_of_follow hf).1
  rw [start, if_pos hp.absolute] at hdescend
  exact descend_plain hp.entryNames hdescend

theorem IsTree.exists_entry_of_locate (htree : fs.IsTree) (h : fs.locate p = .ok loc) :
    ∃ e, fs.entryAt loc = some e := by
  obtain ⟨-, slashed, hf, -⟩ := locate_eq_ok_iff.1 h
  obtain ⟨e, he, -⟩ := htree.reached_of_follow (htree.directory_start p) hf
  exact ⟨e, he⟩

theorem Keeps.locate (hk : fs.Keeps after) (h : fs.locate p = .ok loc) :
    after.locate p = .ok loc := by
  obtain ⟨hlooked, slashed, hf, hslashed⟩ := locate_eq_ok_iff.1 h
  refine locate_eq_ok_iff.2 ⟨hlooked, slashed, ?_, fun hs => hk.directory (hslashed hs)⟩
  rw [hk.start]
  exact hk.follow_found hf

theorem Grown.read_eq {outputs : List Location} (h : Grown outputs fs after) (htree : fs.IsTree)
    (hloc : fs.locate p = .ok loc) (hout : loc ∉ outputs) : after.read p = fs.read p := by
  obtain ⟨e, he⟩ := htree.exists_entry_of_locate hloc
  simp only [read, hloc, h.keeps.locate hloc, he, h.entryAt_eq he hout]

theorem Grown.hasEntry_eq {outputs : List Location} (h : Grown outputs fs after)
    (htree : fs.IsTree) (hloc : fs.locate p = .ok loc) (hout : loc ∉ outputs) :
    after.hasEntry p = fs.hasEntry p := by
  obtain ⟨e, he⟩ := htree.exists_entry_of_locate hloc
  simp only [hasEntry, leadsTo, hloc, h.keeps.locate hloc, he, h.entryAt_eq he hout]

end FileSystem

end ResourceAccessors
