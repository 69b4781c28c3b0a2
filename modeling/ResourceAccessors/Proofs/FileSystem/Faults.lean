import ResourceAccessors.Proofs.FileSystem.Growth
import ResourceAccessors.Proofs.Path

/-! Which faults a path can meet. Looking a path up meets an obstacle or, if one is in the path, a
NUL character; and a path that holds one is refused wherever it is looked up for reading or writing.
Asking what a path leads to refuses none. Only adding directories can meet a third fault: too many
of them are missing. -/
namespace ResourceAccessors
set_option autoImplicit false

/-- What can be met where a path is looked up. -/
inductive FileFault.OfLookup (p : Path) : FileFault → Prop
  | obstacle (o : Obstacle) (q : Path) : OfLookup p (.obstructed o q)
  | nul (h : p.HoldsNul) : OfLookup p .nulInPath

namespace FileFault.OfLookup

variable {p : Path} {fault : FileFault}

theorem holdsNul (h : OfLookup p .nulInPath) : p.HoldsNul := by
  cases h with
  | nul h => exact h

theorem ne_tooNested (h : OfLookup p fault) (reason : String) : fault ≠ .tooNested reason := by
  cases h <;> simp

theorem of_take {n : Nat} (h : OfLookup (p.take n) fault) : OfLookup p fault := by
  cases h with
  | obstacle o q => exact .obstacle o q
  | nul h => exact .nul h.of_take

end FileFault.OfLookup

namespace FileSystem

open FileFault (OfLookup)

variable {fs after : FileSystem} {p : Path} {test : Entry → Bool} {bytes : List UInt8}
  {fault : FileFault} {limit : CallLimit}

theorem checkPath_eq_nul_iff : checkPath p = .error .nulInPath ↔ p.HoldsNul := by
  have hmem := p.nul_mem_toString_iff
  unfold checkPath
  split
  · next h => simp_all
  · split <;> simp_all

theorem checkPath_eq_ok_iff :
    checkPath p = .ok () ↔ ¬ p.HoldsNul ∧ p.toString.utf8ByteSize ≤ maxPathBytes := by
  have hmem := p.nul_mem_toString_iff
  unfold checkPath
  split
  · next h => simp_all
  · split
    · simp_all
    · simp_all

theorem checkPath_eq_error (h : checkPath p = .error fault) :
    fault = .nulInPath ∨ fault = .obstructed .nameTooLong p := by
  unfold checkPath at h
  split at h
  · exact .inl (Except.error.inj h).symm
  · split at h
    · exact .inr (Except.error.inj h).symm
    · simp at h

theorem ofLookup_of_checkPath (h : checkPath p = .error fault) : OfLookup p fault := by
  rcases checkPath_eq_error h with rfl | rfl
  · exact .nul (checkPath_eq_nul_iff.1 h)
  · exact .obstacle _ _

theorem arrive_of_holdsNul (h : p.HoldsNul) : fs.arrive p = .error .nulInPath := by
  simp only [arrive, checkPath_eq_nul_iff.2 h]

theorem ofLookup_of_arrive (h : fs.arrive p = .error fault) : OfLookup p fault := by
  unfold arrive at h
  split at h
  · next other hc => exact Except.error.inj h ▸ ofLookup_of_checkPath hc
  · split at h
    · exact Except.error.inj h ▸ .obstacle _ _
    · simp at h

theorem ofLookup_of_locate (h : fs.locate p = .error fault) : OfLookup p fault := by
  unfold locate at h
  split at h
  · next other harrive => exact Except.error.inj h ▸ ofLookup_of_arrive harrive
  · exact Except.error.inj h ▸ .obstacle _ _
  · split at h
    · exact Except.error.inj h ▸ .obstacle _ _
    · simp at h

theorem leadsTo_of_holdsNul (h : p.HoldsNul) : fs.leadsTo test p = .ok false := by
  simp only [leadsTo, locate, arrive_of_holdsNul h]

/-- Asking what a path leads to is answered or meets an obstacle. -/
theorem obstructed_of_leadsTo (h : fs.leadsTo test p = .error fault) :
    ∃ o q, fault = .obstructed o q := by
  unfold leadsTo at h
  split at h
  · simp at h
  · simp at h
  · next o q _ =>
    split at h
    · simp at h
    · exact ⟨o, q, (Except.error.inj h).symm⟩
  · next reason hlocate => exact absurd rfl ((ofLookup_of_locate hlocate).ne_tooNested reason)

theorem ofLookup_of_read (h : fs.read p = .error fault) : OfLookup p fault := by
  unfold read at h
  split at h
  · next other hl => exact Except.error.inj h ▸ ofLookup_of_locate hl
  · split at h
    · simp at h
    all_goals exact Except.error.inj h ▸ .obstacle _ _

theorem hasEntry_of_read (h : fs.read p = .ok bytes) : fs.hasEntry p = .ok true := by
  obtain ⟨loc, hloc, hfile⟩ := read_eq_ok_iff.1 h
  exact hasEntry_of_locate hloc hfile

theorem not_holdsNul_of_hasEntry (h : fs.hasEntry p = .ok true) : ¬ p.HoldsNul := by
  intro hnul
  rw [hasEntry, leadsTo_of_holdsNul hnul] at h
  simp at h

/-! ## Adding directories -/

theorem makeDirectory_of_holdsNul (h : p.HoldsNul) :
    fs.makeDirectory p = .error .nulInPath := by
  simp only [makeDirectory, checkPath_eq_nul_iff.2 h]

theorem ofLookup_of_makeDirectory (h : fs.makeDirectory p = .error fault) : OfLookup p fault := by
  unfold makeDirectory at h
  split at h
  · next other hc => exact Except.error.inj h ▸ ofLookup_of_checkPath hc
  · split at h
    · exact Except.error.inj h ▸ .obstacle _ _
    · split at h
      · exact Except.error.inj h ▸ .obstacle _ _
      · exact Except.error.inj h ▸ .obstacle _ _
      · split at h
        · exact Except.error.inj h ▸ .obstacle _ _
        · split at h
          · exact Except.error.inj h ▸ .obstacle _ _
          · simp at h

theorem ofLookup_of_ensureDirectory (h : fs.ensureDirectory p = .error fault) :
    OfLookup p fault := by
  unfold ensureDirectory at h
  split at h
  · simp at h
  · next hm => exact Except.error.inj h ▸ ofLookup_of_makeDirectory hm
  · exact Except.error.inj h ▸ .obstacle _ _
  · next other _ _ hm =>
    split at h
    · simp at h
    · exact Except.error.inj h ▸ ofLookup_of_makeDirectory hm
    · next asked hd =>
      obtain ⟨o, q, rfl⟩ := obstructed_of_leadsTo hd
      exact Except.error.inj h ▸ .obstacle o q

theorem ofLookup_of_makeDirectoriesTo {n : Nat} (h : (fs.makeDirectoriesTo p n).1 = .error fault) :
    OfLookup p fault := by
  induction n with
  | zero => simp [makeDirectoriesTo] at h
  | succ n ih =>
    unfold makeDirectoriesTo at h
    split at h
    · simp at h
    · split at h
      · next other partway hpart =>
        rw [hpart] at ih
        exact ih h
      · next above habove =>
        split at h
        · simp at h
        · next other he => exact Except.error.inj h ▸ (ofLookup_of_ensureDirectory he).of_take
    · next other _ he => exact Except.error.inj h ▸ (ofLookup_of_ensureDirectory he).of_take

/-- Directories are not added for want of calls, or a path on the way meets something. -/
theorem makeDirectories_error (h : (fs.makeDirectories limit p).1 = .error fault) :
    (fs.TooDeep limit p ∧ fault = .tooNested limit.reason) ∨
      (¬ fs.TooDeep limit p ∧ OfLookup p fault) := by
  by_cases hdeep : fs.TooDeep limit p
  · rw [makeDirectories_of_tooDeep hdeep] at h
    exact .inl ⟨hdeep, (Except.error.inj h).symm⟩
  · rw [makeDirectories_of_not_tooDeep hdeep] at h
    exact .inr ⟨hdeep, ofLookup_of_makeDirectoriesTo h⟩

theorem holdsNul_of_makeDirectories (h : (fs.makeDirectories limit p).1 = .error .nulInPath) :
    p.HoldsNul := by
  rcases makeDirectories_error h with ⟨-, hfault⟩ | ⟨-, hmet⟩
  · simp at hfault
  · exact hmet.holdsNul

theorem exists_length_of_holdsNul (h : p.HoldsNul) : ∃ n, p.names.length = n + 1 := by
  obtain ⟨name, hname, -⟩ := h
  exact Nat.exists_eq_add_one_of_ne_zero (List.ne_nil_of_mem hname ∘ List.length_eq_zero_iff.1)

theorem ensureDirectory_of_holdsNul (h : p.HoldsNul) :
    fs.ensureDirectory p = .error .nulInPath := by
  simp only [ensureDirectory, makeDirectory_of_holdsNul h]

theorem not_tooDeep_of_holdsNul (h : p.HoldsNul) : ¬ fs.TooDeep limit p := by
  obtain ⟨n, hn⟩ := exists_length_of_holdsNul h
  have htake : p.take (n + 1) = p := Path.take_of_length_le (Nat.le_of_eq hn)
  simp [TooDeep, hn, waiting, htake, ensureDirectory_of_holdsNul h]

theorem makeDirectories_of_holdsNul (h : p.HoldsNul) :
    fs.makeDirectories limit p = (.error .nulInPath, fs) := by
  obtain ⟨n, hn⟩ := exists_length_of_holdsNul h
  have htake : p.take (n + 1) = p := Path.take_of_length_le (Nat.le_of_eq hn)
  rw [makeDirectories_of_not_tooDeep (not_tooDeep_of_holdsNul h)]
  simp only [hn, makeDirectoriesTo, htake, ensureDirectory_of_holdsNul h]

/-! ## Writing -/

theorem ofLookup_of_write (h : fs.write p bytes = .error fault) : OfLookup p fault := by
  unfold write at h
  split at h
  · next other ha =>
    rw [← Except.error.inj h]
    unfold arriveToWrite at ha
    split at ha
    · next refused hc => exact Except.error.inj ha ▸ ofLookup_of_checkPath hc
    · split at ha
      · exact Except.error.inj ha ▸ .obstacle _ _
      · simp at ha
  · simp at h
  · split at h
    · simp at h
    · exact Except.error.inj h ▸ .obstacle _ _

theorem write_eq_nul_iff : fs.write p bytes = .error .nulInPath ↔ p.HoldsNul := by
  constructor
  · exact fun h => (ofLookup_of_write h).holdsNul
  · intro h
    simp only [write, arriveToWrite, checkPath_eq_nul_iff.2 h]

/-- A file is not saved, though nothing stands in its way: its path holds a NUL character, which is
found when the file is written or already with the directories above it, or too many of these are
missing. -/
inductive Refuses (fs : FileSystem) (limit : CallLimit) (p : Path) : FileFault → Prop
  | nul : p.HoldsNul → (p.parent.HoldsNul ∨ (fs.makeDirectories limit p.parent).1 = .ok ()) →
      Refuses fs limit p .nulInPath
  | tooNested : fs.TooDeep limit p.parent → Refuses fs limit p (.tooNested limit.reason)

/-- A path that holds a NUL character is refused when the file is written, or already with the
directories above it, unless something is in their way. -/
theorem save_eq_nul_iff : (fs.save limit p bytes).1 = .error .nulInPath ↔
    p.HoldsNul ∧ (p.parent.HoldsNul ∨ (fs.makeDirectories limit p.parent).1 = .ok ()) := by
  by_cases hparent : p.parent.HoldsNul
  · simp [save, makeDirectories_of_holdsNul hparent, hparent, hparent.of_parent]
  · unfold save
    split
    · next other partway hmade =>
      refine iff_of_false ?_ (by simp [hmade, hparent])
      intro hfault
      exact hparent (holdsNul_of_makeDirectories (by rw [hmade, hfault]))
    · next ready hmade =>
      have hwrite : ready.write p bytes = .error .nulInPath ↔ p.HoldsNul := write_eq_nul_iff
      rw [hmade, ← hwrite]
      cases ready.write p bytes <;> simp

/-- Calls are wanting where too many of the directories above a file are missing. -/
theorem save_eq_tooNested_iff {reason : String} :
    (fs.save limit p bytes).1 = .error (.tooNested reason) ↔
      fs.TooDeep limit p.parent ∧ reason = limit.reason := by
  unfold save
  split
  · next other partway hmade =>
    constructor
    · intro h
      have hfault : (fs.makeDirectories limit p.parent).1 = .error (.tooNested reason) := by
        rw [hmade]
        exact h
      rcases makeDirectories_error hfault with ⟨hdeep, heq⟩ | ⟨-, hmet⟩
      · exact ⟨hdeep, FileFault.tooNested.inj heq⟩
      · exact absurd rfl (hmet.ne_tooNested reason)
    · rintro ⟨hdeep, rfl⟩
      rw [makeDirectories_of_tooDeep hdeep] at hmade
      rw [(Prod.mk.inj hmade).1]
  · next ready hmade =>
    have hdeep : ¬ fs.TooDeep limit p.parent := by
      intro hdeep
      rw [makeDirectories_of_tooDeep hdeep] at hmade
      simp at hmade
    refine iff_of_false (fun h => ?_) (fun h => hdeep h.1)
    cases hwrite : ready.write p bytes with
    | error other =>
      rw [hwrite] at h
      exact (ofLookup_of_write hwrite).ne_tooNested reason (Except.error.inj h)
    | ok written =>
      rw [hwrite] at h
      simp at h

theorem save_refuses_iff (bytes : List UInt8) :
    ((fs.save limit p bytes).1 = .error fault ∧ ∀ o q, fault ≠ .obstructed o q) ↔
      fs.Refuses limit p fault := by
  cases fault with
  | obstructed o q => exact iff_of_false (fun h => h.2 o q rfl) nofun
  | nulInPath =>
    rw [save_eq_nul_iff]
    constructor
    · rintro ⟨⟨hnul, hready⟩, -⟩
      exact .nul hnul hready
    · intro h
      cases h with
      | nul hnul hready => exact ⟨⟨hnul, hready⟩, by simp⟩
  | tooNested reason =>
    rw [save_eq_tooNested_iff]
    constructor
    · rintro ⟨⟨hdeep, rfl⟩, -⟩
      exact .tooNested hdeep
    · intro h
      cases h with
      | tooNested hdeep => exact ⟨⟨hdeep, rfl⟩, by simp⟩

end FileSystem

end ResourceAccessors
