import ResourceAccessors.Loading.Module
import ResourceAccessors.Proofs.FileSystem.Plain

/-! What an import executes. The parts of a dotted name are imported from left to right, and each
that has not been imported before is looked for and, unless it is a bare directory, executed. Where
it fails, a part has not been found, or a source has raised. -/
namespace ResourceAccessors.Loading
set_option autoImplicit false

variable {κ : Type} {host : Host κ} {fs : FileSystem} {imports after : Imports κ}
  {parent : Option (String × Imported κ)} {imported : Imported κ} {part : String}
  {parts rest : List String} {dir source : Path} {origin : Origin} {bytes : List UInt8}
  {fault : Fault} {raised : Raised}

theorem mapError_ok {ε δ α : Type} (wrap : ε → δ) (a : α) :
    (Except.ok a : Except ε α).mapError wrap = .ok a := rfl

theorem mapError_error {ε δ α : Type} (wrap : ε → δ) (e : ε) :
    (Except.error e : Except ε α).mapError wrap = .error (wrap e) := rfl

/-! ## One part -/

/-- The source that is executed for a module. -/
def Origin.source? : Origin → Option Path
  | package directory => some (inside directory initialModule)
  | file source => some source
  | bareDirectory _ => none

theorem isFileAt_iff {p : Path} : isFileAt fs p = true ↔ ∃ bytes, fs.read p = .ok bytes := by
  rw [← FileSystem.isFile_eq_true_iff, isFileAt]
  split
  · next h => rw [h, Except.ok.injEq]
  · next h => simp [h]

/-- What is found can be read. -/
theorem read_of_origin? (hfound : origin? fs dir part = some origin)
    (hsource : origin.source? = some source) : ∃ bytes, fs.read source = .ok bytes := by
  rw [← isFileAt_iff]
  simp only [origin?, Bool.and_eq_true] at hfound
  split at hfound
  · next h =>
    obtain rfl := Option.some.inj hfound
    exact Option.some.inj hsource ▸ h.2
  · split at hfound
    · next h =>
      obtain rfl := Option.some.inj hfound
      exact Option.some.inj hsource ▸ h.2
    · split at hfound
      · obtain rfl := Option.some.inj hfound
        simp [Origin.source?] at hsource
      · simp at hfound

theorem executeFile_of_read (hread : fs.read source = .ok bytes) :
    executeFile host fs source = (host.execute bytes).mapError .raised := by
  simp only [executeFile, hread]

/-- The module that is made of a source has the members that the source defines. -/
theorem importFrom_of_source (hsource : origin.source? = some source)
    (hread : fs.read source = .ok bytes) :
    (importFrom host fs origin).map Imported.members =
      (host.execute bytes).mapError .raised := by
  cases origin with
  | package directory =>
    obtain rfl := Option.some.inj hsource
    rw [importFrom, executeFile_of_read hread]
    cases host.execute bytes <;> rfl
  | file source =>
    obtain rfl := Option.some.inj hsource
    rw [importFrom, executeFile_of_read hread]
    cases host.execute bytes <;> rfl
  | bareDirectory directory => simp [Origin.source?] at hsource

def nameBelow (parent : Option (String × Imported κ)) (part : String) : String :=
  (parent.map fun p => p.1 ++ "." ++ part).getD part

def directoryBelow (parent : Option (String × Imported κ)) : Option Path :=
  (parent.map fun p => p.2.directory).getD (some .here)

/-- The import of a part executes a source: the part is new, and found with that source. -/
def Executes (fs : FileSystem) (imports : Imports κ) (parent : Option (String × Imported κ))
    (part : String) (source : Path) : Prop :=
  imports.lookup (nameBelow parent part) = none ∧
    ∃ dir origin, directoryBelow parent = some dir ∧ origin? fs dir part = some origin ∧
      origin.source? = some source

theorem Executes.read (h : Executes fs imports parent part source) :
    ∃ bytes, fs.read source = .ok bytes := by
  obtain ⟨-, dir, origin, -, hfound, hsource⟩ := h
  exact read_of_origin? hfound hsource

theorem importPart_members (h : Executes fs imports parent part source)
    (hread : fs.read source = .ok bytes) :
    (importPart host fs imports parent part).map (·.1.members) =
      (host.execute bytes).mapError .raised := by
  obtain ⟨hnew, dir, origin, hdir, hfound, hsource⟩ := h
  have hmembers : (importFrom host fs origin).map Imported.members =
      (host.execute bytes).mapError .raised := importFrom_of_source hsource hread
  unfold nameBelow at hnew
  unfold directoryBelow at hdir
  simp only [importPart, hnew, hdir, hfound]
  rw [← hmembers]
  cases importFrom host fs origin <;> rfl

theorem importPart_raises (h : Executes fs imports parent part source)
    (hread : fs.read source = .ok bytes) (hraised : host.execute bytes = .error raised) :
    importPart host fs imports parent part = .error (.raised raised) := by
  have hmembers : (importPart host fs imports parent part).map (·.1.members) = _ :=
    importPart_members h hread
  cases himport : importPart host fs imports parent part <;>
    simp_all [Except.map, mapError_error]

theorem importPart_executed {members : Members κ} (h : Executes fs imports parent part source)
    (hread : fs.read source = .ok bytes) (hdefined : host.execute bytes = .ok members) :
    ∃ imported after, importPart host fs imports parent part = .ok (imported, after) ∧
      imported.members = members := by
  have hmembers : (importPart host fs imports parent part).map (·.1.members) = _ :=
    importPart_members h hread
  cases himport : importPart host fs imports parent part with
  | error fault => simp [himport, hdefined, Except.map, mapError_ok] at hmembers
  | ok found =>
    simp only [himport, hdefined, Except.map, mapError_ok, Except.ok.injEq] at hmembers
    exact ⟨found.1, found.2, rfl, hmembers⟩

/-- A part that cannot be imported is not found, or its source raises. -/
theorem importPart_error (h : importPart host fs imports parent part = .error fault) :
    ∃ r, fault = .raised r ∧
      (r.family = .importing ∨ ∃ source bytes, Executes fs imports parent part source ∧
        fs.read source = .ok bytes ∧ host.execute bytes = .error r) := by
  unfold importPart at h
  simp only at h
  split at h
  · simp at h
  · exact ⟨_, (Except.error.inj h).symm, .inl rfl⟩
  · next dir hnew hdir =>
    split at h
    · exact ⟨_, (Except.error.inj h).symm, .inl rfl⟩
    · next origin hfound =>
      split at h
      · next f hfrom =>
        obtain rfl := Except.error.inj h
        cases hsource : origin.source? with
        | none =>
          cases origin <;> simp_all [Origin.source?, importFrom]
        | some source =>
          obtain ⟨bytes, hread⟩ := read_of_origin? hfound hsource
          have hmembers : (importFrom host fs origin).map Imported.members =
              (host.execute bytes).mapError .raised := importFrom_of_source hsource hread
          cases hraised : host.execute bytes with
          | ok members => simp [hfrom, hraised, Except.map, mapError_ok] at hmembers
          | error r =>
            simp only [hfrom, hraised, Except.map, mapError_error, Except.error.injEq] at hmembers
            exact ⟨r, hmembers, .inr ⟨source, bytes, ⟨hnew, dir, origin, hdir, hfound, hsource⟩,
              hread, hraised⟩⟩
      · simp at h

/-! ## All parts -/

/-- The import of the parts of a name comes to execute a source, with `rest` left to import. -/
inductive ComesTo (host : Host κ) (fs : FileSystem) (source : Path) (rest : List String) :
    Imports κ → Option (String × Imported κ) → List String → Prop
  | here {imports : Imports κ} {parent : Option (String × Imported κ)} {part : String} :
      Executes fs imports parent part source → ComesTo host fs source rest imports parent
        (part :: rest)
  | next {imports after : Imports κ} {parent : Option (String × Imported κ)}
      {imported : Imported κ} {part : String} {parts : List String} :
      importPart host fs imports parent part = .ok (imported, after) →
      ComesTo host fs source rest after (some (nameBelow parent part, imported)) parts →
      ComesTo host fs source rest imports parent (part :: parts)

theorem ComesTo.read (h : ComesTo host fs source rest imports parent parts) :
    ∃ bytes, fs.read source = .ok bytes := by
  induction h with
  | here hexecutes => exact hexecutes.read
  | next _ _ ih => exact ih

theorem importParts_cons_error (h : importPart host fs imports parent part = .error fault) :
    importParts host fs imports parent (part :: parts) = (.error fault, imports) := by
  rw [importParts, h]

theorem importParts_cons_ok
    (h : importPart host fs imports parent part = .ok (imported, after)) :
    importParts host fs imports parent (part :: parts) =
      importParts host fs after (some (nameBelow parent part, imported)) parts := by
  rw [importParts, h]
  rfl

/-- What a source on the way raises ends the import. -/
theorem ComesTo.importParts_raises (h : ComesTo host fs source rest imports parent parts)
    (hread : fs.read source = .ok bytes) (hraised : host.execute bytes = .error raised) :
    (importParts host fs imports parent parts).1 = .error (.raised raised) := by
  induction h with
  | here hexecutes =>
    rw [importParts_cons_error (importPart_raises hexecutes hread hraised)]
  | next hpart _ ih => rw [importParts_cons_ok hpart, ih]

/-- An import whose last part is executed has the members that its source defines. -/
theorem ComesTo.importParts_executed {members : Members κ}
    (h : ComesTo host fs source [] imports parent parts)
    (hread : fs.read source = .ok bytes) (hdefined : host.execute bytes = .ok members) :
    (importParts host fs imports parent parts).1 = .ok members := by
  induction h with
  | here hexecutes =>
    obtain ⟨imported, after, hpart, rfl⟩ := importPart_executed hexecutes hread hdefined
    rw [importParts_cons_ok hpart]
    rfl
  | next hpart _ ih => rw [importParts_cons_ok hpart, ih]

/-- An import that ends has not found a part, or has come to a source that raises. -/
theorem comesTo_of_importParts (h : (importParts host fs imports parent parts).1 = .error fault) :
    ∃ r, fault = .raised r ∧
      (r.family = .importing ∨ ∃ source rest bytes,
        ComesTo host fs source rest imports parent parts ∧
        fs.read source = .ok bytes ∧ host.execute bytes = .error r) := by
  induction parts generalizing imports parent with
  | nil => simp [importParts] at h
  | cons part parts ih =>
    cases hpart : importPart host fs imports parent part with
    | error f =>
      rw [importParts_cons_error hpart, Except.error.injEq] at h
      obtain ⟨r, hr, hcause⟩ := importPart_error hpart
      refine ⟨r, h ▸ hr, hcause.imp_right ?_⟩
      rintro ⟨source, bytes, hexecutes, hread, hraised⟩
      exact ⟨source, parts, bytes, .here hexecutes, hread, hraised⟩
    | ok found =>
      rw [importParts_cons_ok hpart] at h
      obtain ⟨r, hr, hcause⟩ := ih h
      refine ⟨r, hr, hcause.imp_right ?_⟩
      rintro ⟨source, rest, bytes, hcomes, hread, hraised⟩
      exact ⟨source, rest, bytes, .next hpart hcomes, hread, hraised⟩

end ResourceAccessors.Loading
