import ResourceAccessors.Loading.Load
import ResourceAccessors.Proofs.FileSystem.Overlong
import ResourceAccessors.Proofs.Loading.Import

/-! What gets past the loader. A file that is executed and a registered converter end a load in a
load fault whatever they raise. Of what a module raises when it is imported, only a failed import is
taken for one, and of what a class raises only a fault of its arguments. `Unguarded` says when a
load comes to anything else. -/
namespace ResourceAccessors
set_option autoImplicit false

/-! ## Faults -/

namespace Fault

/-- A load fault, of the loader or raised by loaded code. -/
def IsLoading : Fault → Prop
  | load _ => True
  | raised r => r.family = .loading
  | _ => False

def Interrupts : Fault → Prop
  | raised r => r.family.interrupts = true
  | _ => False

/-- Neither a load fault nor an interruption. -/
def Strays (fault : Fault) : Prop :=
  ¬ fault.IsLoading ∧ ¬ fault.Interrupts

theorem strays_file (fault : FileFault) : (file fault).Strays :=
  ⟨id, id⟩

theorem strays_relativeImport (name : String) : (relativeImport name).Strays :=
  ⟨id, id⟩

theorem not_strays_load (fault : LoadFault) : ¬ (load fault).Strays :=
  fun h => h.1 trivial

end Fault

namespace Loading

variable {κ α : Type} {host : Host κ} {fs : FileSystem} {imports : Imports κ}
  {name member specification : String} {source : Path} {fault : Fault} {r : Raised}

/-- A result other than what is wanted, a load fault or an interruption. -/
def Escaped (result : Except Fault α) : Prop :=
  ∃ fault, result = .error fault ∧ fault.Strays

theorem escaped_error : Escaped (.error fault : Except Fault α) ↔ fault.Strays := by
  constructor
  · rintro ⟨f, hf, hstrays⟩
    exact Except.error.inj hf ▸ hstrays
  · exact fun h => ⟨fault, rfl, h⟩

theorem not_escaped_ok (a : α) : ¬ Escaped (.ok a) := by
  rintro ⟨f, hf, -⟩
  cases hf

theorem escaped_bind {β : Type} {x : Except Fault β} {f : β → Except Fault α} :
    Escaped (x.bind f) ↔ Escaped x ∨ ∃ b, x = .ok b ∧ Escaped (f b) := by
  cases x with
  | error fault => simp [Except.bind, escaped_error]
  | ok b => simp [Except.bind, not_escaped_ok]

/-! ## Files and modules -/

/-- What a file raises does not get past the loader. -/
theorem not_strays_wrapExecution : ¬ (wrapExecution source fault).Strays := by
  cases fault with
  | raised r =>
    rw [wrapExecution]
    split
    · next hinterrupts => exact fun h => h.2 hinterrupts
    · exact Fault.not_strays_load _
  | _ => exact Fault.not_strays_load _

/-- What a module raises does, unless it is taken for a failed import. -/
theorem strays_wrapImport : (wrapImport name (.raised r)).Strays ↔
    (Fault.raised r).Strays ∧ r.family ≠ .importing := by
  rw [wrapImport]
  split
  · next himporting => simp [Fault.not_strays_load, himporting]
  · next hother => simp [hother]

theorem tooLong_iff_isFile : fs.TooLong source ↔ ∃ fault, fs.isFile source = .error fault := by
  simp only [FileSystem.isFile, FileSystem.leadsTo_eq_error_iff, exists_eq_left]

theorem membersOfFile_escaped_iff : Escaped (membersOfFile host fs source) ↔ fs.TooLong source := by
  rw [tooLong_iff_isFile]
  unfold membersOfFile
  split
  · next fault h => simp [h, escaped_error, Fault.strays_file]
  · next h => simp [h, escaped_error, Fault.not_strays_load]
  · next h =>
    split
    · cases executeFile host fs source with
      | ok members => simp [h, mapError_ok, not_escaped_ok]
      | error fault => simp [h, mapError_error, escaped_error, not_strays_wrapExecution]
    · simp [h, escaped_error, Fault.not_strays_load]

theorem membersOf_of_file (h : (Path.ofString name).suffix = sourceEnding ∨
      fs.isFile (Path.ofString name) = .ok true) :
    (membersOf host fs imports name).1 = membersOfFile host fs (Path.ofString name) := by
  unfold membersOf
  by_cases hending : (Path.ofString name).suffix = sourceEnding
  · simp only [if_pos hending]
  · simp only [if_neg hending, h.resolve_left hending]

/-- What stands before a colon is taken for a module, as it neither looks like a file nor is one. -/
def IsModule (fs : FileSystem) (name : String) : Prop :=
  (Path.ofString name).suffix ≠ sourceEnding ∧ fs.isFile (Path.ofString name) = .ok false

theorem membersOf_of_isModule (h : IsModule fs name) :
    (membersOf host fs imports name).1 =
      (importModule host fs imports name).1.mapError (wrapImport name) := by
  obtain ⟨hending, hfile⟩ := h
  cases himport : importModule host fs imports name with
  | mk members after =>
    unfold membersOf
    simp only [if_neg hending, hfile, himport]

/-- More imports of packages would wait for one another than may. -/
def TooNested (fs : FileSystem) (imports : Imports κ) (name : String) : Prop :=
  fs.limits.imports.calls < waiting imports (Text.split '.' name) (Text.split '.' name).length

instance : Decidable (TooNested fs imports name) := by
  unfold TooNested
  infer_instance

/-- The import of a module comes to execute a source, and what that raises is not taken for a failed
one. -/
def ModuleRaises (host : Host κ) (fs : FileSystem) (imports : Imports κ) (name : String) : Prop :=
  ¬ TooNested fs imports name ∧
    ∃ source rest bytes r, ComesTo host fs source rest imports none (Text.split '.' name) ∧
      fs.read source = .ok bytes ∧ host.execute bytes = .error r ∧ (Fault.raised r).Strays ∧
      r.family ≠ .importing

theorem importModule_of_shallow (hdot : name.toList.head? ≠ some '.')
    (hshallow : ¬ TooNested fs imports name) :
    importModule host fs imports name = importParts host fs imports none (Text.split '.' name) := by
  unfold TooNested at hshallow
  simp only [importModule, if_neg hdot, if_neg hshallow]

theorem strays_recursionExceeded (reason : String) :
    (Fault.raised (recursionExceeded reason)).Strays ∧
      (recursionExceeded reason).family ≠ .importing := by
  refine ⟨⟨fun h => ?_, fun h => ?_⟩, fun h => ?_⟩
  all_goals cases h

theorem importModule_escaped_iff :
    Escaped ((importModule host fs imports name).1.mapError (wrapImport name)) ↔
      name.toList.head? = some '.' ∨ TooNested fs imports name ∨
        ModuleRaises host fs imports name := by
  by_cases hdot : name.toList.head? = some '.'
  · have hescaped : Escaped (.error (.relativeImport name) : Except Fault (Members κ)) :=
      ⟨_, rfl, Fault.strays_relativeImport name⟩
    simp only [importModule, if_pos hdot]
    exact iff_of_true hescaped (.inl hdot)
  by_cases hnested : TooNested fs imports name
  · have hstrays :
        (wrapImport name (.raised (recursionExceeded fs.limits.imports.reason))).Strays :=
      strays_wrapImport.2 (strays_recursionExceeded _)
    refine iff_of_true ?_ (.inr (.inl hnested))
    unfold TooNested at hnested
    simp only [importModule, if_neg hdot, if_pos hnested]
    exact escaped_error.2 hstrays
  · rw [importModule_of_shallow hdot hnested]
    constructor
    · intro h
      cases hparts : (importParts host fs imports none (Text.split '.' name)).1 with
      | ok members =>
        rw [hparts] at h
        exact absurd h (not_escaped_ok members)
      | error fault =>
        obtain ⟨r, rfl, hcause⟩ := comesTo_of_importParts hparts
        rw [hparts, mapError_error, escaped_error, strays_wrapImport] at h
        obtain ⟨source, rest, bytes, hcomes, hread, hraised⟩ := hcause.resolve_left h.2
        exact .inr (.inr ⟨hnested, source, rest, bytes, r, hcomes, hread, hraised, h⟩)
    · rintro (h | h | ⟨-, source, rest, bytes, r, hcomes, hread, hraised, hstrays⟩)
      · exact absurd h hdot
      · exact absurd h hnested
      · rw [hcomes.importParts_raises hread hraised, mapError_error, escaped_error,
          strays_wrapImport]
        exact hstrays

theorem membersOf_escaped_iff : Escaped (membersOf host fs imports name).1 ↔
    fs.TooLong (Path.ofString name) ∨ IsModule fs name ∧ (name.toList.head? = some '.' ∨
      TooNested fs imports name ∨ ModuleRaises host fs imports name) := by
  by_cases hroute : (Path.ofString name).suffix = sourceEnding ∨
      fs.isFile (Path.ofString name) = .ok true
  · have hno : ¬ IsModule fs name := by
      rintro ⟨hending, hfile⟩
      simp [hending, hfile] at hroute
    simp only [membersOf_of_file hroute, membersOfFile_escaped_iff, hno, false_and, or_false]
  · obtain ⟨hending, hnot⟩ := not_or.1 hroute
    cases hfile : fs.isFile (Path.ofString name) with
    | error fault =>
      have hlong := tooLong_iff_isFile.2 ⟨fault, hfile⟩
      unfold membersOf
      simp only [if_neg hending, hfile, escaped_error, Fault.strays_file, hlong, true_or]
    | ok isFile =>
      obtain rfl : isFile = false := by
        cases isFile with
        | false => rfl
        | true => exact absurd hfile hnot
      have hmodule : IsModule fs name := ⟨hending, hfile⟩
      have hfits : ¬ fs.TooLong (Path.ofString name) := by
        simp [tooLong_iff_isFile, hfile]
      rw [membersOf_of_isModule hmodule, importModule_escaped_iff]
      simp only [hfits, hmodule, false_or, true_and]

/-! ## Loads -/

theorem registered_contained : ¬ Escaped (registered host name) := by
  unfold registered
  split
  · exact fun h => Fault.not_strays_load _ (escaped_error.1 h)
  · split
    · exact not_escaped_ok _
    · split
      · next hinterrupts => exact fun h => (escaped_error.1 h).2 hinterrupts
      · exact fun h => Fault.not_strays_load _ (escaped_error.1 h)

/-- What a class raises gets past the loader, unless it is taken for a fault of its arguments. -/
theorem make_escaped_iff {found : Member κ} : Escaped (make specification found) ↔
    ∃ r, found = .factory (.error r) ∧ (Fault.raised r).Strays ∧ r.family ≠ .typing := by
  cases found with
  | callable converter => simp [make, not_escaped_ok]
  | value => simp [make, escaped_error, Fault.not_strays_load]
  | factory made =>
    cases made with
    | ok converter? =>
      cases converter? <;> simp [make, not_escaped_ok, escaped_error, Fault.not_strays_load]
    | error r =>
      by_cases htyping : r.family = .typing
      · simp [make, htyping, escaped_error, Fault.not_strays_load]
      · simp [make, htyping, escaped_error]

/-- A specification that names a member of a file or a module. -/
structure Splits (specification name member : String) : Prop where
  split : splitSpecification specification = some (name, member)
  name : name ≠ ""
  member : member ≠ ""

/-- The member of a name. -/
def memberOf (name member : String) (members : Members κ) : Except Fault (Member κ) :=
  match members.lookup member with
  | none => .error (.load (.noMember name member))
  | some found => .ok found

theorem not_escaped_memberOf (members : Members κ) : ¬ Escaped (memberOf name member members) := by
  unfold memberOf
  split
  · exact fun h => Fault.not_strays_load _ (escaped_error.1 h)
  · exact not_escaped_ok _

theorem find_of_splits (h : Splits specification name member) :
    (find host fs imports specification).1 =
      (membersOf host fs imports name).1.bind (memberOf name member) := by
  have hne : specification ≠ "" := by
    rintro rfl
    have hnone : splitSpecification "" = none := by decide +kernel
    exact absurd (hnone.symm.trans h.split) (by simp)
  have hempty : ¬ (name = "" || member = "") = true := by simp [h.name, h.member]
  rw [find, if_neg hne, h.split]
  simp only [if_neg hempty]
  cases hmembers : membersOf host fs imports name with
  | mk result after =>
    cases result with
    | error fault => rfl
    | ok members =>
      simp only [Except.bind, memberOf]
      cases members.lookup member <;> rfl

/-- Without a member of a file or module, a load comes to a registered converter at most. -/
theorem find_contained (h : ∀ name member, ¬ Splits specification name member) :
    ¬ Escaped (find host fs imports specification).1 := by
  unfold find
  split
  · exact fun h => Fault.not_strays_load _ (escaped_error.1 h)
  · split
    · exact registered_contained
    · next name member hsplit =>
      split
      · exact fun h => Fault.not_strays_load _ (escaped_error.1 h)
      · next hempty =>
        simp only [Bool.or_eq_true, decide_eq_true_eq, not_or] at hempty
        exact absurd ⟨hsplit, hempty.1, hempty.2⟩ (h name member)

theorem find_escaped_iff : Escaped (find host fs imports specification).1 ↔
    ∃ name member, Splits specification name member ∧
      Escaped (membersOf host fs imports name).1 := by
  constructor
  · intro h
    refine Classical.byContradiction fun hno => ?_
    have hsplits : ∃ name member, Splits specification name member := by
      refine Classical.byContradiction fun hnone => ?_
      exact find_contained (fun name member hs => hnone ⟨name, member, hs⟩) h
    obtain ⟨name, member, hsplits⟩ := hsplits
    rw [find_of_splits hsplits, escaped_bind] at h
    rcases h with hmembers | ⟨members, -, hmember⟩
    · exact hno ⟨name, member, hsplits, hmembers⟩
    · exact not_escaped_memberOf members hmember
  · rintro ⟨name, member, hsplits, hmembers⟩
    rw [find_of_splits hsplits, escaped_bind]
    exact .inl hmembers

/-- What can get past the loader: a path that is too long to be looked up, a module name that begins
with a dot, too many packages in one another, a module that raises, and a class that does. -/
inductive Unguarded (host : Host κ) (fs : FileSystem) (imports : Imports κ)
    (specification : String) : Prop
  | path {name member : String} : Splits specification name member →
      fs.TooLong (Path.ofString name) → Unguarded host fs imports specification
  | relative {name member : String} : Splits specification name member → IsModule fs name →
      name.toList.head? = some '.' → Unguarded host fs imports specification
  | nested {name member : String} : Splits specification name member → IsModule fs name →
      TooNested fs imports name → Unguarded host fs imports specification
  | module {name member : String} : Splits specification name member → IsModule fs name →
      ModuleRaises host fs imports name → Unguarded host fs imports specification
  | factory {r : Raised} : (find host fs imports specification).1 = .ok (.factory (.error r)) →
      (Fault.raised r).Strays → r.family ≠ .typing → Unguarded host fs imports specification

theorem load_eq (spec : Option String) : (load host fs imports spec).1 =
    (find host fs imports (Text.trim (spec.getD ""))).1.bind
      (make (Text.trim (spec.getD ""))) := by
  rw [load]
  cases hfind : find host fs imports (Text.trim (spec.getD "")) with
  | mk result after => cases result <;> rfl

theorem load_escaped_iff (spec : Option String) : Escaped (load host fs imports spec).1 ↔
    Unguarded host fs imports (Text.trim (spec.getD "")) := by
  rw [load_eq, escaped_bind, find_escaped_iff]
  constructor
  · rintro (⟨name, member, hsplits, hmembers⟩ | ⟨found, hfind, hmake⟩)
    · rcases membersOf_escaped_iff.1 hmembers with
        hlong | ⟨hmodule, hdot | hnested | hraises⟩
      · exact .path hsplits hlong
      · exact .relative hsplits hmodule hdot
      · exact .nested hsplits hmodule hnested
      · exact .module hsplits hmodule hraises
    · obtain ⟨r, rfl, hstrays, htyping⟩ := make_escaped_iff.1 hmake
      exact .factory hfind hstrays htyping
  · rintro (⟨hsplits, hlong⟩ | ⟨hsplits, hmodule, hdot⟩ | ⟨hsplits, hmodule, hnested⟩ |
      ⟨hsplits, hmodule, hraises⟩ | ⟨hfind, hstrays, htyping⟩)
    · exact .inl ⟨_, _, hsplits, membersOf_escaped_iff.2 (.inl hlong)⟩
    · exact .inl ⟨_, _, hsplits, membersOf_escaped_iff.2 (.inr ⟨hmodule, .inl hdot⟩)⟩
    · exact .inl ⟨_, _, hsplits, membersOf_escaped_iff.2 (.inr ⟨hmodule, .inr (.inl hnested)⟩)⟩
    · exact .inl ⟨_, _, hsplits, membersOf_escaped_iff.2 (.inr ⟨hmodule, .inr (.inr hraises)⟩)⟩
    · exact .inr ⟨_, hfind, make_escaped_iff.2 ⟨_, rfl, hstrays, htyping⟩⟩

/-! ## One source, as a module and as a file -/

/-- Two loads come to one converter, or to load faults, or to one interruption. -/
inductive Alike : Except Fault α → Except Fault α → Prop
  | loaded (a : α) : Alike (.ok a) (.ok a)
  | refused {f g : Fault} : f.IsLoading → g.IsLoading → Alike (.error f) (.error g)
  | interrupted {f : Fault} : f.Interrupts → Alike (.error f) (.error f)

/-- Two specifications name one member of one source, the first as that of a module whose import
comes to execute the source, the second as that of a file. -/
structure SameSource (host : Host κ) (fs : FileSystem) (imports : Imports κ)
    (byName byFile member : String) (source : Path) : Prop where
  module : ∃ name, Splits byName name member ∧ IsModule fs name ∧ name.toList.head? ≠ some '.' ∧
    ¬ TooNested fs imports name ∧ ComesTo host fs source [] imports none (Text.split '.' name)
  file : ∃ name, Splits byFile name member ∧
    sourceEnding.toList.isSuffixOf (Path.ofString name).toString.toList = true ∧
    fs.read (Path.ofString name) = fs.read source

/-- Executing a source raises what is not taken for a failed import, or has it define a class that
raises what is not taken for a fault of its arguments. -/
def Raises (host : Host κ) (bytes : List UInt8) (member : String) : Prop :=
  ∃ r, (Fault.raised r).Strays ∧
    (host.execute bytes = .error r ∧ r.family ≠ .importing ∨
      ∃ members, host.execute bytes = .ok members ∧
        members.lookup member = some (.factory (.error r)) ∧ r.family ≠ .typing)

theorem raises_of_error {bytes : List UInt8} (h : host.execute bytes = .error r) :
    Raises host bytes member ↔ (Fault.raised r).Strays ∧ r.family ≠ .importing := by
  constructor
  · rintro ⟨s, hstrays, ⟨hraised, hfamily⟩ | ⟨members, hdefined, -⟩⟩
    · obtain rfl := Except.error.inj (h.symm.trans hraised)
      exact ⟨hstrays, hfamily⟩
    · exact absurd (h.symm.trans hdefined) (by simp)
  · exact fun ⟨hstrays, hfamily⟩ => ⟨r, hstrays, .inl ⟨h, hfamily⟩⟩

theorem raises_of_ok {bytes : List UInt8} {members : Members κ}
    (h : host.execute bytes = .ok members) :
    Raises host bytes member ↔ ∃ r, members.lookup member = some (.factory (.error r)) ∧
      (Fault.raised r).Strays ∧ r.family ≠ .typing := by
  simp [Raises, h, and_left_comm]

theorem alike_error_iff {f g : Fault} :
    Alike (.error f : Except Fault α) (.error g) ↔
      f.IsLoading ∧ g.IsLoading ∨ f = g ∧ f.Interrupts := by
  constructor
  · intro h
    cases h with
    | refused hf hg => exact .inl ⟨hf, hg⟩
    | interrupted hf => exact .inr ⟨rfl, hf⟩
  · rintro (⟨hf, hg⟩ | ⟨rfl, hf⟩)
    · exact .refused hf hg
    · exact .interrupted hf

theorem isLoading_wrapImport : (wrapImport name (.raised r)).IsLoading ↔
    r.family = .importing ∨ r.family = .loading := by
  rw [wrapImport]
  split
  · next h => simp [Fault.IsLoading, h]
  · next h => simp [Fault.IsLoading, h]

theorem isLoading_wrapExecution (h : r.family.interrupts = false) :
    (wrapExecution source (.raised r)).IsLoading := by
  rw [wrapExecution, if_neg (by simp [h])]
  trivial

/-- What the source raises comes to the same only if it is a failed import or a load fault, or an
interruption. -/
theorem alike_wrapped :
    Alike (.error (wrapImport name (.raised r)) : Except Fault α)
        (.error (wrapExecution source (.raised r))) ↔
      ¬ ((Fault.raised r).Strays ∧ r.family ≠ .importing) := by
  rw [alike_error_iff, isLoading_wrapImport]
  cases hinterrupts : r.family.interrupts with
  | true =>
    have hne : r.family ≠ .importing := by
      intro himporting
      simp [himporting, Family.interrupts] at hinterrupts
    have hfault : (Fault.raised r).Interrupts := hinterrupts
    have hsame : wrapImport name (.raised r) = wrapExecution source (.raised r) := by
      rw [wrapImport, if_neg hne, wrapExecution, if_pos hinterrupts]
    refine iff_of_true (.inr ⟨hsame, ?_⟩) fun h => h.1.2 hfault
    rw [wrapImport, if_neg hne]
    exact hfault
  | false =>
    have hnot : ¬ (wrapImport name (.raised r)).Interrupts := by
      rw [wrapImport]
      split
      · exact id
      · simp [Fault.Interrupts, hinterrupts]
    have hstrays : (Fault.raised r).Strays ↔ r.family ≠ .loading := by
      simp [Fault.Strays, Fault.IsLoading, Fault.Interrupts, hinterrupts]
    rw [hstrays]
    simp only [hnot, and_false, or_false, isLoading_wrapExecution hinterrupts, and_true]
    by_cases himporting : r.family = .importing <;> simp [himporting]

/-- What a class raises comes to the same only if it is taken for a load fault both times. -/
theorem alike_made {one other : String} {found : Member κ} :
    Alike (make one found) (make other found) ↔
      ¬ ∃ r, found = .factory (.error r) ∧ (Fault.raised r).Strays ∧ r.family ≠ .typing := by
  cases found with
  | callable converter => simp [make, Alike.loaded]
  | value => simp [make, alike_error_iff, Fault.IsLoading]
  | factory made =>
    cases made with
    | ok converter? =>
      cases converter? <;> simp [make, Alike.loaded, alike_error_iff, Fault.IsLoading]
    | error r =>
      by_cases htyping : r.family = .typing
      · simp [make, htyping, alike_error_iff, Fault.IsLoading]
      · simp [make, htyping, alike_error_iff, Fault.Strays, Classical.or_iff_not_imp_left]

theorem membersOf_file {bytes : List UInt8}
    (hending : sourceEnding.toList.isSuffixOf (Path.ofString name).toString.toList = true)
    (hread : fs.read (Path.ofString name) = .ok bytes) :
    (membersOf host fs imports name).1 =
      (host.execute bytes).mapError fun r => wrapExecution (Path.ofString name) (.raised r) := by
  have hfile := FileSystem.isFile_eq_true_iff.2 ⟨bytes, hread⟩
  rw [membersOf_of_file (.inr hfile)]
  unfold membersOfFile
  simp only [hfile, if_pos hending, executeFile_of_read hread]
  cases host.execute bytes <;> rfl

theorem membersOf_module {bytes : List UInt8} (hmodule : IsModule fs name)
    (hdot : name.toList.head? ≠ some '.') (hshallow : ¬ TooNested fs imports name)
    (hcomes : ComesTo host fs source [] imports none (Text.split '.' name))
    (hread : fs.read source = .ok bytes) :
    (membersOf host fs imports name).1 =
      (host.execute bytes).mapError fun r => wrapImport name (.raised r) := by
  rw [membersOf_of_isModule hmodule, importModule_of_shallow hdot hshallow]
  cases hexecuted : host.execute bytes with
  | ok members => rw [hcomes.importParts_executed hread hexecuted]; rfl
  | error r => rw [hcomes.importParts_raises hread hexecuted]; rfl

/-- A load by a specification that names a member. -/
theorem load_of_splits {spec : String} (h : Splits (Text.trim spec) name member) :
    (load host fs imports (some spec)).1 =
      ((membersOf host fs imports name).1.bind (memberOf name member)).bind
        (make (Text.trim spec)) := by
  rw [load_eq, Option.getD_some, find_of_splits h]

theorem alike_of_same_source {byName byFile : String} (h : SameSource host fs imports
      (Text.trim byName) (Text.trim byFile) member source) :
    ∃ bytes, fs.read source = .ok bytes ∧
      (Alike (load host fs imports (some byName)).1 (load host fs imports (some byFile)).1 ↔
        ¬ Raises host bytes member) := by
  obtain ⟨name, hname, hmodule, hdot, hshallow, hcomes⟩ := h.module
  obtain ⟨filename, hfile, hending, hsame⟩ := h.file
  obtain ⟨bytes, hread⟩ := hcomes.read
  refine ⟨bytes, hread, ?_⟩
  rw [load_of_splits hname, load_of_splits hfile, membersOf_module hmodule hdot hshallow hcomes hread,
    membersOf_file hending (hsame.trans hread)]
  cases hexecuted : host.execute bytes with
  | error r => exact alike_wrapped.trans (not_congr (raises_of_error hexecuted).symm)
  | ok members =>
    rw [raises_of_ok hexecuted]
    simp only [mapError_ok, Except.bind, memberOf]
    cases members.lookup member with
    | none => simp [alike_error_iff, Fault.IsLoading]
    | some found => simpa using alike_made

/-- A load ends in a converter, a load fault or an interruption, unless it is unguarded. A source
that is loaded as a module and as a file comes to the same, unless it raises what is not taken for a
load fault. -/
theorem load_contained (host : Host κ) (fs : FileSystem) (imports : Imports κ) :
    (∀ spec, Escaped (load host fs imports spec).1 ↔
      Unguarded host fs imports (Text.trim (spec.getD ""))) ∧
    ∀ {byName byFile member : String} {source : Path},
      SameSource host fs imports (Text.trim byName) (Text.trim byFile) member source →
      ∃ bytes, fs.read source = .ok bytes ∧
        (Alike (load host fs imports (some byName)).1 (load host fs imports (some byFile)).1 ↔
          ¬ Raises host bytes member) :=
  ⟨load_escaped_iff, alike_of_same_source⟩

/-! ## A module that raises -/

def boom : Raised := ⟨.other, "ValueError", "boom"⟩

/-- Whatever is executed raises. -/
def raising : Host Unit where
  execute := fun _ => .error boom
  registrations := []

def oneModule : FileSystem :=
  (FileSystem.empty .usual).set ["conv.py"] (.file [])

theorem read_oneModule : oneModule.read ⟨.relative, ["conv.py"]⟩ = .ok [] := rfl

theorem boom_strays : (Fault.raised boom).Strays := by
  constructor
  all_goals
    intro h
    cases h

theorem splits_conv : Splits "conv:convert" "conv" "convert" :=
  ⟨by decide +kernel, by decide, by decide⟩

theorem isModule_conv : IsModule oneModule "conv" :=
  ⟨by decide +kernel, rfl⟩

theorem comesTo_conv : ComesTo raising oneModule ⟨.relative, ["conv.py"]⟩ [] [] none
    (Text.split '.' "conv") := by
  have hparts : Text.split '.' "conv" = ["conv"] := by decide +kernel
  rw [hparts]
  exact .here ⟨rfl, .here, .file ⟨.relative, ["conv.py"]⟩, rfl, rfl, rfl⟩

theorem load_contained_raising :
    Escaped (load raising oneModule [] (some "conv:convert")).1 ∧
      ¬ Alike (load raising oneModule [] (some "conv:convert")).1
        (load raising oneModule [] (some "conv.py:convert")).1 := by
  have hname : Text.trim "conv:convert" = "conv:convert" := by decide +kernel
  have hfile : Text.trim "conv.py:convert" = "conv.py:convert" := by decide +kernel
  have hdot : "conv".toList.head? ≠ some '.' := by decide
  have hshallow : ¬ TooNested oneModule ([] : Imports Unit) "conv" := by decide +kernel
  obtain ⟨hescaped, hsame⟩ := load_contained raising oneModule []
  constructor
  · refine (hescaped _).2 ?_
    rw [Option.getD_some, hname]
    exact .module splits_conv isModule_conv
      ⟨hshallow, _, _, _, boom, comesTo_conv, read_oneModule, rfl, boom_strays, by decide⟩
  · have hsource : SameSource raising oneModule [] (Text.trim "conv:convert")
        (Text.trim "conv.py:convert") "convert" ⟨.relative, ["conv.py"]⟩ := by
      rw [hname, hfile]
      exact ⟨⟨"conv", splits_conv, isModule_conv, hdot, hshallow, comesTo_conv⟩,
        "conv.py", ⟨by decide +kernel, by decide, by decide⟩, by decide +kernel, rfl⟩
    obtain ⟨bytes, -, halike⟩ := hsame hsource
    rw [halike, Classical.not_not]
    exact ⟨boom, boom_strays, .inl ⟨rfl, by decide⟩⟩

/-- What a module raises when it is imported may get past the loader. -/
theorem not_load_always_contained :
    ¬ ∀ (host : Host Unit) (fs : FileSystem) (imports : Imports Unit) (spec : Option String),
      (∃ converter, (load host fs imports spec).1 = .ok converter) ∨
        ∃ fault, (load host fs imports spec).1 = .error fault ∧
          (fault.IsLoading ∨ fault.Interrupts) := by
  intro h
  have hload : (load raising oneModule [] (some "conv:convert")).1 = .error (.raised boom) := rfl
  rcases h raising oneModule [] (some "conv:convert") with ⟨converter, hok⟩ | ⟨fault, herror, hkind⟩
  · rw [hload] at hok
    cases hok
  · obtain rfl := Except.error.inj (hload.symm.trans herror)
    exact hkind.elim boom_strays.1 boom_strays.2

end Loading

end ResourceAccessors
