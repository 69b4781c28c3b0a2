import Std.Data.ExtTreeMap
import ResourceAccessors.Path

/-! A file system as a finite map from locations to entries, with the directory the process works
in and the limits it works under. A location is a list of names read from the root, which is always
a directory and never stored.

Nothing forces the directory above an entry to exist: what has no path through directories is never
reached by the operations on paths, which look at every directory on the way. -/
namespace ResourceAccessors
set_option autoImplicit false

abbrev Location := List String

inductive Entry where
  | file (content : List UInt8)
  | directory
  | link (target : String)
  deriving DecidableEq

/-- How many calls of an operation may wait for one inside them, and how it is worded that one more
would have to. -/
structure CallLimit where
  calls : Nat
  reason : String
  deriving DecidableEq

/-- The limits of the operations that call themselves level by level: adding the directories above a
generated file, adding those above a report, listing a tree, reading links in links to where a
report is, and importing the packages that a module is in. They share one supply of calls, but what
already waits when they start differs. -/
structure Limits where
  outputs : CallLimit
  reports : CallLimit
  listings : CallLimit
  links : CallLimit
  imports : CallLimit
  deriving DecidableEq

/-- Those of a process in which a thousand calls may wait: some tens do already when one of these
operations starts, and each import takes four. -/
def Limits.usual : Limits :=
  let exceeded := "maximum recursion depth exceeded"
  let limit : CallLimit := ⟨960, exceeded⟩
  ⟨limit, limit, limit, limit, ⟨240, exceeded⟩⟩

structure FileSystem where
  entries : Std.ExtTreeMap Location Entry
  workingDirectory : Location
  limits : Limits

namespace FileSystem

def entryAt (fs : FileSystem) (loc : Location) : Option Entry :=
  if loc = [] then some .directory else fs.entries[loc]?

/-- Makes `e` the entry at a location, whatever was there. -/
def set (fs : FileSystem) (loc : Location) (e : Entry) : FileSystem :=
  { fs with entries := fs.entries.insert loc e }

/-- Nothing but the root. -/
def empty (limits : Limits) : FileSystem := ⟨∅, [], limits⟩

/-- The names in a directory, in order of their code points. -/
def children (fs : FileSystem) (dir : Location) : List String :=
  fs.entries.keys.filterMap fun loc =>
    match loc.getLast? with
    | some name => if loc.dropLast = dir && Path.isEntryName name then some name else none
    | none => none

@[simp] theorem entryAt_nil (fs : FileSystem) : fs.entryAt [] = some .directory := by
  simp [entryAt]

theorem entryAt_set (fs : FileSystem) (loc l : Location) (e : Entry) (h : loc ≠ []) :
    (fs.set loc e).entryAt l = if l = loc then some e else fs.entryAt l := by
  unfold entryAt set
  rw [Std.ExtTreeMap.getElem?_insert]
  by_cases hl : l = []
  · subst hl
    simp [Ne.symm h]
  · by_cases he : l = loc
    · subst he
      simp [hl]
    · simp [hl, he, Ne.symm he]

@[simp] theorem workingDirectory_set (fs : FileSystem) (loc : Location) (e : Entry) :
    (fs.set loc e).workingDirectory = fs.workingDirectory := rfl

@[simp] theorem limits_set (fs : FileSystem) (loc : Location) (e : Entry) :
    (fs.set loc e).limits = fs.limits := rfl

end FileSystem

end ResourceAccessors
