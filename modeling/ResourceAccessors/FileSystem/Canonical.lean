import ResourceAccessors.FileSystem.Lookup

/-! The path without links that a path stands for. Names that lead to nothing are kept as they are.
In a loop of links the reading stops, and what is left of the texts is appended as it is: names
without a look at the files, or, behind a second slash, another path from the root. A loop is
noticed when a link is met again under the same spelling, and the spellings of what is read from
the working directory stay relative. Links that are read in one another to more levels than calls
may wait are given up. -/
namespace ResourceAccessors
set_option autoImplicit false

/-- How far a path has been read: the path reached, the links read by their spellings (without a
path while they are being read), and whether a link was met while it was being read. -/
structure Tracing where
  reached : Path
  links : List (Path × Option Path)
  looped : Bool

namespace FileSystem

/-- Where a path is that no link is on. -/
def locationOf (fs : FileSystem) (p : Path) : Location :=
  p.names.foldl Path.stepLexically (fs.start p)

/-- The path a link's target is read from, when the link is read from a path. -/
def targetBase (p : Path) (target : String) : Path :=
  if target.toList.head? = some '/' then ⟨.root, []⟩ else p

/-- A path with the rest of a text behind it. -/
def withRest (p : Path) (rest : List String) : Path :=
  p.join (.ofString ("/".intercalate rest))

/-- Reads the segments of a text; `read` reads those of a link's target. -/
def traceSegments (fs : FileSystem) (read : Tracing → List String → Except FileFault Tracing) :
    Tracing → List String → Except FileFault Tracing
  | t, [] => .ok t
  | t, name :: rest =>
    let next := t.reached.advance name
    if !Path.isKept name then traceSegments fs read t rest
    else if name = ".." then traceSegments fs read { t with reached := next } rest
    else
      match fs.entryAt (fs.locationOf next) with
      | some (.link target) =>
        match t.links.lookup next with
        | some (some known) => traceSegments fs read { t with reached := known } rest
        | some none => .ok { t with reached := withRest next rest, looped := true }
        | none =>
          match read ⟨targetBase t.reached target, (next, none) :: t.links, false⟩
            (Text.split '/' target) with
          | .error fault => .error fault
          | .ok inner =>
            if inner.looped then .ok { inner with reached := withRest inner.reached rest }
            else
              traceSegments fs read
                { inner with links := (next, some inner.reached) :: inner.links } rest
      | _ => traceSegments fs read { t with reached := next } rest

/-- Reads segments, links in links as long as calls are left to wait for them. -/
def trace (fs : FileSystem) (reason : String) :
    (calls : Nat) → Tracing → List String → Except FileFault Tracing
  | 0 => fs.traceSegments fun _ _ => .error (.tooNested reason)
  | calls + 1 => fs.traceSegments (trace fs reason calls)

def canonical (fs : FileSystem) (p : Path) : Except FileFault Path :=
  let base : Path := if p.isAbsolute then ⟨.root, []⟩ else .here
  let limit := fs.limits.links
  match fs.trace limit.reason limit.calls ⟨base, [], false⟩ p.names with
  | .error fault => .error fault
  | .ok traced =>
    let reached := traced.reached
    .ok ⟨if reached.isAbsolute then reached.anchor else .root, fs.locationOf reached⟩

/-- Whether a path runs into too many links. -/
def isLinkLoop (fs : FileSystem) (p : Path) : Bool :=
  match fs.locate p with
  | .error (.obstructed .tooManyLinks _) => true
  | _ => false

end FileSystem

end ResourceAccessors
