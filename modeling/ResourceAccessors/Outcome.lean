import ResourceAccessors.Path

/-! What becomes of each resource file, and the summary of a run. -/
namespace ResourceAccessors
set_option autoImplicit false

inductive Status where
  | converted
  | unchanged
  | failed
  | other (label : String)
  deriving DecidableEq

namespace Status

def label : Status → String
  | converted => "converted"
  | unchanged => "unchanged"
  | failed => "failed"
  | other label => label

def ofLabel (s : String) : Status :=
  if s = "converted" then converted
  else if s = "unchanged" then unchanged
  else if s = "failed" then failed
  else other s

theorem label_ofLabel (s : String) : (ofLabel s).label = s := by
  simp only [ofLabel]
  split
  · simp_all [label]
  · split
    · simp_all [label]
    · split <;> simp_all [label]

end Status

/-- A resource file found by a scan; `relative` is its path below `root`. -/
structure SourceFile where
  source : Path
  root : Path
  relative : Path
  deriving DecidableEq

structure Outcome where
  source : Path
  relative : Path
  status : Status
  output : Option Path
  message : Option String
  deriving DecidableEq

/-- The counts and outcomes of one run. -/
structure Summary where
  root : Path
  processed : Nat
  converted : Nat
  failed : Nat
  outcomes : List Outcome
  succeeded : Bool
  rootMissing : Bool
  deriving DecidableEq

namespace Summary

def empty (root : Path) : Summary where
  root := root
  processed := 0
  converted := 0
  failed := 0
  outcomes := []
  succeeded := true
  rootMissing := false

/-- What is neither converted nor failed. -/
def unchanged (s : Summary) : Nat :=
  s.processed - s.converted - s.failed

def record (s : Summary) (o : Outcome) : Summary :=
  { s with
    outcomes := s.outcomes ++ [o]
    processed := s.processed + 1
    converted := s.converted + if o.status = .converted then 1 else 0
    failed := s.failed + if o.status = .failed then 1 else 0 }

end Summary

end ResourceAccessors
