import PageCompiler.Artifact.Basic

/-!
# `PageCompiler.Server.Sessions`: the last artifact of each session

A session keeps its last artifact. There is room for a number of sessions. When there are more, the
session whose artifact was written longest ago is dropped. Reading an artifact changes nothing.
-/

set_option autoImplicit false

namespace PageCompiler

/-- The last artifacts of sessions, the latest written at the end. -/
structure Sessions where
  /-- The most sessions that are kept. -/
  capacity : Nat
  entries : Assoc Artifact
  deriving DecidableEq, Repr

/-- A number of sessions that is not positive. -/
structure CapacityError where
  capacity : Int
  deriving DecidableEq, Repr

/-- What is said about a number of sessions that is not positive. -/
def CapacityError.message (_ : CapacityError) : String :=
  "max_sessions must be positive"

namespace Sessions

/-- No sessions yet, with room for some. -/
def create (capacity : Int) : Except CapacityError Sessions :=
  if 0 < capacity then .ok { capacity := capacity.toNat, entries := [] }
  else .error { capacity }

/-- Keeps the artifact of a session. -/
def put (s : Sessions) (id : String) (a : Artifact) : Sessions :=
  let entries := s.entries.filter (fun entry => entry.1 != id) ++ [(id, a)]
  { s with entries := entries.drop (entries.length - s.capacity) }

/-- The last artifact of a session. -/
def get? (s : Sessions) (id : String) : Option Artifact :=
  Assoc.get? s.entries id

/-- The number of sessions kept. -/
def size (s : Sessions) : Nat :=
  s.entries.length

end Sessions

end PageCompiler
