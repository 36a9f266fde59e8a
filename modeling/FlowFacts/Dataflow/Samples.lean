import FlowFacts.Dataflow.Solver

/-!
# Small dataflow problems

Problems beside liveness that exercise the solver: which temps terminators read, how far it is to
the end of the routine, and a problem without a solution on a circle.
-/

namespace FlowFacts

variable {n : Nat}

/-- The temps that terminators down the line test or return. -/
def terminatorReads (n m : Nat) : Problem n (TempSet m) where
  boundary := .empty m
  initial := .empty m
  meet := .union
  transfer _ b out := out.insertAll b.operand.toList

/-- How the distance to the end of a routine is measured. -/
structure Distance where
  boundary : Int
  initial : Int
  /-- Is the longest way wanted, and not the shortest? -/
  longest : Bool
  /-- What each line of a body adds. -/
  weight : Int
  /-- Distances beyond the cap count as the cap. -/
  cap : Int

/-- The distance to the end of the routine, one for each block and `weight` for each line. -/
def distance (n : Nat) (d : Distance) : Problem n Int where
  boundary := d.boundary
  initial := d.initial
  meet := if d.longest then max else min
  transfer _ b out := min (out + 1 + b.body.length * d.weight) d.cap

/-- The state of a block is the number of the visit that computed it, so no visit leaves a state
as it was. -/
def visitNumber (n k : Nat) : Problem n Int where
  boundary := 0
  initial := 0
  meet := max
  transfer _ _ _ := k

end FlowFacts
