import FlowFacts.Dataflow.Solver
import FlowFacts.Error

/-!
# Liveness of blocks

A temp is live where control may still reach a read of it before a write. For a whole block that is
decided by the first occurrence of each temp in it: a temp that is read first is in the block's use
set, one that is written first in its def set, and liveness passes the block by
`in = use ∪ (out \ def)`.

`Block.summary` is the pair of these sets, `liveVariables` the dataflow problem, `setLiveness` solves
it and stores the result, and `satisfiesEquations` checks stored sets against the equations.
-/

namespace FlowFacts

variable {n : Nat}

/-- An occurrence of a temp. -/
inductive Access where
  | read (temp : Temp)
  | write (temp : Temp)
deriving DecidableEq

/-- The occurrences of temps in an operation: it reads before it writes. -/
def Op.accesses (o : Op) : List Access := o.sources.map .read ++ o.dest.toList.map .write

/-- The occurrences of temps in a block, in the order in which control meets them. -/
def Block.accesses (b : Block n) : List Access :=
  b.ops.flatMap Op.accesses ++ b.operand.toList.map .read

/-- The temps of a block by their first occurrence. -/
structure Summary (m : Nat) where
  defs : TempSet m
  uses : TempSet m
deriving DecidableEq

namespace Summary

variable {m : Nat}

def empty (m : Nat) : Summary m := ⟨.empty m, .empty m⟩

/-- Notes an occurrence, which counts if it is the first one of its temp. -/
def note (s : Summary m) : Access → Summary m
  | .read t => if t ∈ s.defs ∨ t ∈ s.uses then s else { s with uses := s.uses.insert t }
  | .write t => if t ∈ s.defs ∨ t ∈ s.uses then s else { s with defs := s.defs.insert t }

/-- What is live before a block, given what is live after it. -/
def transfer (s : Summary m) (out : TempSet m) : TempSet m := (out.diff s.defs).union s.uses

end Summary

/-- The temps with slots below `m` that occur in a block, by their first occurrence. -/
def Block.summary (m : Nat) (b : Block n) : Summary m := b.accesses.foldl Summary.note (.empty m)

/-- Liveness of temps with slots below `m`. Blocks without a summary pass liveness on. -/
def liveVariables (n : Nat) {m : Nat} (summaries : List (Summary m)) : Problem n (TempSet m) where
  boundary := .empty m
  initial := .empty m
  meet := .union
  transfer b _ out :=
    match summaries[b]? with
    | some s => s.transfer out
    | none => out

/-- A number of visits that suffices: each block once, and each edge once for every temp that can
become live. It is cut off where a 64-bit counter is full. -/
def defaultLimit (blocks : List (Block n)) (m : Nat) : Nat :=
  min (blocks.length + edgeCount blocks * m + 1) maxVisits

/-- Solves liveness of the temps with slots below `n`. -/
def solveLiveness (blocks : List (Block n)) (limit : Option Nat) :
    Except Unsettled (Solution (TempSet n)) :=
  solve (liveVariables n (blocks.map (Block.summary n))) blocks
    (limit.getD (defaultLimit blocks n))

/-- A block with the results of a liveness solve. -/
def Block.setLive (b : Block n) (s : Summary n) (liveIn liveOut : TempSet n) : Block n :=
  { b with defs := s.defs, uses := s.uses, liveIn, liveOut }

/-- Solves liveness and stores the sets of every block. Also returns the number of visits. -/
def setLiveness (blocks : List (Block n)) (limit : Option Nat) :
    Except Error (Nat × List (Block n)) :=
  match solveLiveness blocks limit with
  | .error e => .error (.iterationLimit e.limit)
  | .ok s =>
    let states := s.inputs.zip s.outputs
    .ok (s.visits, (blocks.zip states).map fun p => p.1.setLive (p.1.summary n) p.2.1 p.2.2)

/-- Do the stored sets of a block satisfy its equations? -/
def Block.satisfiesEquations (blocks : List (Block n)) (b : Block n) : Bool :=
  match b.successors.mapM (blocks[·]?) with
  | none => false
  | some successors =>
    let out := successors.foldl (fun s t => s.union t.liveIn) (.empty n)
    out == b.liveOut && Summary.transfer ⟨b.defs, b.uses⟩ out == b.liveIn

/-- Do the stored sets of all blocks satisfy the liveness equations? A block with a successor that
is not in the list does not. -/
def satisfiesEquations (blocks : List (Block n)) : Bool :=
  blocks.all (Block.satisfiesEquations blocks)

end FlowFacts
