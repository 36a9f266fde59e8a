import FlowFacts.Block.Basic

/-!
# Backward dataflow problems

A problem gives every block two equations: its out-state is the meet of the in-states of its
successors, or the boundary value if it has none, and its in-state is the transfer of its out-state.

The solver keeps a queue of blocks, at first all of them with the last block in front. A visit takes
the front block, recomputes its states, and if the in-state changed appends those predecessors that
are not in the queue. A block with an edge to itself may so be queued by its own visit. When the
queue is empty the equations hold.

No law is asked of a problem, nor of the test by which its states are compared, so a solve may go on
for ever; it is cut off by a limit on the number of visits. A solve without a limit of its own is
cut off where a 64-bit counter of visits is full.

## Main definitions

* `Problem` — boundary, initial value, meet and transfer
* `Progress.visit`, `Progress.run` — one visit, and as many as are allowed
* `solve` — the solution, or the fact that the visits did not suffice
-/

namespace FlowFacts

/-- A backward dataflow problem over states of type `α`. -/
structure Problem (n : Nat) (α : Type) where
  /-- The out-state of a block without successors. -/
  boundary : α
  /-- The state of a block before its first visit. -/
  initial : α
  meet : α → α → α
  /-- The in-state of a block, given its number and its out-state. -/
  transfer : Nat → Block n → α → α

/-- The out-state that the in-states of the successors make up, met from left to right. -/
def Problem.output {n : Nat} {α : Type} (p : Problem n α) (inputs : List α)
    (successors : List Nat) : α :=
  match successors.filterMap (inputs[·]?) with
  | [] => p.boundary
  | x :: xs => xs.foldl p.meet x

/-- The states found so far, the blocks still to visit, and the blocks visited. -/
structure Progress (α : Type) where
  inputs : List α
  outputs : List α
  queue : List Nat
  trail : Array Nat

/-- States that satisfy the equations, and the blocks that were visited to find them. -/
structure Solution (α : Type) where
  inputs : List α
  outputs : List α
  trail : Array Nat

/-- The visits that were made before the limit on them was reached. -/
structure Unsettled where
  limit : Nat
  trail : Array Nat

/-- The number of visits made. -/
def Solution.visits {α : Type} (s : Solution α) : Nat := s.trail.size

/-- Appends those blocks to a queue that are not in it. -/
def enqueue (queue : List Nat) (blocks : List Nat) : List Nat :=
  blocks.foldl (fun q b => if b ∈ q then q else q ++ [b]) queue

namespace Progress

variable {n : Nat} {α : Type}

/-- Every block has the initial state and is in the queue, the last one in front. -/
def start (p : Problem n α) (blocks : List (Block n)) : Progress α where
  inputs := List.replicate blocks.length p.initial
  outputs := List.replicate blocks.length p.initial
  queue := (List.range blocks.length).reverse
  trail := #[]

/-- Visits the block at the front of the queue. -/
def visit [BEq α] (p : Problem n α) (blocks : List (Block n)) (s : Progress α) :
    Progress α :=
  match s.queue with
  | [] => s
  | b :: rest =>
    match blocks[b]? with
    | none => { s with queue := rest }
    | some block =>
      let output := p.output s.inputs block.successors
      let input := p.transfer b block output
      { inputs := s.inputs.set b input
        outputs := s.outputs.set b output
        queue :=
          if s.inputs[b]?.any (input == ·) then rest else enqueue rest (predecessors blocks b)
        trail := s.trail.push b }

/-- Makes at most the given number of visits. The problem may depend on the number of the visit,
counted from one. -/
def run [BEq α] (p : Nat → Problem n α) (blocks : List (Block n)) :
    Nat → Progress α → Progress α
  | 0, s => s
  | k + 1, s =>
    if s.queue = [] then s else run p blocks k (s.visit (p (s.trail.size + 1)) blocks)

end Progress

/-- The largest number of visits that a 64-bit counter can hold. -/
def maxVisits : Nat := UInt64.size - 1

variable {n : Nat} {α : Type} [BEq α]

/-- Solves a problem that may depend on the number of the visit. -/
def solveNumbered (p : Nat → Problem n α) (blocks : List (Block n)) (limit : Option Nat) :
    Except Unsettled (Solution α) :=
  let limit := limit.getD maxVisits
  let s := (Progress.start (p 0) blocks).run p blocks limit
  if s.queue = [] then .ok ⟨s.inputs, s.outputs, s.trail⟩ else .error ⟨limit, s.trail⟩

/-- Solves a problem within a limit on the number of visits. -/
def solve (p : Problem n α) (blocks : List (Block n)) (limit : Option Nat) :
    Except Unsettled (Solution α) :=
  solveNumbered (fun _ => p) blocks limit

end FlowFacts
