import FlowFacts.Graph.Command

/-!
# Commands in place

A graph is one object that commands change in place. A procedure on it writes one part after the
other, and if it fails, what it has written by then stays written: nothing is rolled back. So it
must not write anything before it can no longer fail. The analyses find all of their results before
they store the first of them, and an insertion makes all of its tests before it touches the body.

## Main definitions

* `InPlace` — procedures that change a state and may fail
* `InPlace.storeLiveness`, `InPlace.storeLineLiveness`, `InPlace.storeChains`, `InPlace.splice` —
  procedures on blocks
* `Graph.execute` — carries out a command on a graph
-/

namespace FlowFacts

/-- A procedure that changes a state and may fail. It leaves a state behind in either case. -/
abbrev InPlace (σ α : Type) : Type := EStateM Error σ α

namespace InPlace

/-! ### Procedures on blocks -/

section Blocks

variable {n : Nat}

/-- Rewrites blocks one after the other, each with what was found for it. -/
def rewrite {β : Type} (found : List β) (f : β → Block n → Block n) :
    InPlace (List (Block n)) Unit :=
  forM found.zipIdx fun p => modify fun blocks => blocks.modify p.2 (f p.1)

/-- Solves liveness and stores the sets of every block. Returns the number of visits. -/
def storeLiveness (limit : Option Nat) : InPlace (List (Block n)) Nat := do
  match solveLiveness (← get) limit with
  | .error e => throw (.iterationLimit e.limit)
  | .ok s =>
    rewrite (s.inputs.zip s.outputs) fun live b => b.setLive (b.summary n) live.1 live.2
    return s.visits

/-- Stores what is live after each line of every block. -/
def storeLineLiveness : InPlace (List (Block n)) Unit := do
  rewrite (← get) fun _ b => b.setLineLiveness

/-- Finds the chain of every definition and stores the bodies with their chains. Returns the number
of definitions. -/
def storeChains : InPlace (List (Block n)) Nat := do
  match setChains (← get) with
  | .error e => throw e
  | .ok (definitions, chained) =>
    rewrite chained fun c b => { b with body := c.body }
    return definitions

/-- Puts an operation into the body of block `b`, in front of line `place`, if there is a line at
`position`. -/
def splice (b position place : Nat) (o : Op) : InPlace (List (Block n)) Unit := do
  match (← get)[b]? with
  | none => throw (.malformed (.noBlock b))
  | some block =>
    if position < block.body.length then
      modify fun blocks => blocks.modify b fun block =>
        { block with body := block.body.insertIdx place (Line.blank n o) }
    else throw (.malformed (.noLine b position))

end Blocks

/-! ### Procedures on graphs -/

/-- A procedure on the blocks of a graph, which changes them also where it fails. -/
def onBlocks {α : Type} (x : (n : Nat) → InPlace (List (Block n)) α) : InPlace Graph α := fun g =>
  match x g.tempCount g.blocks with
  | .ok a blocks => .ok a { g with blocks }
  | .error e blocks => .error e { g with blocks }

/-- Notes that the results of an analysis are stored. -/
def noteComputed (a : Analyses) : InPlace Graph Unit :=
  modify fun g => { g with computed := g.computed.union a }

/-- Inserts an operation next to line `position` of block `b`, in front of line `place`. -/
def insertLine (b position place : Nat) (i : Instr) : InPlace Graph Unit := do
  match (← get).insertable i with
  | .error e => throw e
  | .ok o => onBlocks fun _ => splice b position place o

end InPlace

open InPlace in
/-- Carries out a command on a graph. -/
def Graph.execute : Command → InPlace Graph Reply
  | .liveness limit => do
    let visits ← onBlocks fun _ => storeLiveness limit
    noteComputed .liveness
    return .count visits
  | .lineLiveness => do
    if (← get).computed.contains .liveness then
      onBlocks fun _ => storeLineLiveness
      noteComputed .lineLiveness
      return .done
    else throw (.malformed (.livenessMissing (← get).name))
  | .chains => do
    let definitions ← onBlocks fun _ => storeChains
    noteComputed .chains
    return .count definitions
  | .insertBefore b p i => do
    insertLine b p p i
    return .done
  | .insertAfter b p i => do
    insertLine b p (p + 1) i
    return .done
  | .append b text => do
    modify fun g => g.append b text
    return .output (((← get).block? b).map Block.output)

end FlowFacts
