import FlowFacts.Chain
import FlowFacts.Graph.Basic
import FlowFacts.Liveness.Line

/-!
# Commands

A graph is changed by commands: analyses to run, operations to insert, output to append. A command
either succeeds with a reply and the changed graph, or it fails and there is no changed graph.

Stored facts are not kept up to date. An inserted line starts without any, and the facts about the
rest of the graph stay what they were until an analysis runs again.

## Main definitions

* `Graph.setLiveness`, `Graph.setLineLiveness`, `Graph.setChains` — the analyses
* `Graph.insertAt` — editing a body
* `Graph.perform` — one command, with its reply or its error
* `Graph.apply`, `Graph.applyAll` — histories of commands, failed ones among them
-/

namespace FlowFacts

/-- Something to be done to a graph. -/
inductive Command where
  /-- Solve liveness of blocks, with a limit on the visits. -/
  | liveness (limit : Option Nat)
  /-- Store what is live after each line. -/
  | lineLiveness
  /-- Store the chain of each definition. -/
  | chains
  /-- Insert an operation before a line of a block. -/
  | insertBefore (block position : Nat) (instr : Instr)
  /-- Insert an operation after a line of a block. -/
  | insertAfter (block position : Nat) (instr : Instr)
  /-- Append a line of output text to a block. -/
  | append (block : Nat) (text : String)
deriving DecidableEq

/-- What a command that succeeds answers. -/
inductive Reply where
  | done
  /-- The number of visits or of definitions. -/
  | count (number : Nat)
  /-- The output text of the block, if there is such a block. -/
  | output (lines : Option (List String))
deriving DecidableEq

namespace Graph

/-! ### Analysing -/

/-- Solves and stores liveness of blocks. Also returns the number of visits. -/
def setLiveness (g : Graph) (limit : Option Nat) : Except Error (Nat × Graph) := do
  let (visits, blocks) ← FlowFacts.setLiveness g.blocks limit
  return (visits, { g with blocks, computed := g.computed.union .liveness })

/-- Stores what is live after each line, for which liveness of blocks must have been stored. -/
def setLineLiveness (g : Graph) : Except Error Graph :=
  if g.computed.contains .liveness then
    .ok { g with
      blocks := g.blocks.map Block.setLineLiveness
      computed := g.computed.union .lineLiveness }
  else .error (.malformed (.livenessMissing g.name))

/-- Stores the chain of each definition. Also returns the number of definitions. -/
def setChains (g : Graph) : Except Error (Nat × Graph) := do
  let (definitions, blocks) ← FlowFacts.setChains g.blocks
  return (definitions, { g with blocks, computed := g.computed.union .chains })

/-! ### Editing -/

/-- The instruction as an operation that may be inserted: it is an ordinary one, and every temp
that it names is one of the routine. -/
def insertable (g : Graph) (i : Instr) : Except Error Op :=
  match i.op? with
  | none => .error (.malformed (.notOperation i))
  | some o =>
    match o.temps.find? fun t => g.tempCount ≤ t.slot with
    | some t => .error (.malformed (.unknownTemp i t g.tempCount))
    | none => .ok o

/-- Inserts an operation next to line `position` of block `b`, in front of line `place`. The facts
of the block stay as they are, and nothing is known about the new line. -/
def insertAt (g : Graph) (b position place : Nat) (i : Instr) : Except Error Graph := do
  let o ← g.insertable i
  match g.blocks[b]? with
  | none => .error (.malformed (.noBlock b))
  | some block =>
    if position < block.body.length then
      let body := block.body.take place ++ Line.blank _ o :: block.body.drop place
      return { g with blocks := g.blocks.set b { block with body } }
    else .error (.malformed (.noLine b position))

/-- Appends a line of output text to a block. A block that does not exist takes none. -/
def append (g : Graph) (b : Nat) (text : String) : Graph :=
  { g with blocks := g.blocks.modify b fun block => block.append text }

/-! ### Carrying out commands -/

/-- Carries out a command. -/
def perform (g : Graph) : Command → Except Error (Reply × Graph)
  | .liveness limit => (fun p => (.count p.1, p.2)) <$> g.setLiveness limit
  | .lineLiveness => (fun g => (.done, g)) <$> g.setLineLiveness
  | .chains => (fun p => (.count p.1, p.2)) <$> g.setChains
  | .insertBefore b p i => (fun g => (.done, g)) <$> g.insertAt b p p i
  | .insertAfter b p i => (fun g => (.done, g)) <$> g.insertAt b p (p + 1) i
  | .append b text =>
    let g := g.append b text
    .ok (.output ((g.block? b).map Block.output), g)

/-- The graph after a command, which is the graph as it was if the command fails. -/
def apply (g : Graph) (c : Command) : Graph :=
  match g.perform c with
  | .ok (_, g) => g
  | .error _ => g

/-- The graph after a history of commands, failed ones among them. -/
def applyAll (g : Graph) (cs : List Command) : Graph := cs.foldl apply g

/-- Carries out commands up to the first that fails. -/
def performAll (g : Graph) : List Command → Except Error Graph
  | [] => .ok g
  | c :: cs => do
    let (_, g) ← g.perform c
    g.performAll cs

end Graph

end FlowFacts
