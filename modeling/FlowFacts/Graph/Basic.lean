import FlowFacts.Block.Edge
import FlowFacts.Liveness.Block
import FlowFacts.Plan
import FlowFacts.Routine.Basic

/-!
# Flow graphs

A flow graph is what is left of a routine once its stream is cut into blocks and pruned: the blocks,
what is known about each label, and which analyses have been stored. Block 0 is the entry. All sets
of a graph have the number of its temps as their capacity.
-/

namespace FlowFacts

/-- A flow graph. -/
structure Graph where
  name : String
  labels : List LabelInfo
  /-- The number of temps, which is the capacity of every set of the graph. -/
  tempCount : Nat
  blocks : List (Block tempCount)
  /-- The analyses whose results are stored. -/
  computed : Analyses
deriving DecidableEq

namespace Graph

def block? (g : Graph) (b : Nat) : Option (Block g.tempCount) := g.blocks[b]?

def label? (g : Graph) (l : Label) : Option LabelInfo := g.labels[l.slot]?

/-- The block that control reaches through a label. -/
def labelBlock? (g : Graph) (l : Label) : Option Nat := (g.label? l).bind LabelInfo.block

/-- The targets of a block. A block that does not exist has none. -/
def successors (g : Graph) (b : Nat) : List Nat := successorsOf g.blocks b

/-- The blocks with an edge to a block, in ascending order. -/
def predecessors (g : Graph) (b : Nat) : List Nat := FlowFacts.predecessors g.blocks b

def edges (g : Graph) : List Edge := FlowFacts.edges g.blocks

/-- Do the stored live sets satisfy the liveness equations? -/
def verifyLiveness (g : Graph) : Bool := satisfiesEquations g.blocks

end Graph

end FlowFacts
