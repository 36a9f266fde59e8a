import FlowFacts.TempSet
import FlowFacts.Terminator
import FlowFacts.Use

/-!
# Basic blocks

A block is a body of ordinary operations and a terminator. Beside them it stores what the analyses
have found out, in sets of temps with slots below `n`, and the output that was produced for it.

Facts are stored, not derived: editing a body leaves the facts of the block as they are.
-/

namespace FlowFacts

/-- An operation in a block body with the facts known about it. -/
structure Line (n : Nat) where
  op : Op
  /-- The temps that are live right after the operation. -/
  liveOut : TempSet n
  /-- The uses of the value that the operation defines. -/
  chain : Option (List Use)
deriving DecidableEq

/-- A basic block. -/
structure Block (n : Nat) where
  number : Nat
  body : List (Line n)
  terminator : Terminator
  /-- The number of edges into the block, one more for the entry. -/
  inDegree : Nat
  /-- Is the block to be removed? -/
  cancelled : Bool
  /-- The temps whose first occurrence in the block is a write. -/
  defs : TempSet n
  /-- The temps whose first occurrence in the block is a read. -/
  uses : TempSet n
  liveIn : TempSet n
  liveOut : TempSet n
  /-- Lines of output text. -/
  output : List String
deriving DecidableEq

namespace Line

variable {n : Nat}

/-- An operation about which nothing is known. -/
def blank (n : Nat) (o : Op) : Line n := ⟨o, .empty n, none⟩

/-- Does the line carry a chain? -/
def isDef (l : Line n) : Bool := l.chain.isSome

end Line

namespace Block

variable {n : Nat}

/-- A block about which nothing is known. -/
def blank (n number : Nat) (ops : List Op) (terminator : Terminator) : Block n where
  number
  body := ops.map (Line.blank n)
  terminator
  inDegree := 0
  cancelled := false
  defs := .empty n
  uses := .empty n
  liveIn := .empty n
  liveOut := .empty n
  output := []

/-- The operations of the body. -/
def ops (b : Block n) : List Op := b.body.map Line.op

/-- The temp that the terminator tests or returns. -/
def operand (b : Block n) : Option Temp := b.terminator.operand

def successors (b : Block n) : List Nat := b.terminator.successors

/-- Is the body empty? -/
def isEmpty (b : Block n) : Bool := b.body.isEmpty

/-- Does the block do nothing but jump elsewhere? -/
def isRedirect (b : Block n) : Bool :=
  b.isEmpty && b.terminator.kind == .jump

/-- Appends a line of output text. -/
def append (b : Block n) (text : String) : Block n := { b with output := b.output ++ [text] }

end Block

/-- The targets of block `b`. -/
def successorsOf {n : Nat} (blocks : List (Block n)) (b : Nat) : List Nat :=
  (blocks[b]?.map Block.successors).getD []

/-- The blocks with an edge to block `b`, in ascending order. -/
def predecessors {n : Nat} (blocks : List (Block n)) (b : Nat) : List Nat :=
  (blocks.zipIdx.filter fun p => b ∈ p.1.successors).map Prod.snd

/-- The number of edges, counted with multiplicity. -/
def edgeCount {n : Nat} (blocks : List (Block n)) : Nat :=
  (blocks.flatMap Block.successors).length

/-- Every target is a block of the list. -/
def TargetsExist {n : Nat} (blocks : List (Block n)) : Prop :=
  ∀ block ∈ blocks, ∀ s ∈ block.successors, s < blocks.length

instance {n : Nat} (blocks : List (Block n)) : Decidable (TargetsExist blocks) :=
  inferInstanceAs (Decidable (∀ block ∈ blocks, ∀ s ∈ block.successors, s < blocks.length))

end FlowFacts
