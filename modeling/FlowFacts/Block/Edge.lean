import FlowFacts.Block.Basic

/-!
# Edges

The edges of a list of blocks, in block order and with the taken edge of a branch first.
-/

namespace FlowFacts

inductive EdgeKind where
  | unconditional | taken | fallthrough
deriving DecidableEq

structure Edge where
  source : Nat
  target : Nat
  kind : EdgeKind
deriving DecidableEq

namespace EdgeKind

/-- All kinds, in the order in which they are listed. -/
def all : List EdgeKind := [unconditional, taken, fallthrough]

def name : EdgeKind → String
  | unconditional => "Unconditional"
  | taken => "Taken"
  | fallthrough => "Fallthrough"

def isConditional (k : EdgeKind) : Bool := k != unconditional

end EdgeKind

/-- The edges that leave block `source` by a terminator. -/
def Terminator.edges (source : Nat) : Terminator → List Edge
  | jump t => [⟨source, t, .unconditional⟩]
  | branch _ _ t f => [⟨source, t, .taken⟩, ⟨source, f, .fallthrough⟩]
  | ret _ => []

/-- All edges of a list of blocks. -/
def edges {n : Nat} (blocks : List (Block n)) : List Edge :=
  blocks.zipIdx.flatMap fun p => p.1.terminator.edges p.2

end FlowFacts
