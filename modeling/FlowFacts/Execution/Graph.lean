import FlowFacts.Block.Basic
import FlowFacts.Execution.Basic

/-!
# Running blocks

A place in a list of blocks is a point: a block and the number of lines of its body that are behind
control. Control goes through the body and then to the block that the terminator selects. Where
there is no block, the run stops without a result; so does the run of a graph without blocks.
-/

namespace FlowFacts

variable {n : Nat} {σ : Type}

/-- A place in a list of blocks. The terminator stands behind the last line. -/
structure Point where
  block : Nat
  index : Nat
deriving DecidableEq

/-- The beginning of a block. -/
def Point.start (b : Nat) : Point := ⟨b, 0⟩

namespace Block

/-- Leaves a block by its terminator. -/
def leave (m : Interpretation σ) (r : Run Point σ) : Terminator → Run Point σ
  | .jump t => r.goto (.start t)
  | .branch test c t f => r.goto (.start (if m.takes test c r.state then t else f))
  | .ret v => r.halt v

/-- Carries out what stands at a point. -/
def exec (m : Interpretation σ) (blocks : List (Block n)) (r : Run Point σ) (p : Point) :
    Run Point σ :=
  match blocks[p.block]? with
  | none => r.halt none
  | some b =>
    match b.ops[p.index]? with
    | some o => r.execute m o ⟨p.block, p.index + 1⟩
    | none => leave m r b.terminator

/-- One step of a run. A run that has stopped stays as it is. -/
def step (m : Interpretation σ) (blocks : List (Block n)) (r : Run Point σ) : Run Point σ :=
  match r.control with
  | .running p => exec m blocks r p
  | .halted _ => r

/-- The run of blocks from a point and a state after a number of steps. -/
def run (m : Interpretation σ) (blocks : List (Block n)) (p : Point) (s : σ) : Nat → Run Point σ
  | 0 => ⟨.running p, s, []⟩
  | k + 1 => step m blocks (run m blocks p s k)

end Block

end FlowFacts
