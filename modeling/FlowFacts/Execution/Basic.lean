import FlowFacts.Instr.Basic

/-!
# Running code

What operations do is left open: an interpretation says how each operation changes a state, and
which temps are zero in a state. A run records where control stands, the state, and the operations
carried out so far, so that runs of different forms of the same code can be compared.
-/

namespace FlowFacts

/-- A meaning for operations and for tests on temps. -/
structure Interpretation (σ : Type) where
  effect : Op → σ → σ
  isZero : Temp → σ → Bool

/-- Does a branch on the temp go to its target? -/
def Interpretation.takes {σ : Type} (m : Interpretation σ) (test : Test) (c : Temp) (s : σ) :
    Bool :=
  match test with
  | .zero => m.isZero c s
  | .nonzero => !m.isZero c s

/-- Where a run stands, or what it returned. -/
inductive Control (κ : Type) where
  | running (place : κ)
  | halted (result : Option Temp)
deriving DecidableEq

/-- A run over places of type `κ` and states of type `σ`. -/
structure Run (κ σ : Type) where
  control : Control κ
  state : σ
  /-- The operations carried out so far, in order. -/
  executed : List Op

namespace Run

variable {κ σ : Type}

/-- Goes on at another place. -/
def goto (r : Run κ σ) (place : κ) : Run κ σ := { r with control := .running place }

/-- Stops. -/
def halt (r : Run κ σ) (result : Option Temp) : Run κ σ := { r with control := .halted result }

/-- Carries out an operation and goes on at the next place. -/
def execute (m : Interpretation σ) (r : Run κ σ) (o : Op) (next : κ) : Run κ σ :=
  ⟨.running next, m.effect o r.state, r.executed ++ [o]⟩

end Run

end FlowFacts
