import FlowFacts.Execution.Basic
import FlowFacts.Routine.Basic

/-!
# Running a stream

Control starts at the first instruction and goes from each instruction to the next. Marks and memos
do nothing. A branch goes to the last mark of its label, and a branch to a label that is not placed
stops the run, as does control that runs past the end.
-/

namespace FlowFacts

variable {σ : Type}

/-- The position of the last mark of a label. -/
def lastMark? (code : List Instr) (l : Label) : Option Nat :=
  (code.zipIdx.filter fun p => p.1 = .mark l).getLast?.map Prod.snd

namespace Routine

/-- Goes to a label. -/
def goto (code : List Instr) (r : Run Nat σ) (l : Label) : Run Nat σ :=
  (lastMark? code l).elim (r.halt none) r.goto

/-- Carries out the instruction at position `pc`. -/
def exec (m : Interpretation σ) (code : List Instr) (r : Run Nat σ) (pc : Nat) : Run Nat σ :=
  match code[pc]? with
  | none => r.halt none
  | some (.op o) => r.execute m o (pc + 1)
  | some (.mark _) => r.goto (pc + 1)
  | some (.memo _) => r.goto (pc + 1)
  | some (.transfer (.jump l)) => goto code r l
  | some (.transfer (.branch test c l)) =>
    if m.takes test c r.state then goto code r l else r.goto (pc + 1)
  | some (.transfer (.ret v)) => r.halt v

/-- One step of a run. A run that has stopped stays as it is. -/
def step (m : Interpretation σ) (code : List Instr) (r : Run Nat σ) : Run Nat σ :=
  match r.control with
  | .running pc => exec m code r pc
  | .halted _ => r

/-- The run of a stream from a state after a number of steps. -/
def run (m : Interpretation σ) (code : List Instr) (s : σ) : Nat → Run Nat σ
  | 0 => ⟨.running 0, s, []⟩
  | k + 1 => step m code (run m code s k)

end Routine

end FlowFacts
