import FlowFacts.Instr.Printer

/-!
# Errors

Why a graph cannot be built, analysed or edited. An error is the cause with its particulars; the
wording is in one place for each kind.
-/

namespace FlowFacts

/-- A request or an intermediate result that violates a structural expectation. -/
inductive Defect where
  /-- A jump leads to a removed block that goes nowhere in particular. -/
  | notRedirect (block source : Nat)
  /-- A jump of a block that stays leads to a removed block. -/
  | removedTarget (block target : Nat)
  /-- Liveness of lines was asked for before liveness of blocks. -/
  | livenessMissing (routine : String)
  /-- The instruction cannot stand in a body. -/
  | notOperation (instr : Instr)
  /-- The instruction names a temp that the routine does not have. -/
  | unknownTemp (instr : Instr) (temp : Temp) (tempCount : Nat)
  | noBlock (block : Nat)
  | noLine (block position : Nat)
deriving DecidableEq

/-- Why an operation failed. -/
inductive Error where
  /-- A branch goes to a label that is not placed. -/
  | unresolvedLabel (label : Label)
  /-- The jumps from a block lead into a circle of empty blocks. -/
  | unterminatedChase (block limit : Nat)
  /-- A search went deeper than there are blocks. -/
  | recursionLimit (limit : Nat)
  /-- A solve needs more visits than it may make. -/
  | iterationLimit (limit : Nat)
  | malformed (defect : Defect)
deriving DecidableEq

def Defect.message : Defect → String
  | notRedirect b s =>
    "successor " ++ toString b ++ " of block " ++ toString s ++
      " was removed but is not a redirect"
  | removedTarget b t =>
    "block " ++ toString b ++ " still targets removed block " ++ toString t
  | livenessMissing name =>
    "instruction liveness of " ++ name ++ " requested before block liveness"
  | notOperation i => "cannot insert '" ++ i.text ++ "' into a block body"
  | unknownTemp i t c =>
    "'" ++ i.text ++ "' names " ++ t.text ++ " but the function has " ++ toString c ++ " temps"
  | noBlock b => "block " ++ toString b ++ " does not exist"
  | noLine b p =>
    "block " ++ toString b ++ " has no instruction at position " ++ toString p

def Error.message : Error → String
  | unresolvedLabel l => "Branch target " ++ l.text ++ " does not resolve to a basic block"
  | unterminatedChase b n =>
    "Successor chase from block " ++ toString b ++ " did not reach a live block within " ++
      toString n ++ " steps"
  | recursionLimit n => "Reach the maximum recursion level allowed - " ++ toString n
  | iterationLimit n => "Liveness did not converge within " ++ toString n ++ " iterations"
  | malformed d => d.message

end FlowFacts
