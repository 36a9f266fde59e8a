import FlowFacts.Instr.Printer

/-!
# Terminators

How control leaves a basic block. Targets are block numbers. A branch has two targets, the one taken
if its test succeeds and the one that control falls through to.
-/

namespace FlowFacts

/-- The exit of a basic block. -/
inductive Terminator where
  | jump (target : Nat)
  | branch (test : Test) (cond : Temp) (taken fallthrough : Nat)
  | ret (value : Option Temp)
deriving DecidableEq

/-- How control leaves a block, without the particulars. -/
inductive ExitKind where
  | jump
  | branch (test : Test)
  | ret
deriving DecidableEq

namespace ExitKind

/-- All kinds, in the order in which they are listed. -/
def all : List ExitKind := [jump, branch .zero, branch .nonzero, ret]

def name : ExitKind → String
  | jump => "Branch"
  | branch test => test.name
  | ret => "Return"

def text : ExitKind → String
  | jump => "BRANCH"
  | branch .zero => "BEQZ"
  | branch .nonzero => "BNEZ"
  | ret => "RETURN"

end ExitKind

namespace Terminator

def kind : Terminator → ExitKind
  | jump _ => .jump
  | branch test _ _ _ => .branch test
  | ret _ => .ret

/-- The temp that the terminator tests or returns. -/
def operand : Terminator → Option Temp
  | jump _ => none
  | branch _ c _ _ => some c
  | ret v => v

/-- The two places for a target: the taken or only one, and the one fallen through to. -/
def slots : Terminator → Option Nat × Option Nat
  | jump t => (some t, none)
  | branch _ _ t f => (some t, some f)
  | ret _ => (none, none)

/-- The targets, the taken one first. -/
def successors : Terminator → List Nat
  | jump t => [t]
  | branch _ _ t f => [t, f]
  | ret _ => []

/-- Replaces every target, the taken one first. -/
def retarget {ε : Type} (f : Nat → Except ε Nat) : Terminator → Except ε Terminator
  | jump t => jump <$> f t
  | branch test c t u => branch test c <$> f t <*> f u
  | ret v => .ok (ret v)

/-- A branch whose two targets coincide is a jump. -/
def merge : Terminator → Terminator
  | branch test c t f => if t = f then jump t else branch test c t f
  | x => x

/-- The terminator as a listing shows it. -/
def text : Terminator → String
  | jump t => "END BY BRANCH, goto " ++ toString t
  | branch .zero c t f =>
    "END BY BEQZ, if " ++ c.text ++ " = 0 : goto " ++ toString t ++ "; else goto " ++ toString f
  | branch .nonzero c t f =>
    "END BY BNEZ, if " ++ c.text ++ " != 0 : goto " ++ toString t ++ "; else goto " ++ toString f
  | ret (some v) => "END BY RETURN, result = " ++ v.text
  | ret none => "END BY RETURN, void result"

/-- The terminator as a record. -/
def record : Terminator → String
  | jump t => Text.applied "Jump" (toString t)
  | branch test c t f =>
    Text.record test.name
      [("cond", c.text), ("taken", toString t), ("fallthrough", toString f)]
  | ret v => Text.applied "Return" (Text.optional (v.map Temp.text))

end Terminator

end FlowFacts
