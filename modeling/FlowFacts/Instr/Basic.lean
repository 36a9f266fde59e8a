import FlowFacts.Names

/-!
# Three-address instructions

An instruction is an ordinary operation, a transfer of control, a mark that places a label, or a
memo without effect. Ordinary operations read some temps and write at most one; they are what the
body of a basic block consists of. Transfers end a block.

`Op.sources` and `Op.reads` describe the same operands: the first lists them, the second tests for
one of them (`Op.reads_iff`).
-/

namespace FlowFacts

/-- Operators of two operands. -/
inductive BinaryOp where
  | add | sub | mul | div | mod | and | or | gt | ge | eq | ne | le | lt
deriving DecidableEq

/-- Operators of one operand, the plain copy among them. -/
inductive UnaryOp where
  | neg | not | copy
deriving DecidableEq

/-- What a call goes to. -/
inductive Callee where
  /-- The routine with a given name. -/
  | named (name : String)
  /-- The routine whose address a temp holds. -/
  | held (address : Temp)
deriving DecidableEq

/-- A constant that can be loaded. -/
inductive Constant where
  | int (value : Int)
  | string (value : String)
  /-- The method table of a class. -/
  | methods (className : String)
deriving DecidableEq

/-- An ordinary operation. Control goes on behind it. -/
inductive Op where
  | binary (op : BinaryOp) (dest left right : Temp)
  | unary (op : UnaryOp) (dest src : Temp)
  | const (dest : Temp) (value : Constant)
  | load (dest base : Temp) (offset : Int)
  | store (src base : Temp) (offset : Int)
  | param (value : Temp)
  | call (dest : Option Temp) (callee : Callee)
deriving DecidableEq

/-- The outcome of a comparison with zero on which a branch is taken. -/
inductive Test where
  | zero | nonzero
deriving DecidableEq

/-- A transfer of control. It ends a block. -/
inductive Transfer where
  | jump (target : Label)
  | branch (test : Test) (cond : Temp) (target : Label)
  | ret (value : Option Temp)
deriving DecidableEq

/-- An instruction of a stream. -/
inductive Instr where
  | op (op : Op)
  | transfer (exit : Transfer)
  | mark (label : Label)
  | memo (text : String)
deriving DecidableEq

/-- All binary operators, in the order in which they are listed. -/
def BinaryOp.all : List BinaryOp :=
  [.add, .sub, .mul, .div, .mod, .and, .or, .gt, .ge, .eq, .ne, .le, .lt]

/-- All unary operators, in the order in which they are listed. -/
def UnaryOp.all : List UnaryOp := [.neg, .not, .copy]

namespace Op

/-- The temp that the operation writes. -/
def dest : Op → Option Temp
  | binary _ d _ _ => some d
  | unary _ d _ => some d
  | const d _ => some d
  | load d _ _ => some d
  | store _ _ _ => none
  | param _ => none
  | call d _ => d

/-- The temps that the operation reads, in operand order. A temp in two places is listed twice. -/
def sources : Op → List Temp
  | binary _ _ l r => [l, r]
  | unary _ _ s => [s]
  | const _ _ => []
  | load _ b _ => [b]
  | store s b _ => [s, b]
  | param v => [v]
  | call _ (.held a) => [a]
  | call _ (.named _) => []

/-- Does the operation read the temp? -/
def reads (t : Temp) : Op → Bool
  | binary _ _ l r => t == l || t == r
  | store s b _ => t == s || t == b
  | unary _ _ s => t == s
  | load _ b _ => t == b
  | param v => t == v
  | call _ (.held a) => t == a
  | _ => false

/-- The temps that the operation names, the written one first. -/
def temps (o : Op) : List Temp := o.dest.toList ++ o.sources

theorem reads_iff {t : Temp} {o : Op} : o.reads t = true ↔ t ∈ o.sources := by
  cases o with
  | call d c => cases c <;> simp [reads, sources]
  | _ => simp [reads, sources]

end Op

namespace Transfer

/-- The temp that the transfer tests or returns. -/
def operand : Transfer → Option Temp
  | jump _ => none
  | branch _ c _ => some c
  | ret v => v

/-- The label that the transfer can go to. -/
def target? : Transfer → Option Label
  | jump t => some t
  | branch _ _ t => some t
  | ret _ => none

end Transfer

namespace Instr

/-- The temp that the instruction writes. -/
def dest : Instr → Option Temp
  | op o => o.dest
  | _ => none

/-- The temps that the instruction reads, in operand order. -/
def sources : Instr → List Temp
  | op o => o.sources
  | transfer x => x.operand.toList
  | _ => []

/-- Does the instruction read the temp? -/
def reads (t : Temp) : Instr → Bool
  | op o => o.reads t
  | transfer x => some t == x.operand
  | _ => false

/-- The temps that the instruction names, the written one first. -/
def temps (i : Instr) : List Temp := i.dest.toList ++ i.sources

/-- Does the instruction end a block? -/
def isTransfer : Instr → Bool
  | transfer _ => true
  | _ => false

/-- The label that the instruction can branch to. -/
def target? : Instr → Option Label
  | transfer x => x.target?
  | _ => none

/-- The label that the instruction places. -/
def placed? : Instr → Option Label
  | mark l => some l
  | _ => none

/-- The instruction as an ordinary operation. -/
def op? : Instr → Option Op
  | op o => some o
  | _ => none

theorem reads_iff {t : Temp} {i : Instr} : i.reads t = true ↔ t ∈ i.sources := by
  cases i with
  | op o => exact Op.reads_iff
  | transfer x => cases h : x.operand <;> simp [reads, sources, h]
  | _ => simp [reads, sources]

end Instr

end FlowFacts
