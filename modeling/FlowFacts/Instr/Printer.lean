import FlowFacts.Instr.Basic
import FlowFacts.Text.Quoted

/-!
# Instructions as text

`Instr.text` is the form used in listings. `Instr.record` spells out the kind of an instruction and
its named fields, and tells apart what the listing form does not.
-/

namespace FlowFacts

open Text

/-- The operator as it stands between its operands. -/
def BinaryOp.symbol : BinaryOp → String
  | add => "+"
  | sub => "-"
  | mul => "*"
  | div => "/"
  | mod => "%"
  | and => "&&"
  | or => "||"
  | gt => ">"
  | ge => ">="
  | eq => "=="
  | ne => "!="
  | le => "<="
  | lt => "<"

/-- The operator as it is named in a record. -/
def BinaryOp.name : BinaryOp → String
  | add => "Add"
  | sub => "Sub"
  | mul => "Mul"
  | div => "Div"
  | mod => "Mod"
  | and => "Land"
  | or => "Lor"
  | gt => "Gtr"
  | ge => "Geq"
  | eq => "Equ"
  | ne => "Neq"
  | le => "Leq"
  | lt => "Les"

/-- The operator as it stands before its operand. A copy has none. -/
def UnaryOp.symbol : UnaryOp → String
  | neg => "-"
  | not => "!"
  | copy => ""

/-- The operator as it is named in a record. -/
def UnaryOp.name : UnaryOp → String
  | neg => "Neg"
  | not => "Lnot"
  | copy => "Assign"

/-- The comparison with zero. -/
def Test.symbol : Test → String
  | zero => "=="
  | nonzero => "!="

/-- The branch on the test, as it is named in a record. -/
def Test.name : Test → String
  | zero => "Beqz"
  | nonzero => "Bnez"

/-- The routine that is called, as a listing shows it. -/
def Callee.text : Callee → String
  | named name => name
  | held address => address.text

/-- The constant as a listing shows it. -/
def Constant.text : Constant → String
  | int value => toString value
  | string value => quoted value
  | methods className => "VTBL <" ++ className ++ ">"

/-- The address that a load or store goes to. -/
def Op.address (base : Temp) (offset : Int) : String :=
  "*(" ++ base.text ++ " " ++ signed offset ++ ")"

/-- The operation as a listing shows it. -/
def Op.text : Op → String
  | binary op d l r => d.text ++ " = (" ++ l.text ++ " " ++ op.symbol ++ " " ++ r.text ++ ")"
  | unary .copy d s => d.text ++ " = " ++ s.text
  | unary op d s => d.text ++ " = " ++ op.symbol ++ " " ++ s.text
  | const d v => d.text ++ " = " ++ v.text
  | load d b o => d.text ++ " = " ++ address b o
  | store s b o => address b o ++ " = " ++ s.text
  | param v => "parm " ++ v.text
  | call (some d) c => d.text ++ " = call " ++ c.text
  | call none c => "call " ++ c.text

/-- The operation as a record. -/
def Op.record : Op → String
  | binary op d l r =>
    Text.record "Binary"
      [("op", op.name), ("dest", d.text), ("left", l.text), ("right", r.text)]
  | unary op d s => Text.record "Unary" [("op", op.name), ("dest", d.text), ("src", s.text)]
  | const d (.int v) => Text.record "LoadImm4" [("dest", d.text), ("value", toString v)]
  | const d (.string v) => Text.record "LoadStrConst" [("dest", d.text), ("value", quoted v)]
  | const d (.methods c) => Text.record "LoadVtbl" [("dest", d.text), ("class", quoted c)]
  | load d b o =>
    Text.record "Load" [("dest", d.text), ("base", b.text), ("offset", toString o)]
  | store s b o =>
    Text.record "Store" [("src", s.text), ("base", b.text), ("offset", toString o)]
  | param v => Text.record "Parm" [("value", v.text)]
  | call d (.held a) =>
    Text.record "IndirectCall" [("dest", optional (d.map Temp.text)), ("target", a.text)]
  | call d (.named n) =>
    Text.record "DirectCall" [("dest", optional (d.map Temp.text)), ("callee", quoted n)]

/-- The transfer as a listing shows it. -/
def Transfer.text : Transfer → String
  | jump l => "branch " ++ l.text
  | branch test c l => "if (" ++ c.text ++ " " ++ test.symbol ++ " 0) branch " ++ l.text
  | ret (some v) => "return " ++ v.text
  | ret none => "return <empty>"

/-- The transfer as a record. -/
def Transfer.record : Transfer → String
  | jump l => Text.record "Branch" [("target", l.text)]
  | branch test c l => Text.record test.name [("cond", c.text), ("target", l.text)]
  | ret v => Text.record "Return" [("value", optional (v.map Temp.text))]

/-- The instruction as a listing shows it. -/
def Instr.text : Instr → String
  | op o => o.text
  | transfer x => x.text
  | mark l => l.text ++ ":"
  | memo s => "memo '" ++ s ++ "'"

/-- The instruction as a record. -/
def Instr.record : Instr → String
  | op o => o.record
  | transfer x => x.record
  | mark l => Text.record "Mark" [("label", l.text)]
  | memo s => Text.record "Memo" [("text", quoted s)]

end FlowFacts
