import FlowFacts.Routine.Basic

/-!
# Routines under construction

A draft collects instructions and hands out temps and labels that it has not handed out before.
-/

namespace FlowFacts

/-- A routine under construction. -/
structure Draft where
  name : String
  code : Array Instr
  nextTemp : UInt32
  nextLabel : UInt32

namespace Draft

/-- A draft without instructions. -/
def start (name : String) : Draft := ⟨name, #[], 0, 0⟩

/-- Hands out a temp. -/
def freshTemp (d : Draft) : Temp × Draft := (⟨d.nextTemp⟩, { d with nextTemp := d.nextTemp + 1 })

/-- Hands out a label. -/
def freshLabel (d : Draft) : Label × Draft :=
  (⟨d.nextLabel⟩, { d with nextLabel := d.nextLabel + 1 })

/-- Appends an instruction. -/
def emit (d : Draft) (i : Instr) : Draft := { d with code := d.code.push i }

/-- The number of instructions so far. -/
def size (d : Draft) : Nat := d.code.size

def isEmpty (d : Draft) : Bool := d.code.isEmpty

/-- The routine as it stands. -/
def finish (d : Draft) : Routine := ⟨d.name, d.code.toList⟩

end Draft

end FlowFacts
