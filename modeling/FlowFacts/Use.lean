import FlowFacts.Text.Quoted

/-!
# Places that read a value

A use names a block and the place in it where a value is read: a line of the body, counted from
one, or the end of the block where the terminator tests or returns the value.
-/

namespace FlowFacts

/-- A place inside a block. -/
inductive Position where
  | line (number : Nat)
  | blockEnd
deriving DecidableEq

/-- A place that reads a value. -/
structure Use where
  block : Nat
  position : Position
deriving DecidableEq

namespace Position

/-- Places in the order in which control passes them. -/
protected def compare : Position → Position → Ordering
  | line a, line b => Ord.compare a b
  | line _, blockEnd => .lt
  | blockEnd, line _ => .gt
  | blockEnd, blockEnd => .eq

def record : Position → String
  | line n => Text.applied "Line" (toString n)
  | blockEnd => "EndOfBlock"

end Position

namespace Use

def text (u : Use) : String :=
  match u.position with
  | .line n => "B" ++ toString u.block ++ ":" ++ toString n
  | .blockEnd => "B" ++ toString u.block ++ ":end"

def record (u : Use) : String :=
  Text.record "DuUse" [("block", toString u.block), ("position", u.position.record)]

end Use

end FlowFacts
