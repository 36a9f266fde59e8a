import FlowFacts.Block.Basic

/-!
# Liveness of lines

Within a block liveness is found by walking backwards from its end: what is live before an
operation is what is live after it, without the temp that it writes and with those that it reads.
-/

namespace FlowFacts

variable {n : Nat}

/-- What is live before an operation, given what is live after it. -/
def Op.liveBefore (o : Op) (out : TempSet n) : TempSet n :=
  (o.dest.elim out out.erase).insertAll o.sources

/-- Stores what is live after each line of a body, given what is live after the last one. Also
returns what is live before the first line. -/
def annotate (out : TempSet n) : List (Line n) → List (Line n) × TempSet n
  | [] => ([], out)
  | l :: rest =>
    let (rest, live) := annotate out rest
    ({ l with liveOut := live } :: rest, l.op.liveBefore live)

/-- What is live after the last line of a block. -/
def Block.liveAtEnd (b : Block n) : TempSet n := b.liveOut.insertAll b.operand.toList

/-- Stores what is live after each line, given what is live after the block. -/
def Block.setLineLiveness (b : Block n) : Block n :=
  { b with body := (annotate b.liveAtEnd b.body).1 }

end FlowFacts
