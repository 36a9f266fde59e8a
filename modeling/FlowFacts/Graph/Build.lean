import FlowFacts.Graph.Command
import FlowFacts.Pruning
import FlowFacts.Segment

/-!
# Building graphs

The bare graph of a routine is its stream, cut into blocks and pruned. A plan adds analyses to it,
which are the same commands that a finished graph takes.
-/

namespace FlowFacts

/-- The commands that carry out a plan. -/
def Plan.commands (p : Plan) : List Command :=
  let wanted := p.effective
  (if wanted.contains .liveness then [.liveness p.maxVisits] else []) ++
    (if wanted.contains .lineLiveness then [.lineLiveness] else []) ++
    (if wanted.contains .chains then [.chains] else [])

namespace Graph

/-- The graph of a routine without analyses. -/
def bare (r : Routine) : Except Error Graph := do
  let pruned ← prune (← r.provisional)
  return {
    name := r.name
    labels := r.placedLabels fun b => pruned.forward.getD b none
    tempCount := r.tempCount
    blocks := pruned.blocks
    computed := .none }

/-- The graph of a routine with the analyses of a plan. -/
def build (r : Routine) (p : Plan) : Except Error Graph := do
  (← bare r).performAll p.commands

/-- The graphs of many routines. A routine that fails does not affect the others. -/
def buildAll (rs : List Routine) (p : Plan) : List (Except Error Graph) := rs.map (build · p)

end Graph

end FlowFacts
