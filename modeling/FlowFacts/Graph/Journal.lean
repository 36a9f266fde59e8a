import FlowFacts.Graph.Build

/-!
# What is noted along the way

Building and analysing graphs is accompanied by a journal of events. The journal is a function of
what was asked: it lists the events of the stages that were reached, also of a build that fails in
the end.
-/

namespace FlowFacts

/-- How much detail an event is about. -/
inductive Level where
  | trace | debug
deriving DecidableEq

/-- Something worth noting. -/
inductive Event where
  /-- A segment became a block. -/
  | cut (number size : Nat) (terminator : Terminator)
  /-- A block was appended for control to fall through to. -/
  | exitAppended (number : Nat)
  /-- All blocks of a routine are cut. -/
  | partitioned (routine : String) (count : Nat)
  /-- A block is going to be removed. -/
  | removed (number : Nat) (reason : Removal)
  /-- Blocks were removed. -/
  | pruned (before after : Nat)
  /-- A solve has come to rest. -/
  | settled (visits count : Nat)
  /-- Liveness of a routine is stored. -/
  | converged (routine : String) (visits : Nat)
  /-- The chains of a routine are stored. -/
  | chained (routine : String) (definitions : Nat)
  /-- Many routines are going to be built. -/
  | batch (count : Nat)
  /-- A routine of many could not be built. -/
  | aborted (routine : String) (error : Error)

def Level.text : Level → String
  | trace => "TRACE"
  | debug => "DEBUG"

def Removal.text : Removal → String
  | unreachable => "unreachable"
  | redirect => "redirect"

namespace Event

def level : Event → Level
  | cut .. => .trace
  | exitAppended .. => .trace
  | removed .. => .trace
  | settled .. => .trace
  | _ => .debug

def message : Event → String
  | cut k size x =>
    "partition: block " ++ toString k ++ " with " ++ toString size ++ " instructions, " ++ x.text
  | exitAppended k =>
    "partition: appending exit block " ++ toString k ++ " for trailing conditional"
  | partitioned name k => name ++ ": partitioned into " ++ toString k ++ " blocks"
  | removed k reason => "simplify: cancel block " ++ toString k ++ " (" ++ reason.text ++ ")"
  | pruned b a => "simplify: " ++ toString b ++ " blocks -> " ++ toString a ++ " blocks"
  | settled v k =>
    "solver: fixpoint after " ++ toString v ++ " visits over " ++ toString k ++ " blocks"
  | converged name v => name ++ ": liveness converged after " ++ toString v ++ " block visits"
  | chained name d => name ++ ": built DU chains for " ++ toString d ++ " definitions"
  | batch k => "analyzing " ++ toString k ++ " functions"
  | aborted name e => name ++ ": analysis aborted: " ++ e.message

/-- The event as a line of a log. -/
def text (e : Event) : String := e.level.text ++ " " ++ e.message

/-- Is the event shown in a log of the given level? -/
def isShown (shown : Level) (e : Event) : Bool := shown == .trace || e.level == .debug

end Event

/-- The segments that become blocks before the first one that cannot. -/
def Routine.cutEvents (r : Routine) : List Event :=
  let segments := r.segments
  let blocks := segments.zipIdx.map fun p => p.1.block r.tempCount segments p.2
  let cuts := blocks.map fun
    | .ok b => some (.cut b.number b.body.length b.terminator)
    | .error _ => none
  let reached := cuts.takeWhile Option.isSome
  let exit := reached.length = segments.length ∧ Segment.needsExit segments
  reached.filterMap id ++ if exit then [.exitAppended segments.length] else []

/-- The removals among blocks, and what they come to if pruning succeeds. -/
def pruneEvents {n : Nat} (blocks : List (Block n)) : List Event :=
  let counts := liveCounts blocks
  let removals := blocks.zipIdx.filterMap fun p =>
    (removal? counts p.2 p.1).map (.removed p.2)
  match prune blocks with
  | .ok pruned => if blocks.isEmpty then [] else
    removals ++ [.pruned blocks.length pruned.blocks.length]
  | .error _ => removals

/-- A solve over some blocks that comes to rest. Without blocks there is nothing to note. -/
def solveEvents {n : Nat} {α : Type} (blocks : List (Block n)) :
    Except Unsettled (Solution α) → List Event
  | .ok s => if blocks.isEmpty then [] else [.settled s.visits blocks.length]
  | .error _ => []

namespace Graph

/-- The events of a command. -/
def commandEvents (g : Graph) : Command → List Event
  | .liveness limit =>
    let result := solveLiveness g.blocks limit
    solveEvents g.blocks result ++
      match result with
      | .ok s => [.converged g.name s.visits]
      | .error _ => []
  | .chains =>
    match g.setChains with
    | .ok (definitions, _) => [.chained g.name definitions]
    | .error _ => []
  | _ => []

/-- The events of commands up to the first that fails. -/
def commandsEvents (g : Graph) : List Command → List Event
  | [] => []
  | c :: cs =>
    g.commandEvents c ++
      match g.perform c with
      | .ok (_, g) => g.commandsEvents cs
      | .error _ => []

/-- The events of a build. -/
def buildEvents (r : Routine) (p : Plan) : List Event :=
  r.cutEvents ++
    match r.provisional with
    | .error _ => []
    | .ok blocks =>
      .partitioned r.name blocks.length :: pruneEvents blocks ++
        match bare r with
        | .ok g => g.commandsEvents p.commands
        | .error _ => []

/-- The events of building many routines, one after the other. -/
def buildAllEvents (rs : List Routine) (p : Plan) : List Event :=
  .batch rs.length :: rs.flatMap fun r =>
    buildEvents r p ++
      match build r p with
      | .ok _ => []
      | .error e => [.aborted r.name e]

end Graph

end FlowFacts
