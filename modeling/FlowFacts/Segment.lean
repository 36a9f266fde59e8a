import FlowFacts.Block.Basic
import FlowFacts.Error
import FlowFacts.Routine.Basic

/-!
# Cutting a stream into blocks

A stream falls into segments: a run of marks, then ordinary operations, then at most one transfer.
A transfer closes the segment it stands in, and a run of marks opens a new one wherever it follows
an operation. Memos, and marks of labels that no branch goes to, are dropped first, so that they
never cut anything.

Segment `k` becomes block `k`. A label stands for the last segment that it marks. A segment without
a transfer runs on into the next one, or returns if it is the last. If the last segment ends in a
branch, an empty block that returns is appended for control to fall through to.
-/

namespace FlowFacts

/-- A piece of a stream that is entered at its beginning and left at its end. -/
structure Segment where
  marks : List Label
  body : List Op
  exit : Option Transfer
deriving DecidableEq

/-- Does the instruction matter to a routine in which branches go to `targets`? -/
def Instr.isRelevant (targets : List Label) : Instr → Bool
  | memo _ => false
  | mark l => targets.contains l
  | _ => true

/-- The stream without memos and without marks of labels that no branch goes to. -/
def Routine.relevant (r : Routine) : List Instr :=
  let targets := r.targets
  r.code.filter fun i => i.isRelevant targets

namespace Segment

/-- Puts an instruction in front of the segments of the stream behind it. -/
def prepend : Instr → List Segment → List Segment
  | .op o, [] => [⟨[], [o], none⟩]
  | .op o, s :: rest =>
    if s.marks.isEmpty then { s with body := o :: s.body } :: rest
    else ⟨[], [o], none⟩ :: s :: rest
  | .transfer x, rest => ⟨[], [], some x⟩ :: rest
  | .mark l, [] => [⟨[l], [], none⟩]
  | .mark l, s :: rest => { s with marks := l :: s.marks } :: rest
  | .memo _, rest => rest

/-- The segments of a stream. -/
def ofStream (code : List Instr) : List Segment := code.foldr prepend []

/-- The last segment that a label marks. -/
def place? (segments : List Segment) (l : Label) : Option Nat :=
  (segments.zipIdx.filter fun p => p.1.marks.contains l).getLast?.map Prod.snd

/-- The segment that a branch to a label goes to. -/
def resolve (segments : List Segment) (l : Label) : Except Error Nat :=
  match place? segments l with
  | some k => .ok k
  | none => .error (.unresolvedLabel l)

/-- How control leaves segment `k`. -/
def terminator (segments : List Segment) (k : Nat) (s : Segment) : Except Error Terminator :=
  match s.exit with
  | none => .ok (if k + 1 < segments.length then .jump (k + 1) else .ret none)
  | some (.ret v) => .ok (.ret v)
  | some (.jump l) => Terminator.jump <$> resolve segments l
  | some (.branch test c l) => (Terminator.branch test c · (k + 1)) <$> resolve segments l

/-- The block that segment `k` becomes. -/
def block (n : Nat) (segments : List Segment) (k : Nat) (s : Segment) : Except Error (Block n) :=
  Block.blank n k s.body <$> s.terminator segments k

/-- Does the segment end in a branch? -/
def endsInBranch (s : Segment) : Bool :=
  match s.exit with
  | some (.branch _ _ _) => true
  | _ => false

/-- Can control fall through past the last segment by a branch? -/
def needsExit (segments : List Segment) : Bool := segments.getLast?.any endsInBranch

/-- The block for control that falls through past the last segment. -/
def exitBlock (n : Nat) (segments : List Segment) : Block n :=
  .blank n segments.length [] (.ret none)

end Segment

namespace Routine

def segments (r : Routine) : List Segment := Segment.ofStream r.relevant

/-- The blocks of a routine before anything is removed. -/
def provisional (r : Routine) : Except Error (List (Block r.tempCount)) := do
  let segments := r.segments
  let blocks ← segments.zipIdx.mapM fun p => p.1.block r.tempCount segments p.2
  return if Segment.needsExit segments then blocks ++ [Segment.exitBlock _ segments] else blocks

/-- What is known about each label once the stream is cut: a targeted label stands for the block
that it marks, as `forward` sends it on. -/
def placedLabels (r : Routine) (forward : Nat → Option Nat) : List LabelInfo :=
  let segments := r.segments
  r.labels.zipIdx.map fun p =>
    { p.1 with block := (Segment.place? segments (.ofSlot p.2)).bind forward }

end Routine

end FlowFacts
