import FlowFacts.Block.Basic
import FlowFacts.Error

/-!
# Def-use chains

The chain of a definition lists the places that may read the defined value before it is overwritten.
They are found by scanning the rest of the defining block and, if the value survives it, by a
depth-first search through the blocks that follow, the taken target first. A scan ends with the
first operation that writes the temp; if that operation also reads it, it is still a use.

The search keeps a stack of blocks with their depth and a list of the blocks that it has scanned. It
visits no block twice, which is why it ends.
-/

namespace FlowFacts

variable {n : Nat}

/-- The uses of `t` in the rest of block `b`, from line `k` on, and whether `t` is written there. -/
def scan (b : Nat) (t : Temp) (operand : Option Temp) (k : Nat) : List Op → List Use × Bool
  | [] => (if operand = some t then [⟨b, .blockEnd⟩] else [], false)
  | o :: rest =>
    let here := if o.reads t then [⟨b, .line k⟩] else []
    if o.dest = some t then (here, true)
    else
      let (uses, killed) := scan b t operand (k + 1) rest
      (here ++ uses, killed)

/-- Scans block `b` without its first `skip` operations. -/
def Block.scan (block : Block n) (b : Nat) (t : Temp) (skip : Nat) : List Use × Bool :=
  FlowFacts.scan b t block.operand (skip + 1) (block.ops.drop skip)

/-- The blocks to scan after a block at the given depth, none if the temp is written there. -/
def Block.onward (block : Block n) (killed : Bool) (depth : Nat) : List (Nat × Nat) :=
  if killed then [] else block.successors.map fun s => (s, depth + 1)

theorem Block.length_onward_le (block : Block n) (killed : Bool) (depth : Nat) :
    (block.onward killed depth).length ≤ 2 := by
  unfold Block.onward Block.successors Terminator.successors
  cases killed
  · cases block.terminator <;> simp
  · simp

/-- The number of blocks that are not in a list of scanned ones. -/
def unscanned (blocks : List (Block n)) (scanned : List Nat) : Nat :=
  (List.range blocks.length).countP fun b => b ∉ scanned

theorem unscanned_cons_lt {blocks : List (Block n)} {scanned : List Nat} {b : Nat}
    (hb : b < blocks.length) (h : b ∉ scanned) :
    unscanned blocks (b :: scanned) < unscanned blocks scanned := by
  unfold unscanned
  rw [List.countP_eq_length_filter, List.countP_eq_length_filter]
  have hsub : (List.range blocks.length).filter (fun c => decide (c ∉ b :: scanned)) =
      ((List.range blocks.length).filter fun c => decide (c ∉ scanned)).filter (· ≠ b) := by
    rw [List.filter_filter]
    congr 1
    funext c
    simp [not_or]
  rw [hsub]
  refine List.length_filter_lt_length_iff_exists.mpr ⟨b, ?_, by simp⟩
  simp [hb, h]

/-- The uses of `t` in the blocks on the stack and those that follow them. -/
def search (blocks : List (Block n)) (t : Temp) (limit : Nat) (stack : List (Nat × Nat))
    (scanned : List Nat) : Except Error (List Use) :=
  match stack with
  | [] => .ok []
  | (b, depth) :: rest =>
    if limit < depth then .error (.recursionLimit limit)
    else if hs : b ∈ scanned then search blocks t limit rest scanned
    else if hb : b < blocks.length then
      let (uses, killed) := blocks[b].scan b t 0
      (uses ++ ·) <$> search blocks t limit (blocks[b].onward killed depth ++ rest) (b :: scanned)
    else search blocks t limit rest scanned
termination_by 2 * unscanned blocks scanned + stack.length
decreasing_by
  · simp
  · have h1 := unscanned_cons_lt hb hs
    have h2 := blocks[b].length_onward_le killed depth
    simp only [List.length_append, List.length_cons]
    omega
  · simp

/-- The uses of the value of `t` that line `i` of block `b` defines. -/
def Block.chain (blocks : List (Block n)) (b : Nat) (block : Block n) (i : Nat) (t : Temp) :
    Except Error (List Use) :=
  let (uses, killed) := block.scan b t (i + 1)
  (uses ++ ·) <$> search blocks t blocks.length (block.onward killed 0) []

/-- Stores the chain of every line of block `b` that defines a temp, and none for the others. -/
def Block.setChains (blocks : List (Block n)) (b : Nat) (block : Block n) :
    Except Error (Block n) := do
  let body ← block.body.zipIdx.mapM fun p =>
    match p.1.op.dest with
    | some t => (fun c => { p.1 with chain := some c }) <$> block.chain blocks b p.2 t
    | none => .ok { p.1 with chain := none }
  return { block with body }

/-- The number of lines that define a temp. -/
def definitionCount (blocks : List (Block n)) : Nat :=
  (blocks.flatMap Block.ops).countP fun o => o.dest.isSome

/-- Stores the chains of all blocks. Also returns the number of definitions. -/
def setChains (blocks : List (Block n)) : Except Error (Nat × List (Block n)) := do
  let chained ← blocks.zipIdx.mapM fun p => p.1.setChains blocks p.2
  return (definitionCount blocks, chained)

end FlowFacts
