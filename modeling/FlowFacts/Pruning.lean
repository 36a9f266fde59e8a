import FlowFacts.Error
import FlowFacts.Withdrawal

/-!
# Removing blocks

Two kinds of blocks are removed from a freshly cut stream: blocks that cannot run, and redirects,
which are empty and only jump elsewhere. The entry always stays. Jumps into a redirect are threaded
to the first block down the line that stays, a branch whose targets then coincide becomes a jump,
and the blocks that stay are numbered anew in their order.

Following redirects takes at most one step for each block. A longer way can only be a circle, which
is an error if some block that stays leads into it.
-/

namespace FlowFacts

variable {n : Nat}

/-- Why a block is removed. -/
inductive Removal where
  | unreachable | redirect
deriving DecidableEq

/-- Should block `i` be removed, and why? -/
def removal? (counts : List Int) (i : Nat) (b : Block n) : Option Removal :=
  if i = 0 then none
  else if counts.getD i 0 ≤ 0 then some .unreachable
  else if b.isRedirect then some .redirect
  else none

/-- Marks the blocks that are to be removed. -/
def markRemovals (counts : List Int) (blocks : List (Block n)) : List (Block n) :=
  blocks.zipIdx.map fun p => { p.1 with cancelled := (removal? counts p.2 p.1).isSome }

/-- Why redirects could not be followed to a block that stays. -/
inductive Stray where
  /-- There were more redirects than the limit. -/
  | circle
  /-- A removed block does not jump anywhere. -/
  | notRedirect (block : Nat)
deriving DecidableEq

/-- The error that a stray jump of block `source` is. -/
def Stray.error (source limit : Nat) : Stray → Error
  | circle => .unterminatedChase source limit
  | notRedirect b => .malformed (.notRedirect b source)

/-- Follows at most `limit` redirects from block `b` to a block that stays. -/
def chase (blocks : List (Block n)) (limit b : Nat) : Except Stray Nat :=
  match blocks[b]? with
  | none => .ok b
  | some block =>
    if block.cancelled then
      match block.terminator, limit with
      | .jump _, 0 => .error .circle
      | .jump t, limit + 1 => chase blocks limit t
      | _, _ => .error (.notRedirect b)
    else .ok b

/-- Sends the jumps of block `i` to blocks that stay. -/
def Block.thread (blocks : List (Block n)) (i : Nat) (b : Block n) : Except Error (Block n) :=
  if b.cancelled then .ok b
  else do
    let terminator ← b.terminator.retarget fun s =>
      (chase blocks blocks.length s).mapError (Stray.error i blocks.length)
    return { b with terminator := terminator.merge }

/-- The number that block `i` has among the blocks that stay. -/
def newNumber? (blocks : List (Block n)) (i : Nat) : Option Nat :=
  match blocks[i]? with
  | some b => if b.cancelled then none else some ((blocks.take i).countP fun b => !b.cancelled)
  | none => none

/-- Numbers block `i` and its targets anew. -/
def Block.renumber (blocks : List (Block n)) (i : Nat) (b : Block n) : Except Error (Block n) := do
  let terminator ← b.terminator.retarget fun old =>
    match newNumber? blocks old with
    | some new => .ok new
    | none => .error (.malformed (.removedTarget i old))
  return { b with number := (newNumber? blocks i).getD 0, terminator }

/-- Stores the number of edges into each block. -/
def setInDegrees (blocks : List (Block n)) : List (Block n) :=
  (blocks.zip (entryCounts blocks)).map fun p => { p.1 with inDegree := p.2 }

/-- The blocks that stay, and where control to each old block now goes. -/
structure Pruned (n : Nat) where
  blocks : List (Block n)
  forward : List (Option Nat)

/-- Where control to block `i` goes among the blocks that stay. -/
def forward? (counts : List Int) (marked : List (Block n)) (i : Nat) : Option Nat :=
  if i ≠ 0 ∧ counts.getD i 0 ≤ 0 then none
  else
    match chase marked marked.length i with
    | .ok b => newNumber? marked b
    | .error _ => none

/-- Removes blocks, threads jumps and numbers the rest anew. -/
def prune (blocks : List (Block n)) : Except Error (Pruned n) := do
  let counts := liveCounts blocks
  let marked := markRemovals counts blocks
  let threaded ← marked.zipIdx.mapM fun p => p.1.thread marked p.2
  let kept := threaded.zipIdx.filter fun p => !p.1.cancelled
  let survivors ← kept.mapM fun p => p.1.renumber threaded p.2
  return ⟨setInDegrees survivors, (List.range blocks.length).map (forward? counts marked)⟩

end FlowFacts
