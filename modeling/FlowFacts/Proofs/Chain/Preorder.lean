import FlowFacts.Proofs.Chain.Depth
import FlowFacts.Proofs.Chain.Exact

/-!
# Chains list uses in the order of a recursive search

The search for uses keeps a stack, on which a block may lie more than once, and asks whether a block
has been scanned only when it is taken from the stack. Here the same is said without a stack. A
recursive search visits a block, then what its first target leads to, then what its second target
leads to, and hands the list of visited blocks from one call to the next.

Both visit the same blocks in the same order. The stack is the list of calls that are still to be
made, so what a search finds from a stack is what the recursive search finds from the blocks on it,
one after the other. That is shown for every stack and every list of scanned blocks, and it rests on
one fact: exploring two lists of blocks in a row is exploring their concatenation.

## Main definitions

* `Block.usesFrom` — what one block reads of a value, in the order of its lines
* `explore`, `exploreAll` — the recursive search

## Main results

* `Block.scan_eq` — a scan finds what the block reads
* `uses_of_search` — the search with a stack finds what the recursive one does, in the same order
* `Block.chain_eq_explore` — chains, by the recursive search
-/

namespace FlowFacts

variable {n : Nat} {blocks : List (Block n)} {t : Temp} {b : Nat}

/-! ### What one block reads -/

namespace Block

variable {block : Block n} {i : Nat} {o : Op}

/-- Does an operation from index `i` on write the temp? -/
def overwrites (block : Block n) (t : Temp) (i : Nat) : Bool :=
  (block.ops.drop i).any fun o => o.dest = some t

/-- The operations from index `i` on, up to and including the first one that writes the temp, with
the numbers of their lines. -/
def exposed (block : Block n) (t : Temp) (i : Nat) : List (Op × Nat) :=
  let rest := (block.ops.zipIdx 1).drop i
  rest.takeWhile (fun p => p.1.dest ≠ some t) ++
    (rest.dropWhile fun p => p.1.dest ≠ some t).take 1

/-- The uses in block `b` of the value that the temp has in front of index `i`: lines that read it,
up to the first one that writes it, and if there is none the terminator. -/
def usesFrom (block : Block n) (b : Nat) (t : Temp) (i : Nat) : List Use :=
  ((block.exposed t i).filter fun p => p.1.reads t).map (fun p => ⟨b, .line p.2⟩) ++
    if block.overwrites t i then []
    else if block.operand = some t then [⟨b, .blockEnd⟩] else []

theorem overwrites_of_op (ho : block.ops[i]? = some o) :
    block.overwrites t i = (decide (o.dest = some t) || block.overwrites t (i + 1)) := by
  obtain ⟨hi, rfl⟩ := List.getElem?_eq_some_iff.mp ho
  rw [overwrites, List.drop_eq_getElem_cons hi, List.any_cons]
  rfl

theorem overwrites_of_end (hi : block.ops[i]? = none) : block.overwrites t i = false := by
  rw [overwrites, List.drop_eq_nil_of_le (List.getElem?_eq_none_iff.mp hi)]
  rfl

theorem exposed_of_op (ho : block.ops[i]? = some o) :
    block.exposed t i =
      (o, i + 1) :: if o.dest = some t then [] else block.exposed t (i + 1) := by
  obtain ⟨hi, rfl⟩ := List.getElem?_eq_some_iff.mp ho
  have hlt : i < (block.ops.zipIdx 1).length := by rwa [List.length_zipIdx]
  have hdrop : (block.ops.zipIdx 1).drop i =
      (block.ops[i], i + 1) :: (block.ops.zipIdx 1).drop (i + 1) := by
    rw [List.drop_eq_getElem_cons hlt, List.getElem_zipIdx, Nat.add_comm 1 i]
  rw [exposed, hdrop]
  by_cases hd : block.ops[i].dest = some t <;> simp [exposed, hd]

theorem exposed_of_end (hi : block.ops[i]? = none) : block.exposed t i = [] := by
  have hle : (block.ops.zipIdx 1).length ≤ i := by
    rw [List.length_zipIdx]
    exact List.getElem?_eq_none_iff.mp hi
  rw [exposed, List.drop_eq_nil_of_le hle]
  rfl

theorem usesFrom_of_op (ho : block.ops[i]? = some o) :
    block.usesFrom b t i = (if o.reads t then [⟨b, .line (i + 1)⟩] else []) ++
      if o.dest = some t then [] else block.usesFrom b t (i + 1) := by
  rw [usesFrom, exposed_of_op ho, overwrites_of_op ho, usesFrom]
  by_cases hd : o.dest = some t <;> by_cases hr : o.reads t = true <;> simp [hd, hr]

theorem usesFrom_of_end (hi : block.ops[i]? = none) :
    block.usesFrom b t i = if block.operand = some t then [⟨b, .blockEnd⟩] else [] := by
  rw [usesFrom, exposed_of_end hi, overwrites_of_end hi]
  rfl

/-- A scan finds what the block reads. -/
theorem scan_eq (block : Block n) (b : Nat) (t : Temp) (i : Nat) :
    block.scan b t i = (block.usesFrom b t i, block.overwrites t i) := by
  refine block.backward_induction
    (P := fun i => block.scan b t i = (block.usesFrom b t i, block.overwrites t i)) ?_ ?_ i
  · intro i hi
    rw [scan_of_end hi, usesFrom_of_end hi, overwrites_of_end hi]
  · intro i o ho ih
    rw [scan_of_op ho, ih, usesFrom_of_op ho, overwrites_of_op ho]
    by_cases hd : o.dest = some t <;> simp [hd]

end Block

/-! ### The recursive search -/

theorem unscanned_le_of_subset (blocks : List (Block n)) {visited visited' : List Nat}
    (h : visited ⊆ visited') : unscanned blocks visited' ≤ unscanned blocks visited :=
  List.countP_mono_left fun b _ hb => by
    rw [decide_eq_true_eq] at hb ⊢
    exact fun hmem => hb (h hmem)

/-- What a search brings back that starts when some blocks have been visited. -/
structure Exploration (visited : List Nat) where
  /-- The uses that were found, in the order in which they were found. -/
  uses : List Use
  /-- The blocks that have been visited now. -/
  after : List Nat
  visited_subset : visited ⊆ after

/-- Nothing is left to be found. -/
def Exploration.none (visited : List Nat) : Exploration visited := ⟨[], visited, fun _ h => h⟩

mutual

/-- Visits block `b`, and what lies behind it unless the block writes the temp. -/
def explore (blocks : List (Block n)) (t : Temp) (visited : List Nat) (b : Nat) :
    Exploration visited :=
  if hv : b ∈ visited then .none visited
  else if hb : b < blocks.length then
    if blocks[b].overwrites t 0 then
      ⟨blocks[b].usesFrom b t 0, b :: visited, List.subset_cons_self b visited⟩
    else
      let behind := exploreAll blocks t (b :: visited) blocks[b].successors
      ⟨blocks[b].usesFrom b t 0 ++ behind.uses, behind.after,
        List.Subset.trans (List.subset_cons_self b visited) behind.visited_subset⟩
  else .none visited
termination_by (unscanned blocks visited, 0)
decreasing_by exact Prod.Lex.left _ _ (unscanned_cons_lt hb hv)

/-- Visits the blocks of a list and what lies behind them, one after the other. -/
def exploreAll (blocks : List (Block n)) (t : Temp) (visited : List Nat) :
    List Nat → Exploration visited
  | [] => .none visited
  | b :: rest =>
    let first := explore blocks t visited b
    let second := exploreAll blocks t first.after rest
    ⟨first.uses ++ second.uses, second.after,
      List.Subset.trans first.visited_subset second.visited_subset⟩
termination_by targets => (unscanned blocks visited, targets.length)
decreasing_by
  · exact Prod.Lex.right _ (Nat.succ_pos _)
  · exact Prod.Lex.right' _ (unscanned_le_of_subset blocks first.visited_subset) (Nat.lt_succ_self _)

end

section Explore

variable {visited : List Nat}

theorem explore_of_mem (hv : b ∈ visited) : explore blocks t visited b = .none visited := by
  rw [explore, dif_pos hv]

theorem explore_of_ge (hv : b ∉ visited) (hb : ¬b < blocks.length) :
    explore blocks t visited b = .none visited := by
  rw [explore, dif_neg hv, dif_neg hb]

theorem explore_of_overwrites (hv : b ∉ visited) (hb : b < blocks.length)
    (hk : blocks[b].overwrites t 0 = true) :
    (explore blocks t visited b).uses = blocks[b].usesFrom b t 0 ∧
      (explore blocks t visited b).after = b :: visited := by
  rw [explore, dif_neg hv, dif_pos hb, if_pos hk]
  exact ⟨rfl, rfl⟩

theorem explore_of_survives (hv : b ∉ visited) (hb : b < blocks.length)
    (hk : blocks[b].overwrites t 0 = false) :
    (explore blocks t visited b).uses = blocks[b].usesFrom b t 0 ++
        (exploreAll blocks t (b :: visited) blocks[b].successors).uses ∧
      (explore blocks t visited b).after =
        (exploreAll blocks t (b :: visited) blocks[b].successors).after := by
  rw [explore, dif_neg hv, dif_pos hb, if_neg (by rw [hk]; decide)]
  exact ⟨rfl, rfl⟩

theorem exploreAll_nil : exploreAll blocks t visited [] = .none visited := by
  rw [exploreAll]

theorem exploreAll_cons (blocks : List (Block n)) (t : Temp) (visited : List Nat) (b : Nat)
    (rest : List Nat) :
    (exploreAll blocks t visited (b :: rest)).uses = (explore blocks t visited b).uses ++
        (exploreAll blocks t (explore blocks t visited b).after rest).uses ∧
      (exploreAll blocks t visited (b :: rest)).after =
        (exploreAll blocks t (explore blocks t visited b).after rest).after := by
  rw [exploreAll]
  exact ⟨rfl, rfl⟩

/-- Exploring two lists in a row is exploring their concatenation. -/
theorem uses_exploreAll_append (as bs : List Nat) :
    (exploreAll blocks t visited (as ++ bs)).uses = (exploreAll blocks t visited as).uses ++
      (exploreAll blocks t (exploreAll blocks t visited as).after bs).uses := by
  induction as generalizing visited with
  | nil =>
    rw [exploreAll_nil]
    rfl
  | cons a as ih =>
    obtain ⟨huses, hafter⟩ := exploreAll_cons blocks t visited a as
    rw [List.cons_append, (exploreAll_cons ..).1, ih, huses, hafter, List.append_assoc]

/-- A block that has not been visited is read, and what lies behind it goes in front of the rest. -/
theorem uses_exploreAll_visit (hv : b ∉ visited) (hb : b < blocks.length) (rest : List Nat) :
    (exploreAll blocks t visited (b :: rest)).uses = blocks[b].usesFrom b t 0 ++
      (exploreAll blocks t (b :: visited)
        ((if blocks[b].overwrites t 0 then [] else blocks[b].successors) ++ rest)).uses := by
  rw [(exploreAll_cons ..).1]
  cases hk : blocks[b].overwrites t 0 with
  | true =>
    obtain ⟨huses, hafter⟩ := explore_of_overwrites hv hb hk
    rw [huses, hafter, if_pos rfl, List.nil_append]
  | false =>
    obtain ⟨huses, hafter⟩ := explore_of_survives hv hb hk
    rw [huses, hafter, if_neg Bool.false_ne_true, uses_exploreAll_append, List.append_assoc]

end Explore

/-! ### The search with a stack -/

theorem Block.map_fst_onward (block : Block n) (killed : Bool) (depth : Nat) :
    (block.onward killed depth).map Prod.fst = if killed then [] else block.successors := by
  cases killed <;> simp [onward, Function.comp_def]

/-- The search with a stack finds what the recursive one finds from the blocks on the stack, in the
same order. -/
theorem uses_of_search {limit : Nat} {stack : List (Nat × Nat)} {scanned : List Nat}
    {uses : List Use} (h : search blocks t limit stack scanned = .ok uses) :
    uses = (exploreAll blocks t scanned (stack.map Prod.fst)).uses := by
  fun_induction search blocks t limit stack scanned generalizing uses with
  | case1 =>
    cases h
    rw [List.map_nil, exploreAll_nil]
    rfl
  | case2 => cases h
  | case3 scanned b depth rest _ hs ih =>
    rw [ih h, List.map_cons, (exploreAll_cons ..).1, explore_of_mem hs]
    rfl
  | case4 scanned b depth rest _ hs hb found killed hscan ih =>
    obtain ⟨more, hmore, rfl⟩ := map_eq_ok_iff.mp h
    obtain ⟨rfl, rfl⟩ := Prod.mk.inj (hscan.symm.trans (Block.scan_eq ..))
    rw [ih hmore, List.map_append, Block.map_fst_onward, List.map_cons, uses_exploreAll_visit hs hb]
  | case5 scanned b depth rest _ hs hb ih =>
    rw [ih h, List.map_cons, (exploreAll_cons ..).1, explore_of_ge hs hb]
    rfl

/-- **Chains are in the order of a recursive search.** The chain of a definition lists what the rest
of its block reads and then, if nothing there writes the temp again, what the recursive search finds
from the targets of the block, the first one first. -/
theorem Block.chain_eq_explore {block : Block n} {i : Nat} {o : Op} (hb : blocks[b]? = some block)
    (ho : block.ops[i]? = some o) (hd : o.dest = some t) :
    block.chain blocks b i t = .ok (block.usesFrom b t (i + 1) ++
      if block.overwrites t (i + 1) then []
      else (exploreAll blocks t [] block.successors).uses) := by
  obtain ⟨chain, hchain⟩ := Block.exists_chain hb ho hd
  obtain ⟨found, hfound, rfl⟩ := exists_of_chain hchain
  rw [hchain, uses_of_search hfound, map_fst_onward, scan_eq]
  cases block.overwrites t (i + 1) with
  | true =>
    rw [if_pos rfl, if_pos rfl, exploreAll_nil]
    rfl
  | false => rfl

/-- Blocks in which two ways lead from the first block to the fourth, and one leads back from there.
The last block reads what it overwrites. -/
def Block.crossing : List (Block 2) := [
  .blank 2 0 [.const ⟨0⟩ (.int 1), .param ⟨0⟩] (.branch .zero ⟨1⟩ 1 2),
  .blank 2 1 [.param ⟨0⟩] (.branch .nonzero ⟨0⟩ 3 2),
  .blank 2 2 [.param ⟨0⟩] (.jump 3),
  .blank 2 3 [.param ⟨0⟩] (.branch .zero ⟨1⟩ 0 4),
  .blank 2 4 [.unary .neg ⟨0⟩ ⟨0⟩] (.ret (some ⟨0⟩))]

theorem Block.chain_eq_explore_crossing :
    ∃ block, Block.crossing[0]? = some block ∧
      block.ops[0]? = some (.const ⟨0⟩ (.int 1)) ∧
      block.chain Block.crossing 0 0 ⟨0⟩ = .ok [⟨0, .line 2⟩, ⟨1, .line 1⟩, ⟨1, .blockEnd⟩,
        ⟨3, .line 1⟩, ⟨4, .line 1⟩, ⟨2, .line 1⟩] ∧
      block.chain Block.crossing 0 0 ⟨0⟩ = .ok (block.usesFrom 0 ⟨0⟩ 1 ++
        if block.overwrites ⟨0⟩ 1 then []
        else (exploreAll Block.crossing ⟨0⟩ [] block.successors).uses) :=
  ⟨_, rfl, rfl, by decide +kernel, chain_eq_explore rfl rfl rfl⟩

end FlowFacts
