import FlowFacts.Block.Edge
import FlowFacts.Proofs.Block.Shape
import FlowFacts.Withdrawal
import Mathlib.Algebra.BigOperators.Group.Finset.Basic
import Mathlib.Algebra.Ring.Nat
import Mathlib.Data.List.Count

/-!
# The structure of blocks

The blocks of a graph are numbered by their position and lead to each other. Each of them stores how
often it is led to, the entry once more than the others. If no branch leads to the same block twice,
that is the number of its predecessors.

Numbers, degrees and terminators are the frame of a block. They do not change when facts are stored
or lines inserted, and neither does what is said here.

## Main definitions

* `Structured` — what holds of the blocks of every graph

## Main results

* `length_edges`, `count_successors`, `sum_entryCounts` — edges by block, by target and in all
* `Structured.of_map_eq` — the structure is a matter of the frames
-/

namespace FlowFacts

variable {n n' : Nat} {blocks : List (Block n)} {blocks' : List (Block n')}

/-- Blocks are numbered by their position, none is to be removed, all targets exist and those of a
branch differ, and the edges into each block are counted right. -/
structure Structured (blocks : List (Block n)) : Prop where
  number_eq : ∀ {k : Nat} {block : Block n}, blocks[k]? = some block → block.number = k
  not_cancelled : ∀ block ∈ blocks, block.cancelled = false
  targetsExist : TargetsExist blocks
  targets_ne : ∀ block ∈ blocks, ∀ {test : Test} {c : Temp} {t f : Nat},
    block.terminator = .branch test c t f → t ≠ f
  inDegree_eq : ∀ {k : Nat} {block : Block n}, blocks[k]? = some block →
    block.inDegree = (predecessors blocks k).length + if k = 0 then 1 else 0
  one_le_inDegree : ∀ block ∈ blocks, 1 ≤ block.inDegree
  sum_inDegree : blocks ≠ [] → (blocks.map Block.inDegree).sum = (edges blocks).length + 1

/-! ### Counting edges -/

theorem Terminator.length_edges (x : Terminator) (b : Nat) :
    (x.edges b).length = x.successors.length := by
  cases x <;> rfl

theorem length_edges (blocks : List (Block n)) :
    (edges blocks).length = (blocks.flatMap Block.successors).length := by
  have hlengths : blocks.zipIdx.map (fun p => (p.1.terminator.edges p.2).length) =
      blocks.map fun b => b.successors.length := by
    simp only [Terminator.length_edges]
    conv_rhs => rw [← List.zipIdx_map_fst 0 blocks, List.map_map]
    rfl
  rw [edges, List.length_flatMap, List.length_flatMap, hlengths]

theorem length_predecessors (blocks : List (Block n)) (k : Nat) :
    (predecessors blocks k).length = blocks.countP fun b => k ∈ b.successors := by
  rw [predecessors, List.length_map, ← List.countP_eq_length_filter]
  conv_rhs => rw [← List.zipIdx_map_fst 0 blocks, List.countP_map]
  rfl

/-- If no block leads to another one twice, the edges into a block are its predecessors. -/
theorem count_successors (h : ∀ b ∈ blocks, b.successors.Nodup) (k : Nat) :
    (blocks.flatMap Block.successors).count k = (predecessors blocks k).length := by
  rw [length_predecessors]
  induction blocks with
  | nil => rfl
  | cons b blocks ih =>
    rw [List.flatMap_cons, List.count_append, ih fun b hb => h b (List.mem_cons_of_mem _ hb),
      List.countP_cons, (h b List.mem_cons_self).count]
    simp only [decide_eq_true_eq, Nat.add_comm]

/-- Every edge counts at one block, and the entry counts once more. -/
theorem sum_entryCounts (h : TargetsExist blocks) (hne : blocks ≠ []) :
    (entryCounts blocks).sum = (blocks.flatMap Block.successors).length + 1 := by
  -- the entry is the target of one more edge
  let targets := 0 :: blocks.flatMap Block.successors
  have hlt : ∀ k ∈ (targets : Multiset Nat), k ∈ Finset.range blocks.length := by
    intro k hk
    rw [Finset.mem_range]
    rcases List.mem_cons.mp (Multiset.mem_coe.mp hk) with rfl | hk
    · exact List.length_pos_of_ne_nil hne
    · obtain ⟨b, hb, hk⟩ := List.mem_flatMap.mp hk
      exact h b hb k hk
  have hcounts : entryCounts blocks = (List.range blocks.length).map targets.count := by
    refine List.map_congr_left fun i _ => ?_
    rw [List.count_cons, Nat.add_comm]
    simp only [beq_iff_eq, eq_comm (a := i)]
  have hsum := Multiset.sum_count_eq_card hlt
  simp only [Finset.sum, Finset.range_val, Multiset.range, Multiset.map_coe, Multiset.sum_coe,
    Multiset.coe_count, Multiset.coe_card] at hsum
  exact hcounts ▸ hsum

/-! ### Frames -/

/-- What stays as it is when facts are stored or lines inserted. -/
def Block.frame (b : Block n) : Nat × Bool × Nat × Terminator :=
  (b.number, b.cancelled, b.inDegree, b.terminator)

theorem length_predecessors_congr
    (h : blocks'.map Block.terminator = blocks.map Block.terminator) (k : Nat) :
    (predecessors blocks' k).length = (predecessors blocks k).length := by
  have hcount := congrArg (List.countP fun x : Terminator => k ∈ x.successors) h
  rw [List.countP_map, List.countP_map] at hcount
  rw [length_predecessors, length_predecessors]
  exact hcount

theorem length_edges_congr (h : blocks'.map Block.terminator = blocks.map Block.terminator) :
    (edges blocks').length = (edges blocks).length := by
  have htargets := congrArg (List.flatMap Terminator.successors) h
  rw [List.flatMap_map, List.flatMap_map] at htargets
  rw [length_edges, length_edges]
  exact congrArg List.length htargets

/-- Blocks with the frames of structured blocks are structured. -/
theorem Structured.of_map_eq (hs : Structured blocks)
    (h : blocks'.map Block.frame = blocks.map Block.frame) : Structured blocks' := by
  have hpart : ∀ {α : Type} (part : Nat × Bool × Nat × Terminator → α),
      blocks'.map (part ∘ Block.frame) = blocks.map (part ∘ Block.frame) := by
    intro α part
    rw [← List.map_map, h, List.map_map]
  have hdegree : blocks'.map Block.inDegree = blocks.map Block.inDegree := hpart (·.2.2.1)
  have hterm : blocks'.map Block.terminator = blocks.map Block.terminator := hpart (·.2.2.2)
  have hlen : blocks'.length = blocks.length := by simpa using congrArg List.length h
  have hget : ∀ {k : Nat} {block' : Block n'}, blocks'[k]? = some block' →
      ∃ block, blocks[k]? = some block ∧ block.number = block'.number ∧
        block.cancelled = block'.cancelled ∧ block.inDegree = block'.inDegree ∧
        block.terminator = block'.terminator := by
    intro k block' hk
    obtain ⟨block, hblock, heq⟩ := exists_of_map_eq_map h hk
    simp only [Block.frame, Prod.mk.injEq] at heq
    exact ⟨block, hblock, heq⟩
  have hmem : ∀ block' ∈ blocks', ∃ block ∈ blocks, block.cancelled = block'.cancelled ∧
      block.inDegree = block'.inDegree ∧ block.terminator = block'.terminator := by
    intro block' hb'
    obtain ⟨k, hk⟩ := List.getElem?_of_mem hb'
    obtain ⟨block, hb, -, heq⟩ := hget hk
    exact ⟨block, List.mem_of_getElem? hb, heq⟩
  refine ⟨?_, ?_, ?_, ?_, ?_, ?_, ?_⟩
  · intro k block' hk
    obtain ⟨block, hb, hnumber, -⟩ := hget hk
    exact hnumber ▸ hs.number_eq hb
  · intro block' hb'
    obtain ⟨block, hb, hcancelled, -⟩ := hmem block' hb'
    exact hcancelled ▸ hs.not_cancelled block hb
  · intro block' hb' s hs'
    obtain ⟨block, hb, -, -, heq⟩ := hmem block' hb'
    rw [hlen]
    refine hs.targetsExist block hb s ?_
    rwa [Block.successors, heq]
  · intro block' hb' test c t f hbranch
    obtain ⟨block, hb, -, -, heq⟩ := hmem block' hb'
    exact hs.targets_ne block hb (heq.trans hbranch)
  · intro k block' hk
    obtain ⟨block, hb, -, -, hdeg, -⟩ := hget hk
    rw [← hdeg, hs.inDegree_eq hb, length_predecessors_congr hterm]
  · intro block' hb'
    obtain ⟨block, hb, -, hdeg, -⟩ := hmem block' hb'
    exact hdeg ▸ hs.one_le_inDegree block hb
  · intro hne
    have hne' : blocks ≠ [] := by
      rintro rfl
      exact hne (List.eq_nil_of_length_eq_zero hlen)
    rw [hdegree, hs.sum_inDegree hne', length_edges_congr hterm]

end FlowFacts
