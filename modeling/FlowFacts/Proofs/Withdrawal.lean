import FlowFacts.Withdrawal
import Mathlib.Algebra.BigOperators.Group.Finset.Basic
import Mathlib.Algebra.Order.BigOperators.Group.Finset

/-!
# What withdrawing edges comes to

The counts that withdrawal ends with are not just some lower bound: they count the edges from the
blocks that were not withdrawn, each edge once, and the blocks withdrawn are exactly the ones other
than the entry with nothing left.

Along the way a block is withdrawn, pending or neither. The invariant says that the counts are those
of the blocks not withdrawn, plus the edges of the current block that are still to be released. A
block becomes pending when its count comes down from one, so none does twice.

## Main results

* `Withdrawal.Invariant.release`, `Withdrawal.Invariant.step`, `Withdrawal.Invariant.run` — one
  edge, one block, all blocks
* `exists_withdrawn` — the final counts and the withdrawn blocks
* `MayRun.successor` — control never goes from a block that may run to a withdrawn one
* `MayRun.exists_predecessor` — control comes to a block that may run from one that may run
* `not_mayRun_iff_dead` — which blocks are withdrawn, said without counting
-/

namespace FlowFacts

variable {n : Nat}

/-- The number of edges to block `i` from blocks that are not withdrawn. -/
def edgesInto (blocks : List (Block n)) (gone : Finset Nat) (i : Nat) : Nat :=
  ∑ b ∈ Finset.range blocks.length \ gone, (successorsOf blocks b).count i

theorem successorsOf_of_getElem? {blocks : List (Block n)} {b : Nat} {block : Block n}
    (hb : blocks[b]? = some block) : successorsOf blocks b = block.successors := by
  rw [successorsOf, hb]
  rfl

/-- Before anything is withdrawn all edges count. -/
theorem count_flatMap_successors (blocks : List (Block n)) (i : Nat) :
    (blocks.flatMap Block.successors).count i = edgesInto blocks ∅ i := by
  induction blocks with
  | nil => rfl
  | cons block blocks ih =>
    have hshift : ∀ b, successorsOf (block :: blocks) (b + 1) = successorsOf blocks b := by
      intro b
      rfl
    rw [List.flatMap_cons, List.count_append, ih, edgesInto, edgesInto, Finset.sdiff_empty,
      Finset.sdiff_empty, List.length_cons, Finset.sum_range_succ', Nat.add_comm]
    simp only [hshift]
    rfl

/-- Withdrawing a block takes its edges away. -/
theorem edgesInto_insert {blocks : List (Block n)} {gone : Finset Nat} {b : Nat}
    (hb : b < blocks.length) (hgone : b ∉ gone) (i : Nat) :
    edgesInto blocks (insert b gone) i + (successorsOf blocks b).count i =
      edgesInto blocks gone i := by
  have hmem : b ∈ Finset.range blocks.length \ gone := by simp [hb, hgone]
  rw [edgesInto, edgesInto, Finset.sdiff_insert, Nat.add_comm]
  exact Finset.add_sum_erase _ (fun c => (successorsOf blocks c).count i) hmem

/-- An edge from a block that is not withdrawn counts. -/
theorem edgesInto_pos {blocks : List (Block n)} {gone : Finset Nat} {b s : Nat} {block : Block n}
    (hb : blocks[b]? = some block) (hgone : b ∉ gone) (hs : s ∈ block.successors) :
    0 < edgesInto blocks gone s := by
  have hlt : b < blocks.length := (List.getElem?_eq_some_iff.mp hb).1
  have hmem : b ∈ Finset.range blocks.length \ gone := by simp [hlt, hgone]
  have hone : 0 < (successorsOf blocks b).count s := by
    rw [successorsOf_of_getElem? hb]
    exact List.count_pos_iff.mpr hs
  calc 0 < (successorsOf blocks b).count s := hone
    _ ≤ edgesInto blocks gone s :=
      Finset.single_le_sum (f := fun c => (successorsOf blocks c).count s)
        (fun _ _ => Nat.zero_le _) hmem

/-- Edges come from blocks that are not withdrawn. -/
theorem mem_of_edgesInto_eq_zero {blocks : List (Block n)} {gone : Finset Nat} {b c : Nat}
    {block : Block n} (h : edgesInto blocks gone b = 0) (hc : blocks[c]? = some block)
    (hb : b ∈ block.successors) : c ∈ gone := by
  by_contra hgone
  exact absurd h (Nat.ne_of_gt (edgesInto_pos hc hgone hb))

/-- Block `b` is not the entry, and all blocks with an edge to it are dead. So a block that can be
reached from a circle is not. -/
inductive Dead (blocks : List (Block n)) : Nat → Prop
  | intro {b : Nat} (hlt : b < blocks.length) (hne : b ≠ 0)
      (h : ∀ {c : Nat} {block : Block n}, blocks[c]? = some block → b ∈ block.successors →
        Dead blocks c) : Dead blocks b

namespace Withdrawal

/-- The blocks in `gone` are withdrawn, but for the edges of the last one of them to the blocks in
`left`. -/
structure Invariant (blocks : List (Block n)) (gone : Finset Nat) (left : List Nat)
    (w : Withdrawal) : Prop where
  length_counts : w.counts.length = blocks.length
  counts : ∀ i < blocks.length,
    w.counts.getD i 0 = ((if i = 0 then 1 else 0) + edgesInto blocks gone i + left.count i : Nat)
  nodup : w.pending.Nodup
  pending_not_gone : ∀ i ∈ w.pending, i ∉ gone
  /-- Withdrawn and pending blocks are the ones without edges. -/
  dead_iff : ∀ i, i ∈ gone ∨ i ∈ w.pending ↔
    i < blocks.length ∧ i ≠ 0 ∧ w.counts.getD i 0 ≤ 0
  gone_dead : ∀ i ∈ gone, Dead blocks i

theorem length_counts_release (w : Withdrawal) (s : Nat) :
    (w.release s).counts.length = w.counts.length := by
  unfold Withdrawal.release
  split <;> simp

theorem getD_counts_release (w : Withdrawal) (s : Nat) {i : Nat} (hi : i < w.counts.length) :
    (w.release s).counts.getD i 0 = w.counts.getD i 0 - if s = i then 1 else 0 := by
  unfold Withdrawal.release
  split
  · rename_i hs
    have hne : s ≠ i := fun h => by simp [h, hi] at hs
    simp [hne]
  · rename_i c hs
    by_cases h : s = i
    · subst h
      obtain ⟨-, rfl⟩ := List.getElem?_eq_some_iff.mp hs
      simp [List.getD_eq_getElem?_getD, hi]
    · simp [List.getD_eq_getElem?_getD, h]

theorem pending_release (w : Withdrawal) (s : Nat) :
    (w.release s).pending =
      if w.counts.getD s 0 = 1 ∧ s ≠ 0 then s :: w.pending else w.pending := by
  unfold Withdrawal.release
  split
  · rename_i hs
    simp [List.getD_eq_getElem?_getD, hs]
  · rename_i c hs
    have hc : c - 1 = 0 ↔ c = 1 := by omega
    simp [List.getD_eq_getElem?_getD, hs, hc]

theorem mem_pending_release {w : Withdrawal} {s i : Nat} :
    i ∈ (w.release s).pending ↔ i ∈ w.pending ∨ i = s ∧ w.counts.getD s 0 = 1 ∧ s ≠ 0 := by
  rw [pending_release]
  split <;> simp_all [or_comm]

/-- A block with a count of one is neither withdrawn nor pending. -/
theorem Invariant.fresh {blocks : List (Block n)} {gone : Finset Nat} {left : List Nat}
    {w : Withdrawal} (h : Invariant blocks gone left w) {s : Nat} (hone : w.counts.getD s 0 = 1) :
    s ∉ gone ∧ s ∉ w.pending := by
  rw [← not_or, h.dead_iff]
  omega

/-- Releasing an edge to a block keeps the invariant. Only a count of one can come down to zero, and
a block with such a count is neither withdrawn nor pending. -/
theorem Invariant.release {blocks : List (Block n)} {gone : Finset Nat} {s : Nat} {left : List Nat}
    {w : Withdrawal} (h : Invariant blocks gone (s :: left) w) :
    Invariant blocks gone left (w.release s) := by
  have hcounts : ∀ i < blocks.length, (w.release s).counts.getD i 0 =
      ((if i = 0 then 1 else 0) + edgesInto blocks gone i + left.count i : Nat) := by
    intro i hi
    rw [getD_counts_release w s (h.length_counts ▸ hi), h.counts i hi, List.count_cons]
    by_cases hs : s = i <;> simp [hs]
    omega
  refine ⟨(length_counts_release w s).trans h.length_counts, hcounts, ?_, ?_, fun i => ?_,
    h.gone_dead⟩
  · rw [pending_release]
    split
    · rename_i hs
      exact List.nodup_cons.mpr ⟨(h.fresh hs.1).2, h.nodup⟩
    · exact h.nodup
  · intro i hi
    rcases mem_pending_release.mp hi with hi | ⟨rfl, hone, -⟩
    · exact h.pending_not_gone i hi
    · exact (h.fresh hone).1
  · rw [mem_pending_release, ← or_assoc, h.dead_iff]
    constructor
    · rintro (⟨hlt, hne, hle⟩ | ⟨rfl, hone, hne⟩)
      · refine ⟨hlt, hne, ?_⟩
        rw [getD_counts_release w s (h.length_counts ▸ hlt)]
        split <;> omega
      · have hlt : i < blocks.length := by
          by_contra hge
          have hnone : w.counts[i]? = none := List.getElem?_eq_none (by rw [h.length_counts]; omega)
          simp [List.getD_eq_getElem?_getD, hnone] at hone
        refine ⟨hlt, hne, ?_⟩
        rw [getD_counts_release w i (h.length_counts ▸ hlt), if_pos rfl]
        omega
    · rintro ⟨hlt, hne, hle⟩
      have hnew := hcounts i hlt
      rw [getD_counts_release w s (h.length_counts ▸ hlt)] at hle hnew
      by_cases hs : s = i
      · subst hs
        rw [if_pos rfl] at hle hnew
        by_cases hone : w.counts.getD s 0 = 1
        · exact .inr ⟨rfl, hone, hne⟩
        · exact .inl ⟨hlt, hne, by omega⟩
      · rw [if_neg hs] at hle
        exact .inl ⟨hlt, hne, by omega⟩

theorem Invariant.releases {blocks : List (Block n)} {gone : Finset Nat} {left : List Nat}
    {w : Withdrawal} (h : Invariant blocks gone left w) :
    Invariant blocks gone [] (left.foldl Withdrawal.release w) := by
  induction left generalizing w with
  | nil => exact h
  | cons s left ih => exact ih h.release

/-- The next pending block has just left the stack, and none of its edges is released yet. -/
theorem Invariant.take {blocks : List (Block n)} {gone : Finset Nat} {w : Withdrawal} {b : Nat}
    {rest : List Nat} (h : Invariant blocks gone [] w) (hw : w.pending = b :: rest) :
    Invariant blocks (insert b gone) (successorsOf blocks b) { w with pending := rest } := by
  have hpending : b ∈ w.pending := hw ▸ List.mem_cons_self
  have hnodup : b ∉ rest ∧ rest.Nodup := List.nodup_cons.mp (hw ▸ h.nodup)
  have hgone : b ∉ gone := h.pending_not_gone b hpending
  obtain ⟨hlt, hne, hle⟩ := (h.dead_iff b).mp (.inr hpending)
  -- the block has no edges left, so those that it had came from withdrawn blocks
  have hdead : Dead blocks b := by
    have hcount := h.counts b hlt
    rw [if_neg hne, List.count_nil] at hcount
    refine .intro hlt hne fun hc hb => h.gone_dead _ (mem_of_edgesInto_eq_zero ?_ hc hb)
    omega
  refine ⟨h.length_counts, fun i hi => ?_, hnodup.2, fun i hi => ?_, fun i => ?_, fun i hi => ?_⟩
  · rw [h.counts i hi, ← edgesInto_insert hlt hgone i]
    simp [Nat.add_assoc]
  · rw [Finset.mem_insert, not_or]
    exact ⟨fun he => hnodup.1 (he ▸ hi), h.pending_not_gone i (hw ▸ List.mem_cons_of_mem b hi)⟩
  · rw [← h.dead_iff i, hw, Finset.mem_insert, List.mem_cons]
    exact ⟨fun hi => by tauto, fun hi => by tauto⟩
  · rcases Finset.mem_insert.mp hi with rfl | hi
    · exact hdead
    · exact h.gone_dead i hi

/-- Withdrawing the next pending block keeps the invariant. -/
theorem Invariant.step {blocks : List (Block n)} {gone : Finset Nat} {w : Withdrawal} {b : Nat}
    {rest : List Nat} (h : Invariant blocks gone [] w) (hw : w.pending = b :: rest) :
    Invariant blocks (insert b gone) [] (w.step blocks) := by
  rw [Withdrawal.step, hw]
  exact (h.take hw).releases

/-- All blocks are withdrawn that can be. -/
theorem Invariant.run {blocks : List (Block n)} {gone : Finset Nat} {w : Withdrawal}
    (h : Invariant blocks gone [] w) :
    ∃ gone', Invariant blocks gone' [] ⟨w.run blocks, []⟩ := by
  fun_induction Withdrawal.run blocks w generalizing gone with
  | case1 w hw => exact ⟨gone, hw ▸ h⟩
  | case2 w hw ih =>
    obtain ⟨b, rest, hpending⟩ := List.exists_cons_of_ne_nil hw
    exact ih (h.step hpending)

theorem invariant_start (blocks : List (Block n)) :
    Invariant blocks ∅ [] (Withdrawal.start blocks) := by
  have hcounts : ∀ i < blocks.length, (Withdrawal.start blocks).counts.getD i 0 =
      ((if i = 0 then 1 else 0) + edgesInto blocks ∅ i + ([] : List Nat).count i : Nat) := by
    intro i hi
    rw [← count_flatMap_successors]
    simp [Withdrawal.start, entryCounts, List.getD_eq_getElem?_getD, hi]
  refine ⟨by simp [Withdrawal.start, entryCounts], hcounts, ?_, by simp, fun i => ?_, by simp⟩
  · exact List.nodup_reverse.mpr (List.nodup_range.filter _)
  · simp [Withdrawal.start]

end Withdrawal

/-- **Withdrawal.** The final counts are the edges from blocks that are not withdrawn, one more for
the entry, and the blocks withdrawn are the others without any. -/
theorem exists_withdrawn (blocks : List (Block n)) :
    ∃ gone : Finset Nat,
      (∀ i, i ∈ gone ↔ i < blocks.length ∧ i ≠ 0 ∧ (liveCounts blocks).getD i 0 ≤ 0) ∧
      ∀ i < blocks.length,
        (liveCounts blocks).getD i 0 =
          ((if i = 0 then 1 else 0) + edgesInto blocks gone i : Nat) := by
  obtain ⟨gone, h⟩ := (Withdrawal.invariant_start blocks).run
  refine ⟨gone, fun i => ?_, fun i hi => ?_⟩
  · simpa [liveCounts] using h.dead_iff i
  · simpa [liveCounts] using h.counts i hi

@[simp] theorem length_liveCounts (blocks : List (Block n)) :
    (liveCounts blocks).length = blocks.length := by
  obtain ⟨gone, h⟩ := (Withdrawal.invariant_start blocks).run
  exact h.length_counts

/-- The block is the entry, or an edge from a block that was not withdrawn leads to it. -/
def MayRun (blocks : List (Block n)) (b : Nat) : Prop :=
  b = 0 ∨ 0 < (liveCounts blocks).getD b 0

/-- Control never goes from a block that may run to one that was withdrawn. -/
theorem MayRun.successor {blocks : List (Block n)} {b s : Nat} {block : Block n}
    (h : MayRun blocks b) (hb : blocks[b]? = some block) (hs : s ∈ block.successors)
    (hlt : s < blocks.length) : MayRun blocks s := by
  obtain ⟨gone, hgone, hcounts⟩ := exists_withdrawn blocks
  have hnot : b ∉ gone := by
    rw [hgone]
    rintro ⟨-, hne, hle⟩
    rcases h with h | h
    · exact hne h
    · omega
  have hpos := edgesInto_pos hb hnot hs
  refine .inr ?_
  rw [hcounts s hlt]
  omega

/-- Control comes to a block that may run, other than the entry, from one that may run. -/
theorem MayRun.exists_predecessor {blocks : List (Block n)} {b : Nat} (h : MayRun blocks b)
    (hne : b ≠ 0) (hlt : b < blocks.length) :
    ∃ c block, MayRun blocks c ∧ blocks[c]? = some block ∧ b ∈ block.successors := by
  obtain ⟨gone, hgone, hcounts⟩ := exists_withdrawn blocks
  have hedges : edgesInto blocks gone b ≠ 0 := by
    have hpos := h.resolve_left hne
    rw [hcounts b hlt, if_neg hne] at hpos
    omega
  obtain ⟨c, hc, hcount⟩ := Finset.exists_ne_zero_of_sum_ne_zero hedges
  obtain ⟨hc, hnot⟩ := Finset.mem_sdiff.mp hc
  have hc := List.getElem?_eq_getElem (Finset.mem_range.mp hc)
  rw [successorsOf_of_getElem? hc] at hcount
  refine ⟨c, _, ?_, hc, List.count_pos_iff.mp (Nat.pos_of_ne_zero hcount)⟩
  by_contra hrun
  obtain ⟨hentry, hcount⟩ := not_or.mp hrun
  exact hnot ((hgone c).mpr ⟨(List.getElem?_eq_some_iff.mp hc).1, hentry, Int.not_lt.mp hcount⟩)

/-- The blocks that may not run are the dead ones. -/
theorem not_mayRun_iff_dead {blocks : List (Block n)} {b : Nat} (hlt : b < blocks.length) :
    ¬MayRun blocks b ↔ Dead blocks b := by
  constructor
  · intro h
    obtain ⟨hne, hcount⟩ := not_or.mp h
    obtain ⟨gone, hinv⟩ := (Withdrawal.invariant_start blocks).run
    have hmem := (hinv.dead_iff b).mpr ⟨hlt, hne, Int.not_lt.mp hcount⟩
    exact hinv.gone_dead b (hmem.resolve_right List.not_mem_nil)
  · intro h
    induction h with
    | intro hlt hne _ ih =>
      intro hrun
      obtain ⟨c, block, hcrun, hc, hmem⟩ := hrun.exists_predecessor hne hlt
      exact ih hc hmem (List.getElem?_eq_some_iff.mp hc).1 hcrun

end FlowFacts
