import FlowFacts.Block.Edge
import FlowFacts.Proofs.Withdrawal
import Mathlib.Data.Fintype.EquivFin
import Mathlib.Logic.Relation

/-!
# The course of a withdrawal

Withdrawing the edges of one block after the other is here taken apart into single moments, in each
of which either one edge is released or the next pending block is taken. All counts along the way
are numbers of edges, so none is ever negative, and a block is put on the stack only when its count
comes down from one to zero, which happens once.

What is left in the end can be said without counting. A block keeps a positive count if it can be
reached from the entry or from a circle, because control comes to such a block from another one of
this kind, however far one goes back. To all other blocks only finitely many different ways lead,
and they go down with the first block of the way.

## Main definitions

* `Withdrawal.course` — the moments of a withdrawal
* `Fed` — a block can be reached from the entry or from a circle

## Main results

* `Withdrawal.Tracks.next` — what holds from moment to moment
* `Withdrawal.exists_course_ended` — the course ends with the final counts
* `mayRun_iff_fed` — which blocks keep a positive count
* `liveCounts_eq_countP` — what the final counts are
-/

namespace FlowFacts

variable {n : Nat} {blocks : List (Block n)}

namespace Withdrawal

/-! ### Moments -/

/-- A moment of a withdrawal: the counts and the stack, the targets of the edges of the current
block that are still to be released, and the blocks that have been put on the stack so far. -/
structure Moment where
  state : Withdrawal
  left : List Nat
  pushed : List Nat

/-- What has been put on the stack of `w` to get that of `w'`. -/
def added (w w' : Withdrawal) : List Nat :=
  w'.pending.take (w'.pending.length - w.pending.length)

namespace Moment

def start (blocks : List (Block n)) : Moment :=
  ⟨.start blocks, [], (Withdrawal.start blocks).pending⟩

/-- Releases an edge of the current block, or takes the next block if there is none. -/
def next (blocks : List (Block n)) (m : Moment) : Moment :=
  match m.left, m.state.pending with
  | s :: left, _ =>
    let w := m.state.release s
    ⟨w, left, m.state.added w ++ m.pushed⟩
  | [], b :: rest => { m with state.pending := rest, left := successorsOf blocks b }
  | [], [] => m

end Moment

/-- The moment after a number of steps. -/
def course (blocks : List (Block n)) (k : Nat) : Moment := (Moment.next blocks)^[k] (.start blocks)

/-! ### What holds along the way -/

/-- The blocks in `gone` have been taken from the stack, and every block that has been on the stack
was put there once. -/
structure Tracks (blocks : List (Block n)) (gone : Finset Nat) (m : Moment) : Prop where
  invariant : Invariant blocks gone m.left m.state
  nodup : m.pushed.Nodup
  mem_pushed : ∀ i, i ∈ m.pushed ↔ i ∈ gone ∨ i ∈ m.state.pending

theorem added_release (w : Withdrawal) (s : Nat) :
    w.added (w.release s) = if w.counts.getD s 0 = 1 ∧ s ≠ 0 then [s] else [] := by
  rw [added, pending_release]
  split <;> simp

theorem mem_added_release {w : Withdrawal} {s i : Nat} :
    i ∈ w.added (w.release s) ↔ i = s ∧ w.counts.getD s 0 = 1 ∧ s ≠ 0 := by
  rw [added_release]
  split
  · next hs => rw [List.mem_singleton, and_iff_left hs]
  · next hs => exact iff_of_false List.not_mem_nil fun hi => hs hi.2

theorem tracks_start (blocks : List (Block n)) : Tracks blocks ∅ (.start blocks) where
  invariant := invariant_start blocks
  nodup := (invariant_start blocks).nodup
  mem_pushed _ := by simp [Moment.start]

/-- Releasing an edge puts at most one block on the stack, and none that has been there. -/
theorem Tracks.release {gone : Finset Nat} {w : Withdrawal} {s : Nat} {left pushed : List Nat}
    (h : Tracks blocks gone ⟨w, s :: left, pushed⟩) :
    Tracks blocks gone ⟨w.release s, left, w.added (w.release s) ++ pushed⟩ := by
  refine ⟨h.invariant.release, ?_, fun i => ?_⟩
  · rw [added_release]
    split
    · next hs =>
      have hfresh : s ∉ pushed := by
        rw [h.mem_pushed, not_or]
        exact h.invariant.fresh hs.1
      exact List.nodup_cons.mpr ⟨hfresh, h.nodup⟩
    · exact h.nodup
  · rw [List.mem_append, mem_added_release, mem_pending_release, h.mem_pushed, or_comm, or_assoc]

/-- What holds in a moment holds in the next one. -/
theorem Tracks.next {gone : Finset Nat} {m : Moment} (h : Tracks blocks gone m) :
    ∃ gone', Tracks blocks gone' (m.next blocks) := by
  obtain ⟨w, left, pushed⟩ := m
  cases left with
  | cons s left => exact ⟨gone, h.release⟩
  | nil =>
    obtain ⟨counts, pending⟩ := w
    cases pending with
    | nil => exact ⟨gone, h⟩
    | cons b rest =>
      refine ⟨insert b gone, h.invariant.take rfl, h.nodup, fun i => ?_⟩
      have hmem := h.mem_pushed i
      simp only [List.mem_cons] at hmem
      simp only [Moment.next, Finset.mem_insert]
      tauto

theorem exists_tracks_course (blocks : List (Block n)) (k : Nat) :
    ∃ gone, Tracks blocks gone (course blocks k) := by
  induction k with
  | zero => exact ⟨∅, tracks_start blocks⟩
  | succ k ih =>
    obtain ⟨gone, h⟩ := ih
    rw [course, Function.iterate_succ_apply']
    exact h.next

/-- Counts are numbers of edges. -/
theorem Invariant.nonneg {gone : Finset Nat} {left : List Nat} {w : Withdrawal}
    (h : Invariant blocks gone left w) : ∀ c ∈ w.counts, 0 ≤ c := by
  intro c hc
  obtain ⟨i, hi⟩ := List.getElem?_of_mem hc
  have hlt : i < blocks.length := h.length_counts ▸ (List.getElem?_eq_some_iff.mp hi).1
  have hcount := h.counts i hlt
  rw [List.getD_eq_getElem?_getD, hi, Option.getD_some] at hcount
  exact hcount ▸ Int.natCast_nonneg _

/-! ### The end -/

/-- All edges of the current block are released. -/
theorem exists_iterate_release (blocks : List (Block n)) (w : Withdrawal) (left pushed : List Nat) :
    ∃ pushed', (Moment.next blocks)^[left.length] ⟨w, left, pushed⟩ =
      ⟨left.foldl release w, [], pushed'⟩ := by
  induction left generalizing w pushed with
  | nil => exact ⟨pushed, rfl⟩
  | cons s left ih => exact ih ..

/-- All pending blocks are withdrawn. -/
theorem exists_iterate_run (blocks : List (Block n)) (w : Withdrawal) (pushed : List Nat) :
    ∃ k pushed', (Moment.next blocks)^[k] ⟨w, [], pushed⟩ = ⟨⟨w.run blocks, []⟩, [], pushed'⟩ := by
  fun_induction Withdrawal.run blocks w generalizing pushed with
  | case1 w hw => exact ⟨0, pushed, by rw [← hw]; rfl⟩
  | case2 w hw ih =>
    obtain ⟨counts, pending⟩ := w
    obtain ⟨b, rest, rfl⟩ := List.exists_cons_of_ne_nil hw
    obtain ⟨pushed₁, hrelease⟩ :=
      exists_iterate_release blocks ⟨counts, rest⟩ (successorsOf blocks b) pushed
    obtain ⟨k, pushed₂, hrun⟩ := ih pushed₁
    refine ⟨k + ((successorsOf blocks b).length + 1), pushed₂, ?_⟩
    rw [Function.iterate_add_apply, Function.iterate_succ_apply]
    exact (congrArg _ hrelease).trans hrun

/-- The course ends, and then the counts are the final ones. -/
theorem exists_course_ended (blocks : List (Block n)) :
    ∃ k, (course blocks k).left = [] ∧ (course blocks k).state = ⟨liveCounts blocks, []⟩ := by
  obtain ⟨k, pushed, h⟩ := exists_iterate_run blocks (.start blocks) (start blocks).pending
  exact ⟨k, congrArg Moment.left h, congrArg Moment.state h⟩

end Withdrawal

/-! ### What the final counts are -/

theorem edges_concat (blocks : List (Block n)) (b : Block n) :
    edges (blocks ++ [b]) = edges blocks ++ b.terminator.edges blocks.length := by
  simp [edges, List.zipIdx_append]

theorem Terminator.countP_edges (x : Terminator) (source i : Nat) (p : Nat → Bool) :
    (x.edges source).countP (fun e => e.target = i ∧ p e.source) =
      if p source then x.successors.count i else 0 := by
  cases hp : p source with
  | true => cases x <;> simp [edges, successors, List.countP_cons, List.count_cons, hp]
  | false => cases x <;> simp [edges, hp]

/-- Edges into a block, counted one by one. -/
theorem countP_edges (blocks : List (Block n)) (i : Nat) (p : Nat → Bool) :
    (edges blocks).countP (fun e => e.target = i ∧ p e.source) =
      ∑ b ∈ Finset.range blocks.length with p b, (successorsOf blocks b).count i := by
  induction blocks using List.reverseRecOn with
  | nil => rfl
  | append_singleton blocks block ih =>
    have hlast : successorsOf (blocks ++ [block]) blocks.length = block.successors := by
      simp [successorsOf]
    have hfront : ∀ b ∈ Finset.range blocks.length,
        (if p b then (successorsOf (blocks ++ [block]) b).count i else 0) =
          if p b then (successorsOf blocks b).count i else 0 := by
      intro b hb
      rw [successorsOf, List.getElem?_append_left (Finset.mem_range.mp hb), ← successorsOf]
    rw [edges_concat, List.countP_append, ih, Terminator.countP_edges, List.length_append,
      List.length_singleton, Finset.sum_filter, Finset.sum_filter, Finset.sum_range_succ, hlast,
      Finset.sum_congr rfl hfront]
    rfl

/-- The final count of a block other than the entry is the number of edges into it from the entry
and from blocks with a positive count. -/
theorem liveCounts_eq_countP {i : Nat} (hlt : i < blocks.length) (hne : i ≠ 0) :
    (liveCounts blocks).getD i 0 = ((edges blocks).countP fun e =>
      e.target = i ∧ (e.source = 0 ∨ 0 < (liveCounts blocks).getD e.source 0) : Nat) := by
  obtain ⟨gone, hgone, hcounts⟩ := exists_withdrawn blocks
  have hsources : Finset.range blocks.length \ gone = {b ∈ Finset.range blocks.length |
      decide (b = 0 ∨ 0 < (liveCounts blocks).getD b 0) = true} := by
    ext b
    simp only [Finset.mem_sdiff, Finset.mem_filter, Finset.mem_range, hgone, decide_eq_true_eq]
    omega
  have hedges := countP_edges blocks i fun b => decide (b = 0 ∨ 0 < (liveCounts blocks).getD b 0)
  rw [hcounts i hlt, if_neg hne, Nat.zero_add, edgesInto, hsources, ← hedges]
  simp only [decide_eq_true_eq]

/-! ### Which blocks keep a positive count -/

/-- Block `a` has an edge to block `b`. -/
def HasEdge (blocks : List (Block n)) (a b : Nat) : Prop := b ∈ successorsOf blocks a

/-- The block can be reached from the entry, or from a block on a circle. -/
def Fed (blocks : List (Block n)) (b : Nat) : Prop :=
  Relation.ReflTransGen (HasEdge blocks) 0 b ∨
    ∃ c, Relation.TransGen (HasEdge blocks) c c ∧ Relation.ReflTransGen (HasEdge blocks) c b

theorem hasEdge_iff {a b : Nat} :
    HasEdge blocks a b ↔ ∃ block, blocks[a]? = some block ∧ b ∈ block.successors := by
  rw [HasEdge, successorsOf]
  cases blocks[a]? <;> simp

theorem Fed.successor {a b : Nat} (h : Fed blocks a) (hab : HasEdge blocks a b) :
    Fed blocks b := by
  rcases h with h | ⟨c, hc, h⟩
  · exact .inl (h.tail hab)
  · exact .inr ⟨c, hc, h.tail hab⟩

theorem HasEdge.lt_length {a b : Nat} (h : HasEdge blocks a b) : a < blocks.length := by
  obtain ⟨block, ha, -⟩ := hasEdge_iff.mp h
  exact (List.getElem?_eq_some_iff.mp ha).1

/-- No dead block is on a circle: the block in front of it on the circle would be dead as well. -/
theorem Dead.not_transGen {b : Nat} (h : Dead blocks b) :
    ¬Relation.TransGen (HasEdge blocks) b b := by
  induction h with
  | intro _ _ _ ih =>
    intro hcircle
    obtain ⟨c, hbc, hcb⟩ := Relation.TransGen.tail'_iff.mp hcircle
    obtain ⟨block, hc, hmem⟩ := hasEdge_iff.mp hcb
    exact ih hc hmem (Relation.TransGen.head' hcb hbc)

/-- A block that can be reached from one that may run may run. -/
theorem MayRun.of_reflTransGen {a b : Nat} (h : MayRun blocks a)
    (hab : Relation.ReflTransGen (HasEdge blocks) a b) (hlt : b < blocks.length) :
    MayRun blocks b := by
  induction hab with
  | refl => exact h
  | tail _ hbc ih =>
    obtain ⟨block, hb, hmem⟩ := hasEdge_iff.mp hbc
    exact (ih hbc.lt_length).successor hb hmem hlt

/-- Among blocks that are not fed there is no circle, so going back along edges comes to an end. -/
theorem wellFounded_unfed (blocks : List (Block n)) :
    WellFounded fun c d : Fin blocks.length =>
      ¬Fed blocks d ∧ Relation.TransGen (HasEdge blocks) c d := by
  have htrans : IsTrans (Fin blocks.length) fun c d =>
      ¬Fed blocks d ∧ Relation.TransGen (HasEdge blocks) c d :=
    ⟨fun _ _ _ hcd hde => ⟨hde.1, hcd.2.trans hde.2⟩⟩
  have hirrefl : Std.Irrefl fun c d : Fin blocks.length =>
      ¬Fed blocks d ∧ Relation.TransGen (HasEdge blocks) c d :=
    ⟨fun c hc => hc.1 (.inr ⟨c, hc.2, .refl⟩)⟩
  exact Finite.wellFounded_of_trans_of_irrefl _

theorem dead_of_not_fed {b : Nat} (hlt : b < blocks.length) (h : ¬Fed blocks b) :
    Dead blocks b := by
  have hdead : ∀ c : Fin blocks.length, ¬Fed blocks c → Dead blocks c := by
    intro c
    induction c using (wellFounded_unfed blocks).induction with
    | _ c ih =>
      intro hc
      have hne : (c : Nat) ≠ 0 := fun hzero => hc (.inl (hzero ▸ .refl))
      refine .intro c.isLt hne fun {d block} hd hmem => ?_
      have hedge : HasEdge blocks d c := hasEdge_iff.mpr ⟨block, hd, hmem⟩
      have hunfed : ¬Fed blocks d := fun hfed => hc (hfed.successor hedge)
      exact ih ⟨d, hedge.lt_length⟩ ⟨hc, .single hedge⟩ hunfed
  exact hdead ⟨b, hlt⟩ h

/-- The blocks that may run are those that can be reached from the entry or from a circle. -/
theorem mayRun_iff_fed {b : Nat} (hlt : b < blocks.length) : MayRun blocks b ↔ Fed blocks b := by
  constructor
  · intro h
    by_contra hno
    exact (not_mayRun_iff_dead hlt).mpr (dead_of_not_fed hlt hno) h
  · rintro (h | ⟨c, hcircle, h⟩)
    · exact MayRun.of_reflTransGen (.inl rfl) h hlt
    · obtain ⟨_, hedge, -⟩ := Relation.TransGen.head'_iff.mp hcircle
      have hrun : MayRun blocks c := by
        by_contra hno
        exact ((not_mayRun_iff_dead hedge.lt_length).mp hno).not_transGen hcircle
      exact hrun.of_reflTransGen h hlt

theorem liveCounts_eq_zero_iff {i : Nat} (hlt : i < blocks.length) (hne : i ≠ 0) :
    (liveCounts blocks).getD i 0 = 0 ↔ ¬Fed blocks i := by
  have hcount := liveCounts_eq_countP hlt hne
  rw [← mayRun_iff_fed hlt, MayRun, or_iff_right hne]
  omega

/-! ### All of it -/

/-- What withdrawing edges does and comes to. -/
structure ExactCounts (blocks : List (Block n)) : Prop where
  /-- No block is put on the stack twice. -/
  nodup_pushed : ∀ k, (Withdrawal.course blocks k).pushed.Nodup
  nonneg : ∀ k, ∀ c ∈ (Withdrawal.course blocks k).state.counts, 0 ≤ c
  /-- In the end nothing is left to withdraw. -/
  ends : ∃ k, (Withdrawal.course blocks k).left = [] ∧
    (Withdrawal.course blocks k).state = ⟨liveCounts blocks, []⟩
  eq_zero_iff : ∀ {i : Nat}, i < blocks.length → i ≠ 0 →
    ((liveCounts blocks).getD i 0 = 0 ↔ ¬Fed blocks i)
  eq_countP : ∀ {i : Nat}, i < blocks.length → i ≠ 0 →
    (liveCounts blocks).getD i 0 = ((edges blocks).countP fun e =>
      e.target = i ∧ (e.source = 0 ∨ 0 < (liveCounts blocks).getD e.source 0) : Nat)

theorem exactCounts (blocks : List (Block n)) : ExactCounts blocks where
  nodup_pushed k := by
    obtain ⟨gone, h⟩ := Withdrawal.exists_tracks_course blocks k
    exact h.nodup
  nonneg k := by
    obtain ⟨gone, h⟩ := Withdrawal.exists_tracks_course blocks k
    exact h.invariant.nonneg
  ends := Withdrawal.exists_course_ended blocks
  eq_zero_iff := liveCounts_eq_zero_iff
  eq_countP := liveCounts_eq_countP

end FlowFacts
