import FlowFacts.Block.Basic

/-!
# Withdrawing the edges of blocks that cannot run

Every block has a count of the edges into it, and the entry one more. A block other than the entry
whose count is zero cannot run, so its edges do not count: they are withdrawn, which may bring
further counts to zero. Blocks on a circle keep each other's counts up.

The blocks whose edges are still to be withdrawn are a stack. Each step takes one from it and puts
one on it for each count that drops to zero, so the number of positive counts and the height of the
stack together go down at every step (`Withdrawal.size_step`).
-/

namespace FlowFacts

variable {n : Nat}

/-- The number of edges into each block, one more for the entry. -/
def entryCounts (blocks : List (Block n)) : List Nat :=
  let targets := blocks.flatMap Block.successors
  (List.range blocks.length).map fun i => (if i = 0 then 1 else 0) + targets.count i

/-- Counts with the blocks whose edges are still to be withdrawn. -/
structure Withdrawal where
  counts : List Int
  pending : List Nat

namespace Withdrawal

/-- All edges count, and the blocks without any are pending, the last one first. -/
def start (blocks : List (Block n)) : Withdrawal :=
  let counts := (entryCounts blocks).map Int.ofNat
  { counts
    pending := ((List.range blocks.length).filter fun i => i ≠ 0 ∧ counts.getD i 0 ≤ 0).reverse }

/-- Withdraws an edge to block `s`. -/
def release (w : Withdrawal) (s : Nat) : Withdrawal :=
  match w.counts[s]? with
  | none => w
  | some c =>
    { counts := w.counts.set s (c - 1)
      pending := if c - 1 = 0 ∧ s ≠ 0 then s :: w.pending else w.pending }

/-- Withdraws the edges of the next pending block. -/
def step (blocks : List (Block n)) (w : Withdrawal) : Withdrawal :=
  match w.pending with
  | [] => w
  | b :: rest => (successorsOf blocks b).foldl release { w with pending := rest }

/-- The number of positive counts and of pending blocks. -/
def size (w : Withdrawal) : Nat := w.counts.countP (0 < ·) + w.pending.length

theorem size_release (w : Withdrawal) (s : Nat) : (w.release s).size ≤ w.size := by
  unfold release
  split
  · exact Nat.le_refl _
  · rename_i c hc
    obtain ⟨hlt, hget⟩ := List.getElem?_eq_some_iff.mp hc
    simp only [size, List.countP_set hlt, hget]
    by_cases hpos : 0 < c
    · have hcount : 0 < w.counts.countP (0 < ·) :=
        List.countP_pos_iff.mpr ⟨c, hget ▸ List.getElem_mem hlt, by simpa using hpos⟩
      by_cases hone : c = 1
      · subst hone
        by_cases hs : s = 0
        · simp [hs]
        · simp [hs]
          omega
      · have h1 : 0 < c - 1 := by omega
        have h2 : c - 1 ≠ 0 := by omega
        simp only [hpos, h1, h2, decide_true, if_true, false_and, if_false]
        omega
    · have h1 : ¬1 < c := by omega
      have h2 : c - 1 ≠ 0 := by omega
      simp [hpos, h1, h2]

theorem size_foldl_release (w : Withdrawal) (ss : List Nat) :
    (ss.foldl release w).size ≤ w.size := by
  induction ss generalizing w with
  | nil => exact Nat.le_refl _
  | cons s ss ih => exact Nat.le_trans (ih (w.release s)) (size_release w s)

theorem size_step (blocks : List (Block n)) {w : Withdrawal} (h : w.pending ≠ []) :
    (w.step blocks).size < w.size := by
  cases hp : w.pending with
  | nil => exact absurd hp h
  | cons b rest =>
    have := size_foldl_release { w with pending := rest } (successorsOf blocks b)
    simp only [step, size, hp, List.length_cons] at this ⊢
    omega

/-- Withdraws edges until no block is pending. -/
def run (blocks : List (Block n)) (w : Withdrawal) : List Int :=
  if w.pending = [] then w.counts else run blocks (w.step blocks)
termination_by w.size
decreasing_by exact size_step blocks ‹_›

end Withdrawal

/-- The number of edges into each block from blocks that may run, one more for the entry. -/
def liveCounts (blocks : List (Block n)) : List Int :=
  (Withdrawal.start blocks).run blocks

end FlowFacts
