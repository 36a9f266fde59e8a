import FlowFacts.Proofs.Block.Structure
import FlowFacts.Proofs.Dataflow.Least
import Mathlib.Algebra.BigOperators.Ring.Finset
import Mathlib.Algebra.Order.BigOperators.Group.Finset

/-!
# How many visits a solve takes

In a monotone problem in-states only rise. If they can rise only so often, a solve ends. A visit
takes a block from the queue, and if it raises the in-state of the block it queues the predecessors.
So let every block count for as many visits as its state can still rise, times the number of its
predecessors: a visit that queues predecessors has paid for them.

## Main definitions

* `Progress.potential` — a bound on the visits that are still to come

## Main results

* `Progress.potential_visit_lt` — every visit lowers the bound
* `Problem.Monotone.exists_solve` — a solve that may make enough visits ends
-/

namespace FlowFacts

variable {n : Nat} {blocks : List (Block n)}

theorem length_enqueue_le (queue bs : List Nat) :
    (enqueue queue bs).length ≤ queue.length + bs.length := by
  induction bs generalizing queue with
  | nil => exact Nat.le_refl _
  | cons b bs ih =>
    have hcons : enqueue queue (b :: bs) =
        enqueue (if b ∈ queue then queue else queue ++ [b]) bs := rfl
    have hlen : (if b ∈ queue then queue else queue ++ [b]).length ≤ queue.length + 1 := by
      split <;> simp
    rw [hcons, List.length_cons]
    have := ih (if b ∈ queue then queue else queue ++ [b])
    omega

/-- Every edge makes at most one block a predecessor of another. -/
theorem sum_predecessors_le (blocks : List (Block n)) (targets : Finset Nat) :
    ∑ b ∈ targets, (predecessors blocks b).length ≤ edgeCount blocks := by
  simp only [length_predecessors]
  rw [edgeCount]
  induction blocks with
  | nil => simp
  | cons block blocks ih =>
    have hblock : ∑ b ∈ targets, (if b ∈ block.successors then 1 else 0) ≤
        block.successors.length := by
      rw [← Finset.card_filter]
      calc (targets.filter (· ∈ block.successors)).card ≤ block.successors.toFinset.card :=
            Finset.card_le_card fun b hb => List.mem_toFinset.mpr (Finset.mem_filter.mp hb).2
        _ ≤ block.successors.length := List.toFinset_card_le _
    simp only [List.countP_cons, decide_eq_true_eq, Finset.sum_add_distrib, List.flatMap_cons,
      List.length_append]
    omega

/-! ### Monotone problems -/

section Monotone

variable {α : Type} (rise : α → Nat)

namespace Progress

/-- The blocks in the queue, and for every block its predecessors as often as its state can still
rise. -/
def potential (blocks : List (Block n)) (s : Progress α) : Nat :=
  s.queue.length +
    ∑ b ∈ Finset.range blocks.length,
      s.inputs[b]?.elim 0 rise * (predecessors blocks b).length

/-- Another state of block `b` changes the sum at this block only. -/
theorem sum_rise_set {inputs : List α} {b : Nat} {x : α} (hx : inputs[b]? = some x)
    (hlen : inputs.length = blocks.length) (y : α) :
    ∑ c ∈ Finset.range blocks.length,
        (inputs.set b y)[c]?.elim 0 rise * (predecessors blocks c).length +
      rise x * (predecessors blocks b).length =
    ∑ c ∈ Finset.range blocks.length, inputs[c]?.elim 0 rise * (predecessors blocks c).length +
      rise y * (predecessors blocks b).length := by
  have hlt := (List.getElem?_eq_some_iff.mp hx).1
  have hb : b ∈ Finset.range blocks.length := Finset.mem_range.mpr (hlen ▸ hlt)
  have hrest : ∑ c ∈ (Finset.range blocks.length).erase b,
      (inputs.set b y)[c]?.elim 0 rise * (predecessors blocks c).length =
        ∑ c ∈ (Finset.range blocks.length).erase b,
          inputs[c]?.elim 0 rise * (predecessors blocks c).length :=
    Finset.sum_congr rfl fun c hc => by
      rw [List.getElem?_set_ne (Finset.ne_of_mem_erase hc).symm]
  rw [← Finset.add_sum_erase _ _ hb, ← Finset.add_sum_erase _ _ hb, hrest,
    List.getElem?_set_self hlt, hx]
  simp only [Option.elim_some]
  omega

variable {rise}

theorem potential_start_le (p : Problem n α) :
    (start p blocks).potential rise blocks ≤
      blocks.length + edgeCount blocks * rise p.initial := by
  have hsum : ∑ b ∈ Finset.range blocks.length,
      (List.replicate blocks.length p.initial)[b]?.elim 0 rise * (predecessors blocks b).length =
        rise p.initial * ∑ b ∈ Finset.range blocks.length, (predecessors blocks b).length := by
    rw [Finset.mul_sum]
    refine Finset.sum_congr rfl fun b hb => ?_
    rw [List.getElem?_replicate_of_lt (Finset.mem_range.mp hb)]
    rfl
  rw [potential, start, List.length_reverse, List.length_range, hsum,
    Nat.mul_comm (edgeCount blocks)]
  exact Nat.add_le_add_left (Nat.mul_le_mul_left _ (sum_predecessors_le blocks _)) _

variable [PartialOrder α] [DecidableEq α] {p : Problem n α}

/-- Every visit lowers the potential. -/
theorem potential_visit_lt (hrise : ∀ {x y : α}, x < y → rise y < rise x) {s : Progress α}
    (hlen : s.inputs.length = blocks.length) (h : Ascends p blocks s) (hq : s.queue ≠ []) :
    (s.visit p blocks).potential rise blocks < s.potential rise blocks := by
  obtain ⟨b, rest, hq⟩ := List.exists_cons_of_ne_nil hq
  cases hb : blocks[b]? with
  | none =>
    rw [visit_of_none hq hb, potential, potential, hq, List.length_cons]
    exact Nat.add_lt_add_right (Nat.lt_succ_self _) _
  | some block =>
    obtain ⟨x, hx⟩ : ∃ x, s.inputs[b]? = some x :=
      ⟨_, List.getElem?_eq_getElem (hlen ▸ (List.getElem?_eq_some_iff.mp hb).1)⟩
    have hle := h b block x hb hx
    rw [visit_of_some hq hb, potential, potential, hq, List.length_cons]
    generalize p.transfer b block (p.output s.inputs block.successors) = y at hle ⊢
    have hsum := sum_rise_set rise hx hlen y
    by_cases hxy : x = y
    · subst hxy
      rw [if_pos hx]
      dsimp only
      omega
    · -- the state rises, and each predecessor that is queued is paid for by the block
      have hpaid : rise y * (predecessors blocks b).length + (predecessors blocks b).length ≤
          rise x * (predecessors blocks b).length := by
        rw [← Nat.succ_mul]
        exact Nat.mul_le_mul_right _ (hrise (lt_of_le_of_ne hle hxy))
      have hqueue := length_enqueue_le rest (predecessors blocks b)
      rw [if_neg fun heq => hxy (Option.some.inj (hx.symm.trans heq))]
      dsimp only
      omega

/-- As many visits as the potential says empty the queue. -/
theorem queue_run_eq_nil (hp : p.Monotone blocks) (hrise : ∀ {x y : α}, x < y → rise y < rise x)
    {s : Progress α} (hlen : s.inputs.length = blocks.length) (h : Ascends p blocks s) {k : Nat}
    (hk : s.potential rise blocks ≤ k) : (s.run (fun _ => p) blocks k).queue = [] := by
  induction k generalizing s with
  | zero =>
    have hzero : s.queue.length = 0 := Nat.le_zero.mp (Nat.le_trans (Nat.le_add_right ..) hk)
    exact List.eq_nil_of_length_eq_zero hzero
  | succ k ih =>
    by_cases hq : s.queue = []
    · rw [run_of_nil hq]
      exact hq
    · rw [← run_visit]
      refine ih (h.le_visit.length_eq.symm.trans hlen) (h.visit hp) ?_
      exact Nat.le_of_lt_succ (Nat.lt_of_lt_of_le (potential_visit_lt hrise hlen h hq) hk)

end Progress

variable [PartialOrder α] [DecidableEq α] {p : Problem n α}

/-- A solve of a monotone problem ends if it may make enough visits. -/
theorem Problem.Monotone.exists_solve (hp : p.Monotone blocks)
    (hrise : ∀ {x y : α}, x < y → rise y < rise x) {limit : Nat}
    (hlimit : blocks.length + edgeCount blocks * rise p.initial ≤ limit) :
    ∃ solution, solve p blocks (some limit) = .ok solution := by
  have hq := Progress.queue_run_eq_nil hp hrise List.length_replicate (Progress.ascends_start hp)
    (Nat.le_trans (Progress.potential_start_le p) hlimit)
  exact ⟨_, solve_eq_ok_iff.mpr ⟨_, rfl, hq, rfl⟩⟩

end Monotone

end FlowFacts
