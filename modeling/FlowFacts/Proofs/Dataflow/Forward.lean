import FlowFacts.Proofs.Dataflow.Solution
import Mathlib.Data.List.Basic

/-!
# Blocks without a way back are solved in one pass

If every edge leads further down the list of blocks, the in-state of a block depends on those of
later blocks only, and is found by recursion from the end.

The solver starts at the end. When it comes to a block, the successors have their final states. Its
predecessors have not been visited, so they are still in the queue, and none of them is queued again
whether the in-state has changed or not. So there is one visit for each block, and neither the
initial state nor the test by which states are compared has any influence.

## Main definitions

* `Forward` — every edge leads further down
* `Problem.inputAt` — the in-state of a block, by recursion

## Main results

* `Problem.recurs_inputAt` — the equation of the recursion
* `Progress.Swept.visit`, `Progress.swept_run` — one visit, and any number of them
* `Problem.solve_forward` — a solve makes one pass and finds the states of the recursion
-/

namespace FlowFacts

variable {n : Nat} {α : Type} {p : Problem n α} {blocks : List (Block n)} {f : Nat → α}

/-- Every edge leads to a block further down the list. -/
def Forward (blocks : List (Block n)) : Prop :=
  ∀ b < blocks.length, ∀ s ∈ successorsOf blocks b, b < s ∧ s < blocks.length

instance (blocks : List (Block n)) : Decidable (Forward blocks) :=
  inferInstanceAs (Decidable
    (∀ b < blocks.length, ∀ s ∈ successorsOf blocks b, b < s ∧ s < blocks.length))

theorem Forward.lt (h : Forward blocks) {b s : Nat} {block : Block n}
    (hb : blocks[b]? = some block) (hs : s ∈ block.successors) : b < s ∧ s < blocks.length := by
  refine h b (List.getElem?_eq_some_iff.mp hb).1 s ?_
  simpa [successorsOf, hb] using hs

/-- The predecessors of a block stand in front of it. -/
theorem Forward.lt_of_mem_predecessors (h : Forward blocks) {b c : Nat}
    (hc : c ∈ predecessors blocks b) : c < b := by
  obtain ⟨block, hblock, hb⟩ := mem_predecessors.mp hc
  exact (h.lt hblock hb).1

theorem enqueue_of_subset {queue bs : List Nat} (h : ∀ b ∈ bs, b ∈ queue) :
    enqueue queue bs = queue := by
  induction bs with
  | nil => rfl
  | cons b bs ih =>
    have hcons : enqueue queue (b :: bs) =
        enqueue (if b ∈ queue then queue else queue ++ [b]) bs := rfl
    rw [hcons, if_pos (h b List.mem_cons_self), ih fun c hc => h c (List.mem_cons_of_mem _ hc)]

/-! ### The recursion -/

namespace Problem

/-- The meet of some states from left to right, or the boundary value if there are none. -/
def meetAll (p : Problem n α) : List α → α
  | [] => p.boundary
  | x :: xs => xs.foldl p.meet x

/-- The in-state of a block by recursion over the blocks further down. Edges that lead back do not
count. -/
def inputAt (p : Problem n α) (blocks : List (Block n)) (b : Nat) : α :=
  if hb : b < blocks.length then
    p.transfer b blocks[b]
      (p.meetAll ((blocks[b].successors.filter (b < ·)).attach.map fun s => p.inputAt blocks s.1))
  else p.boundary
termination_by blocks.length - b
decreasing_by
  have hlt : b < s.1 := of_decide_eq_true (List.mem_filter.mp s.2).2
  omega

/-- The states are those that each block computes from the ones of its successors. -/
def Recurs (p : Problem n α) (blocks : List (Block n)) (f : Nat → α) : Prop :=
  ∀ (b : Nat) (block : Block n), blocks[b]? = some block →
    f b = p.transfer b block (p.meetAll (block.successors.map f))

theorem recurs_inputAt (p : Problem n α) (h : Forward blocks) :
    p.Recurs blocks (p.inputAt blocks) := by
  intro b block hb
  have hall : block.successors.filter (b < ·) = block.successors :=
    List.filter_eq_self.mpr fun s hs => decide_eq_true (h.lt hb hs).1
  have hattach : ∀ ss : List Nat,
      (ss.attach.map fun s => p.inputAt blocks s.1) = ss.map (p.inputAt blocks) := by
    simp
  obtain ⟨hlt, rfl⟩ := List.getElem?_eq_some_iff.mp hb
  rw [inputAt, dif_pos hlt, hattach, hall]

/-- The out-state of a block whose successors have the states `f`. -/
theorem output_eq_meetAll {inputs : List α} {successors : List Nat}
    (h : ∀ s ∈ successors, inputs[s]? = some (f s)) :
    p.output inputs successors = p.meetAll (successors.map f) := by
  have hstates : successors.filterMap (inputs[·]?) = successors.map f := by
    rw [← List.filterMap_eq_map]
    exact List.filterMap_congr h
  rw [output, hstates]
  rfl

end Problem

/-! ### One pass -/

namespace Progress

/-- The blocks from number `m` on have been visited, the last one first, and have the states `f` and
the out-states that follow. The blocks in front of `m` are in the queue. -/
structure Swept (p : Problem n α) (blocks : List (Block n)) (f : Nat → α) (m : Nat)
    (s : Progress α) : Prop where
  length_inputs : s.inputs.length = blocks.length
  length_outputs : s.outputs.length = blocks.length
  input : ∀ {b : Nat}, m ≤ b → b < blocks.length → s.inputs[b]? = some (f b)
  output : ∀ {b : Nat} {block : Block n}, m ≤ b → blocks[b]? = some block →
    s.outputs[b]? = some (p.meetAll (block.successors.map f))
  queue_eq : s.queue = (List.range m).reverse
  trail_append : s.trail.toList ++ (List.range m).reverse = (List.range blocks.length).reverse

theorem swept_start (p : Problem n α) (blocks : List (Block n)) (f : Nat → α) :
    Swept p blocks f blocks.length (start p blocks) where
  length_inputs := List.length_replicate
  length_outputs := List.length_replicate
  input hle hlt := absurd hlt (Nat.not_lt.mpr hle)
  output hle hb := absurd (List.getElem?_eq_some_iff.mp hb).1 (Nat.not_lt.mpr hle)
  queue_eq := rfl
  trail_append := rfl

/-- When all blocks have been visited, their states are those of the recursion. -/
theorem Swept.solution_eq {s : Progress α} (h : Swept p blocks f 0 s) :
    (⟨s.inputs, s.outputs, s.trail⟩ : Solution α) =
      { inputs := (List.range blocks.length).map f
        outputs := blocks.map fun block => p.meetAll (block.successors.map f)
        trail := (List.range blocks.length).reverse.toArray } := by
  have hinputs : s.inputs = (List.range blocks.length).map f := by
    refine List.ext_getElem (by simp [h.length_inputs]) fun b hb hb' => ?_
    have hinput := h.input (Nat.zero_le b) (h.length_inputs ▸ hb)
    simpa [List.getElem?_eq_getElem hb] using hinput
  have houtputs : s.outputs = blocks.map fun block => p.meetAll (block.successors.map f) := by
    refine List.ext_getElem (by simp [h.length_outputs]) fun b hb hb' => ?_
    have hblock := List.getElem?_eq_getElem (h.length_outputs ▸ hb)
    simpa [List.getElem?_eq_getElem hb] using h.output (Nat.zero_le b) hblock
  have htrail : s.trail = (List.range blocks.length).reverse.toArray := by
    rw [← h.trail_append]
    simp
  rw [hinputs, houtputs, htrail]

variable [BEq α]

/-- A visit takes the last block of the queue to its final states, and queues nothing. -/
theorem Swept.visit (hf : p.Recurs blocks f) (hforward : Forward blocks) {m : Nat}
    (hm : m < blocks.length) {s : Progress α} (h : Swept p blocks f (m + 1) s) :
    Swept p blocks f m (s.visit p blocks) := by
  have hqueue : s.queue = m :: (List.range m).reverse := by
    rw [h.queue_eq, List.range_succ, List.reverse_concat]
  have hb := List.getElem?_eq_getElem hm
  have hout : p.output s.inputs blocks[m].successors =
      p.meetAll (blocks[m].successors.map f) := by
    refine Problem.output_eq_meetAll fun t ht => ?_
    obtain ⟨hlater, hlt⟩ := hforward.lt hb ht
    exact h.input hlater hlt
  have hrest : enqueue (List.range m).reverse (predecessors blocks m) = (List.range m).reverse :=
    enqueue_of_subset fun c hc =>
      List.mem_reverse.mpr (List.mem_range.mpr (hforward.lt_of_mem_predecessors hc))
  rw [visit_of_block hqueue hb, hout, ← hf m _ hb, hrest, ite_self]
  constructor
  · exact (List.length_set ..).trans h.length_inputs
  · exact (List.length_set ..).trans h.length_outputs
  · intro b hle hlt
    rcases Nat.eq_or_lt_of_le hle with rfl | hlater
    · exact List.getElem?_set_self (h.length_inputs ▸ hlt)
    · rw [List.getElem?_set_ne (Nat.ne_of_lt hlater)]
      exact h.input hlater hlt
  · intro b block hle hblock
    rcases Nat.eq_or_lt_of_le hle with rfl | hlater
    · obtain rfl := Option.some.inj (hb.symm.trans hblock)
      exact List.getElem?_set_self (h.length_outputs ▸ hm)
    · rw [List.getElem?_set_ne (Nat.ne_of_lt hlater)]
      exact h.output hlater hblock
  · rfl
  · rw [← h.trail_append, Array.toList_push, List.range_succ, List.reverse_concat]
    exact List.append_assoc ..

theorem swept_run (hf : p.Recurs blocks f) (hforward : Forward blocks) {k : Nat}
    (hk : k ≤ blocks.length) :
    Swept p blocks f (blocks.length - k) ((start p blocks).run (fun _ => p) blocks k) := by
  induction k with
  | zero => exact swept_start p blocks f
  | succ k ih =>
    have hsub : blocks.length - (k + 1) + 1 = blocks.length - k := by omega
    rw [run_succ]
    exact Swept.visit hf hforward (by omega) (hsub ▸ ih (Nat.le_of_succ_le hk))

end Progress

variable [BEq α]

/-- Any states that satisfy the recursion are what a solve finds in one pass. -/
theorem Problem.Recurs.solve_eq (hf : p.Recurs blocks f) (hforward : Forward blocks)
    {limit : Option Nat} (hlimit : blocks.length ≤ limit.getD maxVisits) :
    solve p blocks limit = .ok
      { inputs := (List.range blocks.length).map f
        outputs := blocks.map fun block => p.meetAll (block.successors.map f)
        trail := (List.range blocks.length).reverse.toArray } := by
  have hswept := Progress.swept_run hf hforward (Nat.le_refl blocks.length)
  rw [Nat.sub_self] at hswept
  have hrun := Progress.run_of_le hswept.queue_eq hlimit
  show solve p blocks (some (limit.getD maxVisits)) = _
  exact solve_eq_ok_iff.mpr ⟨_, hrun, hswept.queue_eq, hswept.solution_eq⟩

/-- **Blocks without a way back are solved in one pass.** Let every edge lead further down, and let
the limit, or a 64-bit counter if there is none, have room for one visit of each block. Then a solve
ends after visiting each block once, the last one first. Its in-states are found by recursion from
the end, and with any other initial state the solve is the same. -/
theorem Problem.solve_forward (p : Problem n α) (hforward : Forward blocks) (limit : Option Nat)
    (hlimit : blocks.length ≤ limit.getD maxVisits) :
    ∃ solution, solve p blocks limit = .ok solution ∧
      solution.trail.toList = (List.range blocks.length).reverse ∧
      solution.visits = blocks.length ∧
      solution.inputs = (List.range blocks.length).map (p.inputAt blocks) ∧
      (solution.outputs = blocks.map fun block =>
        p.meetAll (block.successors.map (p.inputAt blocks))) ∧
      (∀ (b : Nat) (block : Block n), blocks[b]? = some block →
        p.inputAt blocks b =
          p.transfer b block (p.meetAll (block.successors.map (p.inputAt blocks)))) ∧
      ∀ x, solve { p with initial := x } blocks limit = .ok solution := by
  have hf := p.recurs_inputAt hforward
  refine ⟨_, hf.solve_eq hforward hlimit, rfl, ?_, rfl, rfl, hf, fun x => ?_⟩
  · simp [Solution.visits]
  · -- the recursion does not speak of the initial state
    have hother : Recurs { p with initial := x } blocks (p.inputAt blocks) := hf
    exact hother.solve_eq hforward hlimit

/-- A number that is compared by its parity, so that some changes go unnoticed. -/
structure Parity where
  value : Nat

instance : BEq Parity := ⟨fun x y => x.value % 2 == y.value % 2⟩

/-- A problem whose states are compared by an unlawful test. -/
def Problem.parity : Problem 0 Parity where
  boundary := ⟨1⟩
  initial := ⟨0⟩
  meet x y := ⟨2 * x.value + y.value⟩
  transfer b _ out := ⟨out.value + b⟩

/-- Two ways from the first block to the last. -/
def Block.diamond : List (Block 0) := [
  .blank 0 0 [] (.branch .zero ⟨0⟩ 1 2),
  .blank 0 1 [] (.jump 3),
  .blank 0 2 [] (.jump 3),
  .blank 0 3 [] (.ret none)]

theorem Problem.solve_forward_diamond :
    ∃ solution, Forward Block.diamond ∧ Block.diamond.length ≤ maxVisits ∧
      solve Problem.parity Block.diamond none = .ok solution ∧
      solution.trail.toList = [3, 2, 1, 0] ∧
      solve { Problem.parity with initial := ⟨1⟩ } Block.diamond none = .ok solution := by
  have hforward : Forward Block.diamond := by decide
  have hlimit : Block.diamond.length ≤ maxVisits := by decide
  obtain ⟨solution, hsolve, htrail, -, -, -, -, hother⟩ :=
    Problem.parity.solve_forward hforward none hlimit
  exact ⟨solution, hforward, hlimit, hsolve, htrail, hother ⟨1⟩⟩

end FlowFacts
