import FlowFacts.Proofs.Dataflow.Related
import Mathlib.Order.Basic

/-!
# Monotone problems ascend to the least solution

Let the states of a problem be ordered, the initial state be the least one, and meet and transfer be
monotone. A visit recomputes one in-state from a mixture of old and new ones. What carries the
argument is that no in-state is above what recomputing it would give: then a visit does not lower
the state that it stores, and because raising one state raises what all others would be recomputed
to, this remains so.

In the same way every state stays below those of any solution, which a recomputation takes to
themselves. For both it does not matter by which test states are compared. If the test is equality,
a solve that ends satisfies the equations, so it ends with the least solution.

## Main definitions

* `Problem.Monotone` — recomputing keeps the order
* `Problem.SolvesLeast` — states that satisfy the equations and are below all others that do
* `Progress.Below` — states that are below those of a solution

## Main results

* `Progress.Ascends.visit` — a visit lowers nothing, and keeps it that way
* `Progress.Below.visit` — a visit stays below every solution
* `Problem.Monotone.le_run_succ` — in-states ascend from visit to visit
* `Problem.Monotone.solve_le` — a solve ends below every solution
* `Problem.Monotone.solvesLeast` — a solve ends with the least solution
-/

namespace FlowFacts

variable {n : Nat} {α : Type} {p : Problem n α} {blocks : List (Block n)}

/-! ### Equations -/

/-- Equations that are spelled out hold block by block. -/
theorem Problem.Solves.solvedAt {inputs outputs : List α} (h : p.Solves blocks inputs outputs)
    {b : Nat} {block : Block n} (hb : blocks[b]? = some block) :
    p.SolvedAt inputs outputs b block := by
  have hout : outputs[b]? = some (p.output inputs block.successors) := by
    cases hsucc : block.successors with
    | nil => exact h.output_of_exit hb hsucc
    | cons s rest =>
      obtain ⟨x, xs, hx, hxs, hout⟩ := h.output_of_successors hb hsucc
      have hstates : (s :: rest).filterMap (inputs[·]?) = x :: xs := by
        have hrest : rest.filterMap (inputs[·]?) = (rest.map (inputs[·]?)).filterMap id := by
          rw [List.filterMap_map]
          rfl
        rw [List.filterMap_cons_some hx, hrest, hxs, List.filterMap_map]
        simp
      rw [hout, Problem.output, hstates]
  exact ⟨hout, h.input hb hout⟩

/-! ### Order -/

section Order

variable [PartialOrder α]

/-- Recomputing keeps the order: the initial state is the least one, and meet and transfer are
monotone. -/
structure Problem.Monotone (p : Problem n α) (blocks : List (Block n)) : Prop where
  initial_le : ∀ x, p.initial ≤ x
  meet_le_meet : ∀ {x x' y y' : α}, x ≤ x' → y ≤ y' → p.meet x y ≤ p.meet x' y'
  transfer_le_transfer : ∀ {b : Nat} {block : Block n} {x y : α}, blocks[b]? = some block → x ≤ y →
    p.transfer b block x ≤ p.transfer b block y

/-- The states satisfy the equations, and are below all others that do. -/
structure Problem.SolvesLeast (p : Problem n α) (blocks : List (Block n))
    (inputs outputs : List α) : Prop where
  solvedAt : ∀ {b : Nat} {block : Block n}, blocks[b]? = some block →
    p.SolvedAt inputs outputs b block
  inputs_le : ∀ {inputs' outputs' : List α}, p.Solves blocks inputs' outputs' →
    List.Forall₂ (· ≤ ·) inputs inputs'
  outputs_le : ∀ {inputs' outputs' : List α}, p.Solves blocks inputs' outputs' →
    List.Forall₂ (· ≤ ·) outputs outputs'

theorem Problem.Monotone.output_le_output (hp : p.Monotone blocks) {inputs inputs' : List α}
    (h : List.Forall₂ (· ≤ ·) inputs inputs') (successors : List Nat) :
    p.output inputs successors ≤ p.output inputs' successors :=
  Problem.output_related le_rfl hp.meet_le_meet h successors

theorem forall₂_le_set {xs : List α} {i : Nat} {y : α} (h : ∀ x, xs[i]? = some x → x ≤ y) :
    List.Forall₂ (· ≤ ·) xs (xs.set i y) := by
  induction xs generalizing i with
  | nil => exact .nil
  | cons x xs ih =>
    cases i with
    | zero => exact .cons (h x rfl) (List.forall₂_refl xs)
    | succ i => exact .cons le_rfl (ih h)

namespace Progress

/-- No in-state is above what recomputing it would give. -/
def Ascends (p : Problem n α) (blocks : List (Block n)) (s : Progress α) : Prop :=
  ∀ b block x, blocks[b]? = some block → s.inputs[b]? = some x →
    x ≤ p.transfer b block (p.output s.inputs block.successors)

theorem ascends_start (hp : p.Monotone blocks) : Ascends p blocks (start p blocks) := by
  intro b block x _ hx
  obtain rfl : x = p.initial := List.eq_of_mem_replicate (List.mem_of_getElem? hx)
  exact hp.initial_le _

/-- All states are below those of a solution. -/
structure Below (inputs outputs : List α) (s : Progress α) : Prop where
  inputs_le : List.Forall₂ (· ≤ ·) s.inputs inputs
  outputs_le : List.Forall₂ (· ≤ ·) s.outputs outputs

theorem below_start (hp : p.Monotone blocks) {inputs outputs : List α}
    (hinputs : inputs.length = blocks.length) (houtputs : outputs.length = blocks.length) :
    Below inputs outputs (start p blocks) := by
  have hle : ∀ {ys : List α}, ys.length = blocks.length →
      List.Forall₂ (· ≤ ·) (List.replicate blocks.length p.initial) ys := by
    intro ys hlen
    refine forall₂_of_getElem? (List.length_replicate.trans hlen.symm) fun {b x y} hx _ => ?_
    obtain rfl : x = p.initial := List.eq_of_mem_replicate (List.mem_of_getElem? hx)
    exact hp.initial_le y
  exact ⟨hle hinputs, hle houtputs⟩

variable [BEq α]

/-- A visit lowers no in-state. -/
theorem Ascends.le_visit {s : Progress α} (h : Ascends p blocks s) :
    List.Forall₂ (· ≤ ·) s.inputs (s.visit p blocks).inputs := by
  rcases s.visit_states p blocks with ⟨hin, -⟩ | ⟨b, block, hb, hin, -⟩
  · rw [hin]
    exact List.forall₂_refl s.inputs
  · rw [hin]
    exact forall₂_le_set fun x hx => h b block x hb hx

/-- Every in-state after a visit is below what it would have been recomputed to before. -/
theorem Ascends.visit_le {s : Progress α} (h : Ascends p blocks s) {c : Nat} {block : Block n}
    {x : α} (hc : blocks[c]? = some block) (hx : (s.visit p blocks).inputs[c]? = some x) :
    x ≤ p.transfer c block (p.output s.inputs block.successors) := by
  rcases s.visit_states p blocks with ⟨hin, -⟩ | ⟨b, block', hb, hin, -⟩
  · exact h c block x hc (hin ▸ hx)
  · rw [hin, List.getElem?_set] at hx
    by_cases hbc : b = c
    · subst hbc
      obtain rfl := Option.some.inj (hb.symm.trans hc)
      obtain ⟨-, rfl⟩ : _ ∧ _ = x := by simpa using hx
      exact le_rfl
    · rw [if_neg hbc] at hx
      exact h c block x hc hx

theorem Ascends.visit (hp : p.Monotone blocks) {s : Progress α} (h : Ascends p blocks s) :
    Ascends p blocks (s.visit p blocks) := by
  intro c block x hc hx
  calc x ≤ p.transfer c block (p.output s.inputs block.successors) := h.visit_le hc hx
    _ ≤ p.transfer c block (p.output (s.visit p blocks).inputs block.successors) :=
      hp.transfer_le_transfer hc (hp.output_le_output h.le_visit _)

/-- A visit keeps all states below those of a solution. -/
theorem Below.visit (hp : p.Monotone blocks) {inputs outputs : List α}
    (hsolved : ∀ {b : Nat} {block : Block n}, blocks[b]? = some block →
      p.SolvedAt inputs outputs b block) {s : Progress α} (h : Below inputs outputs s) :
    Below inputs outputs (s.visit p blocks) := by
  rcases s.visit_states p blocks with ⟨hin, hout⟩ | ⟨b, block, hb, hin, hout⟩
  · exact ⟨hin ▸ h.inputs_le, hout ▸ h.outputs_le⟩
  · -- the solution stores at `b` what recomputing its own states gives
    obtain ⟨⟨_, hout'⟩, ⟨_, hin'⟩⟩ := (hsolved hb).imp List.getElem?_eq_some_iff.mp
      List.getElem?_eq_some_iff.mp
    have hle := hp.output_le_output h.inputs_le block.successors
    have houtputs := forall₂_set h.outputs_le hle b
    have hinputs := forall₂_set h.inputs_le (hp.transfer_le_transfer hb hle) b
    rw [← hout', List.set_getElem_self, ← hout] at houtputs
    rw [← hin', List.set_getElem_self, ← hin] at hinputs
    exact ⟨hinputs, houtputs⟩

end Progress

section Solves

variable [BEq α]

/-- In-states ascend from visit to visit. -/
theorem Problem.Monotone.le_run_succ (hp : p.Monotone blocks) (k : Nat) :
    List.Forall₂ (· ≤ ·) ((Progress.start p blocks).run (fun _ => p) blocks k).inputs
      ((Progress.start p blocks).run (fun _ => p) blocks (k + 1)).inputs := by
  rw [Progress.run_succ]
  refine Progress.Ascends.le_visit (Progress.run_induction (fun s hs => ?_) k ?_)
  · exact hs.visit hp
  · exact Progress.ascends_start hp

/-- A solve that ends is below every solution. -/
theorem Problem.Monotone.solve_le (hp : p.Monotone blocks) {limit : Option Nat}
    {solution : Solution α} (h : solve p blocks limit = .ok solution) {inputs outputs : List α}
    (hinputs : inputs.length = blocks.length) (houtputs : outputs.length = blocks.length)
    (hsolved : ∀ {b : Nat} {block : Block n}, blocks[b]? = some block →
      p.SolvedAt inputs outputs b block) :
    List.Forall₂ (· ≤ ·) solution.inputs inputs ∧
      List.Forall₂ (· ≤ ·) solution.outputs outputs := by
  obtain ⟨hin, hout⟩ := solve_induction h (Progress.below_start hp hinputs houtputs)
    fun _ hs => hs.visit hp hsolved
  exact ⟨hin, hout⟩

end Solves

/-- A solve of a monotone problem ends with the least solution. -/
theorem Problem.Monotone.solvesLeast [DecidableEq α] (hp : p.Monotone blocks) {limit : Option Nat}
    {solution : Solution α} (h : solve p blocks limit = .ok solution) :
    p.SolvesLeast blocks solution.inputs solution.outputs where
  solvedAt := (solves_of_solve h).2.2
  inputs_le hs := (hp.solve_le h hs.length_inputs hs.length_outputs hs.solvedAt).1
  outputs_le hs := (hp.solve_le h hs.length_inputs hs.length_outputs hs.solvedAt).2

end Order

end FlowFacts
