import FlowFacts.Dataflow.Solver
import FlowFacts.Proofs.Attempts
import Mathlib.Data.List.Basic

/-!
# What a finished solve has found

The solver keeps one invariant: a block that is not in the queue has states that satisfy its
equations. A visit makes the equations of its block true, and those of other blocks can only become
false through an in-state that changes, of which the predecessors are told. A block may be its own
predecessor; its visit then queues it again. When the queue is empty every equation holds.

No law is asked of the problem for this. What else holds of the states is what the initial state has
and every recomputation keeps (`solve_inputs`).

## Main results

* `Progress.visit_states` — a visit recomputes the states of at most one block
* `Progress.Invariant.visit` — a visit keeps the invariant
* `solve_induction` — what visits keep holds where a solve ends
* `solves_of_solve` — the states of a finished solve satisfy the equations
* `solve_inputs` — properties that recomputing keeps hold of them
* `Problem.solve_sound` — the equations spelled out, where all targets exist
-/

namespace FlowFacts

variable {n : Nat} {α : Type} {p : Problem n α} {blocks : List (Block n)}

/-- The states of block `b` satisfy its equations. -/
def Problem.SolvedAt (p : Problem n α) (inputs outputs : List α) (b : Nat) (block : Block n) :
    Prop :=
  outputs[b]? = some (p.output inputs block.successors) ∧
    inputs[b]? = some (p.transfer b block (p.output inputs block.successors))

/-- The states of all blocks satisfy the equations, spelled out. -/
structure Problem.Solves (p : Problem n α) (blocks : List (Block n)) (inputs outputs : List α) :
    Prop where
  length_inputs : inputs.length = blocks.length
  length_outputs : outputs.length = blocks.length
  output_of_exit : ∀ {b : Nat} {block : Block n}, blocks[b]? = some block →
    block.successors = [] → outputs[b]? = some p.boundary
  /-- The in-states of all successors are met from left to right. -/
  output_of_successors : ∀ {b s : Nat} {rest : List Nat} {block : Block n},
    blocks[b]? = some block → block.successors = s :: rest →
      ∃ (x : α) (xs : List α), inputs[s]? = some x ∧ rest.map (inputs[·]?) = xs.map some ∧
        outputs[b]? = some (xs.foldl p.meet x)
  input : ∀ {b : Nat} {block : Block n} {out : α}, blocks[b]? = some block →
    outputs[b]? = some out → inputs[b]? = some (p.transfer b block out)

theorem mem_predecessors {b c : Nat} :
    c ∈ predecessors blocks b ↔ ∃ block, blocks[c]? = some block ∧ b ∈ block.successors := by
  simp only [predecessors, List.mem_map, List.mem_filter, decide_eq_true_eq, Prod.exists,
    List.mem_zipIdx_iff_getElem?]
  constructor
  · rintro ⟨block, c', ⟨hc, hb⟩, rfl⟩
    exact ⟨block, hc, hb⟩
  · rintro ⟨block, hc, hb⟩
    exact ⟨block, c, ⟨hc, hb⟩, rfl⟩

theorem mem_enqueue {queue bs : List Nat} {c : Nat} :
    c ∈ enqueue queue bs ↔ c ∈ queue ∨ c ∈ bs := by
  induction bs generalizing queue with
  | nil => simp [enqueue]
  | cons b bs ih =>
    have hcons : enqueue queue (b :: bs) =
        enqueue (if b ∈ queue then queue else queue ++ [b]) bs := rfl
    rw [hcons, ih, List.mem_cons]
    split
    · next hb =>
      refine ⟨Or.imp_right .inr, ?_⟩
      rintro (h | rfl | h)
      · exact .inl h
      · exact .inl hb
      · exact .inr h
    · rw [List.mem_append, List.mem_singleton, or_assoc]

/-- The out-state of a block does not depend on the in-states of blocks that it has no edge to. -/
theorem Problem.output_set {inputs : List α} {successors : List Nat} {b : Nat}
    (hb : b ∉ successors) (x : α) :
    p.output (inputs.set b x) successors = p.output inputs successors := by
  have hget : successors.filterMap ((inputs.set b x)[·]?) = successors.filterMap (inputs[·]?) := by
    refine List.filterMap_congr fun s hs => List.getElem?_set_ne ?_
    rintro rfl
    exact hb hs
  rw [Problem.output, Problem.output, hget]

/-- Successors that exist have an in-state each. -/
theorem map_eq_map_some_filterMap {inputs : List α} {successors : List Nat}
    (h : ∀ s ∈ successors, s < inputs.length) :
    successors.map (inputs[·]?) = (successors.filterMap (inputs[·]?)).map some := by
  induction successors with
  | nil => rfl
  | cons s successors ih =>
    obtain ⟨x, hx⟩ : ∃ x, inputs[s]? = some x :=
      ⟨_, List.getElem?_eq_getElem (h s List.mem_cons_self)⟩
    rw [List.map_cons, List.filterMap_cons_some hx, List.map_cons, hx,
      ih fun s hs => h s (List.mem_cons_of_mem _ hs)]

namespace Progress

/-- There is a state for every block, and the states of a block that is not in the queue satisfy
its equations. -/
structure Invariant (p : Problem n α) (blocks : List (Block n)) (s : Progress α) : Prop where
  length_inputs : s.inputs.length = blocks.length
  length_outputs : s.outputs.length = blocks.length
  solved : ∀ {b : Nat} {block : Block n}, blocks[b]? = some block → b ∉ s.queue →
    p.SolvedAt s.inputs s.outputs b block

theorem invariant_start (p : Problem n α) (blocks : List (Block n)) :
    Invariant p blocks (start p blocks) where
  length_inputs := List.length_replicate
  length_outputs := List.length_replicate
  solved hb hq := by
    have hlt := (List.getElem?_eq_some_iff.mp hb).1
    exact absurd (by simpa [start] using hlt) hq

section Visits

variable [BEq α]

theorem visit_of_nil {s : Progress α} (hq : s.queue = []) : s.visit p blocks = s := by
  simp only [visit, hq]

theorem visit_of_none {s : Progress α} {b : Nat} {rest : List Nat} (hq : s.queue = b :: rest)
    (hb : blocks[b]? = none) : s.visit p blocks = { s with queue := rest } := by
  simp only [visit, hq, hb]

/-- What a visit does, where the test by which states are compared obeys no law. -/
theorem visit_of_block {s : Progress α} {b : Nat} {rest : List Nat} {block : Block n}
    (hq : s.queue = b :: rest) (hb : blocks[b]? = some block) :
    s.visit p blocks =
      { inputs := s.inputs.set b (p.transfer b block (p.output s.inputs block.successors))
        outputs := s.outputs.set b (p.output s.inputs block.successors)
        queue :=
          if s.inputs[b]?.any (p.transfer b block (p.output s.inputs block.successors) == ·) then
            rest
          else enqueue rest (predecessors blocks b)
        trail := s.trail.push b } := by
  simp only [visit, hq, hb]

/-- What a visit does to states: it recomputes those of one block, or leaves all of them alone. -/
theorem visit_states (s : Progress α) (p : Problem n α) (blocks : List (Block n)) :
    ((s.visit p blocks).inputs = s.inputs ∧ (s.visit p blocks).outputs = s.outputs) ∨
      ∃ b block, blocks[b]? = some block ∧
        (s.visit p blocks).inputs =
          s.inputs.set b (p.transfer b block (p.output s.inputs block.successors)) ∧
        (s.visit p blocks).outputs = s.outputs.set b (p.output s.inputs block.successors) := by
  cases hq : s.queue with
  | nil =>
    rw [visit_of_nil hq]
    exact .inl ⟨rfl, rfl⟩
  | cons b rest =>
    cases hb : blocks[b]? with
    | none =>
      rw [visit_of_none hq hb]
      exact .inl ⟨rfl, rfl⟩
    | some block =>
      rw [visit_of_block hq hb]
      exact .inr ⟨b, block, hb, rfl, rfl⟩

theorem run_of_nil {s : Progress α} (hq : s.queue = []) (k : Nat) :
    s.run (fun _ => p) blocks k = s := by
  cases k with
  | zero => rfl
  | succ k => rw [run, if_pos hq]

theorem run_visit (s : Progress α) (k : Nat) :
    (s.visit p blocks).run (fun _ => p) blocks k = s.run (fun _ => p) blocks (k + 1) := by
  by_cases hq : s.queue = []
  · rw [visit_of_nil hq, run_of_nil hq, run_of_nil hq]
  · rw [run, if_neg hq]

/-- One visit more can be made at the end instead of at the beginning. -/
theorem run_succ (s : Progress α) (k : Nat) :
    s.run (fun _ => p) blocks (k + 1) = (s.run (fun _ => p) blocks k).visit p blocks := by
  induction k generalizing s with
  | zero => exact (run_visit s 0).symm
  | succ k ih => rw [← run_visit, ih, run_visit]

theorem run_add (s : Progress α) (j k : Nat) :
    s.run (fun _ => p) blocks (j + k) =
      (s.run (fun _ => p) blocks j).run (fun _ => p) blocks k := by
  induction k with
  | zero => rfl
  | succ k ih => rw [← Nat.add_assoc, run_succ, ih, run_succ]

/-- A solve that has ended stays as it is, however many visits it may still make. -/
theorem run_of_le {s : Progress α} {j k : Nat} (h : (s.run (fun _ => p) blocks j).queue = [])
    (hjk : j ≤ k) : s.run (fun _ => p) blocks k = s.run (fun _ => p) blocks j := by
  obtain ⟨d, rfl⟩ := Nat.exists_eq_add_of_le hjk
  rw [run_add, run_of_nil h]

/-- What every visit keeps is kept by any number of them. -/
theorem run_induction {P : Progress α → Prop} (hvisit : ∀ s, P s → P (s.visit p blocks)) (k : Nat)
    {s : Progress α} (hs : P s) : P (s.run (fun _ => p) blocks k) := by
  induction k generalizing s with
  | zero => exact hs
  | succ k ih =>
    rw [run]
    split
    · exact hs
    · exact ih (hvisit s hs)

end Visits

variable [DecidableEq α]

theorem visit_of_some {s : Progress α} {b : Nat} {rest : List Nat} {block : Block n}
    (hq : s.queue = b :: rest) (hb : blocks[b]? = some block) :
    s.visit p blocks =
      { inputs := s.inputs.set b (p.transfer b block (p.output s.inputs block.successors))
        outputs := s.outputs.set b (p.output s.inputs block.successors)
        queue :=
          if s.inputs[b]? = some (p.transfer b block (p.output s.inputs block.successors)) then rest
          else enqueue rest (predecessors blocks b)
        trail := s.trail.push b } := by
  have hsame : ∀ (old : Option α) (new : α), old.any (new == ·) = true ↔ old = some new := by
    rintro (_ | x) new
    · simp
    · rw [Option.any_some, beq_iff_eq, Option.some_inj, eq_comm]
  simp only [visit_of_block hq hb, hsame]

/-- A visit keeps the invariant. -/
theorem Invariant.visit {s : Progress α} (h : Invariant p blocks s) :
    Invariant p blocks (s.visit p blocks) := by
  cases hq : s.queue with
  | nil => simpa only [Progress.visit, hq] using h
  | cons b rest =>
    cases hb : blocks[b]? with
    | none =>
      rw [visit_of_none hq hb]
      refine ⟨h.length_inputs, h.length_outputs, fun {c block} hc hcq => h.solved hc ?_⟩
      rw [hq, List.mem_cons]
      rintro (rfl | hcr)
      · rw [hb] at hc
        cases hc
      · exact hcq hcr
    | some block =>
      rw [visit_of_some hq hb]
      have hlt := (List.getElem?_eq_some_iff.mp hb).1
      refine ⟨(List.length_set ..).trans h.length_inputs,
        (List.length_set ..).trans h.length_outputs, fun {c cblock} hc hcq => ?_⟩
      -- the in-states that the equations of `c` speak about are those of before the visit
      have hout : p.output (s.inputs.set b (p.transfer b block
          (p.output s.inputs block.successors))) cblock.successors =
            p.output s.inputs cblock.successors := by
        split at hcq
        · next hsame =>
          obtain ⟨hi, hsame⟩ := List.getElem?_eq_some_iff.mp hsame
          rw [← hsame, List.set_getElem_self hi]
        · refine Problem.output_set (fun hedge => hcq ?_) _
          exact mem_enqueue.mpr (.inr (mem_predecessors.mpr ⟨cblock, hc, hedge⟩))
      have hcr : c ∉ rest := by
        split at hcq
        · exact hcq
        · exact fun hmem => hcq (mem_enqueue.mpr (.inl hmem))
      unfold Problem.SolvedAt
      rw [hout]
      by_cases hcb : c = b
      · subst hcb
        obtain rfl : block = cblock := Option.some.inj (hb.symm.trans hc)
        exact ⟨List.getElem?_set_self (h.length_outputs ▸ hlt),
          List.getElem?_set_self (h.length_inputs ▸ hlt)⟩
      · rw [List.getElem?_set_ne (Ne.symm hcb), List.getElem?_set_ne (Ne.symm hcb)]
        exact h.solved hc (by simp [hq, hcb, hcr])

end Progress

section Solves

variable [BEq α]

/-- What every visit keeps holds where a solve ends, and there the queue is empty. -/
theorem solve_induction {limit : Option Nat} {solution : Solution α}
    (h : solve p blocks limit = .ok solution) {P : Progress α → Prop}
    (hstart : P (.start p blocks)) (hvisit : ∀ s, P s → P (s.visit p blocks)) :
    P ⟨solution.inputs, solution.outputs, [], solution.trail⟩ := by
  have hrun := Progress.run_induction hvisit (limit.getD maxVisits) hstart
  unfold solve solveNumbered at h
  simp only at h
  split at h
  · next hq =>
    cases h
    rw [← hq]
    exact hrun
  · cases h

/-- A solve ends if its queue is empty after the visits that it may make. -/
theorem solve_eq_ok_iff {limit : Nat} {solution : Solution α} :
    solve p blocks (some limit) = .ok solution ↔
      ∃ s, (Progress.start p blocks).run (fun _ => p) blocks limit = s ∧ s.queue = [] ∧
        ⟨s.inputs, s.outputs, s.trail⟩ = solution := by
  unfold solve solveNumbered
  simp only [Option.getD_some]
  split
  · next hq => simp [hq]
  · next hq => simp [hq]

/-- A solve that ends within a limit ends within every larger one. -/
theorem solve_of_le {limit limit' : Nat} {solution : Solution α}
    (h : solve p blocks (some limit) = .ok solution) (hle : limit ≤ limit') :
    solve p blocks (some limit') = .ok solution := by
  obtain ⟨s, rfl, hq, hsolution⟩ := solve_eq_ok_iff.mp h
  exact solve_eq_ok_iff.mpr ⟨_, Progress.run_of_le hq hle, hq, hsolution⟩

/-- What holds of the initial state and of every recomputed in-state holds of the solution. -/
theorem solve_inputs {limit : Option Nat} {solution : Solution α}
    (h : solve p blocks limit = .ok solution) {P : Nat → α → Prop}
    (hinitial : ∀ b, P b p.initial)
    (hvisit : ∀ {inputs : List α} {b : Nat} {block : Block n},
      (∀ {c : Nat} {x : α}, inputs[c]? = some x → P c x) → blocks[b]? = some block →
        P b (p.transfer b block (p.output inputs block.successors)))
    {b : Nat} {x : α} (hx : solution.inputs[b]? = some x) : P b x := by
  refine solve_induction h (P := fun s => ∀ {c : Nat} {x : α}, s.inputs[c]? = some x → P c x)
    ?_ ?_ hx
  · intro c y hy
    obtain rfl : p.initial = y := List.eq_of_mem_replicate (List.mem_of_getElem? hy) ▸ rfl
    exact hinitial c
  · intro s hs c y hy
    rcases s.visit_states p blocks with ⟨hin, -⟩ | ⟨d, block, hd, hin, -⟩
    · exact hs (hin ▸ hy)
    · rw [hin] at hy
      by_cases hcd : d = c
      · subst hcd
        rw [List.getElem?_set] at hy
        obtain ⟨-, rfl⟩ : _ ∧ _ = y := by simpa using hy
        exact hvisit hs hd
      · rw [List.getElem?_set_ne hcd] at hy
        exact hs hy

end Solves

variable [DecidableEq α]

/-- A finished solve has a state for every block, and they satisfy all equations. -/
theorem solves_of_solve {limit : Option Nat} {solution : Solution α}
    (h : solve p blocks limit = .ok solution) :
    solution.inputs.length = blocks.length ∧ solution.outputs.length = blocks.length ∧
      ∀ {b : Nat} {block : Block n}, blocks[b]? = some block →
        p.SolvedAt solution.inputs solution.outputs b block := by
  obtain ⟨hin, hout, hsolved⟩ :=
    solve_induction h (Progress.invariant_start p blocks) fun _ => Progress.Invariant.visit
  exact ⟨hin, hout, fun hb => hsolved hb List.not_mem_nil⟩

/-- **Solves are sound.** Whatever the problem and the limit, the states that a solve ends with
satisfy the equations. No law is asked of the meet, and the transfer need not be monotone. -/
theorem Problem.solve_sound (hblocks : TargetsExist blocks) {limit : Option Nat}
    {solution : Solution α} (h : solve p blocks limit = .ok solution) :
    p.Solves blocks solution.inputs solution.outputs := by
  obtain ⟨hin, hout, hsolved⟩ := solves_of_solve h
  refine ⟨hin, hout, ?_, ?_, ?_⟩
  · intro b block hb hexit
    rw [(hsolved hb).1, hexit]
    rfl
  · intro b s rest block hb hsucc
    have hlt : ∀ s ∈ block.successors, s < solution.inputs.length := by
      rw [hin]
      exact hblocks block (List.mem_of_getElem? hb)
    have hmap := map_eq_map_some_filterMap hlt
    rw [hsucc, List.map_cons] at hmap
    rw [(hsolved hb).1, hsucc, Problem.output]
    cases hstates : (s :: rest).filterMap (solution.inputs[·]?) with
    | nil =>
      rw [hstates] at hmap
      cases hmap
    | cons x xs =>
      rw [hstates, List.map_cons] at hmap
      obtain ⟨hx, hxs⟩ := List.cons.inj hmap
      exact ⟨x, xs, hx, hxs, rfl⟩
  · intro b block out hb hb'
    obtain rfl : p.output solution.inputs block.successors = out :=
      Option.some.inj ((hsolved hb).1.symm.trans hb')
    exact (hsolved hb).2

/-- A problem whose meet is neither commutative nor idempotent. -/
def Problem.lawless : Problem 0 Nat where
  boundary := 1
  initial := 0
  meet x y := (2 * x + y) % 4
  transfer b _ out := (out + b) % 4

/-- Blocks with two edges to the same block, with an edge from a block to itself, and with a circle
around both. -/
def Block.tangle : List (Block 0) := [
  .blank 0 0 [] (.branch .zero ⟨0⟩ 1 1),
  .blank 0 1 [] (.branch .zero ⟨0⟩ 1 2),
  .blank 0 2 [] (.branch .nonzero ⟨0⟩ 0 3),
  .blank 0 3 [] (.ret none)]

theorem Problem.solve_sound_tangle :
    ∃ solution, TargetsExist Block.tangle ∧
      solve Problem.lawless Block.tangle (some 12) = .ok solution ∧
      Problem.lawless.Solves Block.tangle solution.inputs solution.outputs := by
  have htargets : TargetsExist Block.tangle := by decide
  obtain ⟨solution, h⟩ :=
    exists_eq_ok (x := solve Problem.lawless Block.tangle (some 12)) (by decide)
  exact ⟨solution, htargets, h, solve_sound htargets h⟩

end FlowFacts
