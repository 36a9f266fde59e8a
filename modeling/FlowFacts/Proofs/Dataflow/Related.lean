import FlowFacts.Proofs.Dataflow.Solution
import Mathlib.Data.List.Forall2
import Mathlib.Logic.Relator

/-!
# Two solves side by side

Two problems over blocks with the same edges can be compared through a relation between their
states. If boundary, initial value, meet and transfer keep to the relation, then so do all states
that a solve goes through, as long as both solves visit the same blocks. They do if the relation
pairs equal states with equal states: a state then changes on one side just if it does on the other.

## Main definitions

* `Problem.Related` — two problems keep to a relation
* `Progress.Related` — two solves have come equally far

## Main results

* `Problem.Related.output` — related in-states make up related out-states
* `Progress.Related.visit`, `Progress.Related.run` — one visit, and any number of them
* `exists_solve_of_related` — a solve that ends has a counterpart that ends
-/

namespace FlowFacts

variable {n n' : Nat} {α β : Type} {R : α → β → Prop}

/-! ### Lists of states -/

theorem forall₂_of_getElem? {xs : List α} {ys : List β} (hlen : xs.length = ys.length)
    (h : ∀ {i : Nat} {x : α} {y : β}, xs[i]? = some x → ys[i]? = some y → R x y) :
    List.Forall₂ R xs ys :=
  List.forall₂_iff_get.mpr ⟨hlen, fun _ hx hy =>
    h (List.getElem?_eq_getElem hx) (List.getElem?_eq_getElem hy)⟩

theorem rel_getElem? {xs : List α} {ys : List β} (h : List.Forall₂ R xs ys) (i : Nat) :
    Option.Rel R xs[i]? ys[i]? := by
  induction h generalizing i with
  | nil => exact .none
  | cons hxy _ ih =>
    cases i with
    | zero => exact .some hxy
    | succ i => exact ih i

theorem rel_of_getElem? {xs : List α} {ys : List β} (h : List.Forall₂ R xs ys) {i : Nat} {x : α}
    {y : β} (hx : xs[i]? = some x) (hy : ys[i]? = some y) : R x y := by
  have hrel := rel_getElem? h i
  rw [hx, hy] at hrel
  cases hrel with
  | some hxy => exact hxy

/-- Related states are what they are supposed to be on both sides or on neither. -/
theorem eq_some_iff_of_rel (hR : Relator.BiUnique R) {a : Option α} {b : Option β} {x : α} {y : β}
    (h : Option.Rel R a b) (hxy : R x y) : b = some y ↔ a = some x := by
  cases h with
  | none => simp
  | some hab =>
    rw [Option.some_inj, Option.some_inj]
    constructor
    · rintro rfl
      exact hR.1 hab hxy
    · rintro rfl
      exact hR.2 hab hxy

theorem forall₂_set {xs : List α} {ys : List β} {x : α} {y : β} (h : List.Forall₂ R xs ys)
    (hxy : R x y) (i : Nat) : List.Forall₂ R (xs.set i x) (ys.set i y) := by
  induction h generalizing i with
  | nil => exact .nil
  | cons hhead htail ih =>
    cases i with
    | zero => exact .cons hxy htail
    | succ i => exact .cons hhead (ih i)

theorem forall₂_replicate {x : α} {y : β} (h : R x y) (k : Nat) :
    List.Forall₂ R (List.replicate k x) (List.replicate k y) := by
  induction k with
  | zero => exact .nil
  | succ k ih => exact .cons h ih

/-! ### Problems -/

/-- Related in-states make up related out-states. -/
theorem Problem.output_related {p : Problem n α} {q : Problem n' β}
    (hboundary : R p.boundary q.boundary)
    (hmeet : ∀ {x x' : α} {y y' : β}, R x y → R x' y' → R (p.meet x x') (q.meet y y'))
    {inputs : List α} {inputs' : List β} (h : List.Forall₂ R inputs inputs')
    (successors : List Nat) : R (p.output inputs successors) (q.output inputs' successors) := by
  have hstates : List.Forall₂ R (successors.filterMap (inputs[·]?))
      (successors.filterMap (inputs'[·]?)) :=
    List.rel_filterMap (R := Eq) (fun i _ hij => hij ▸ rel_getElem? h i)
      (List.forall₂_refl successors)
  unfold output
  generalize successors.filterMap (inputs[·]?) = xs at hstates
  generalize successors.filterMap (inputs'[·]?) = ys at hstates
  cases hstates with
  | nil => exact hboundary
  | cons hxy hrest =>
    exact List.rel_foldl (P := R) (R := R) (fun _ _ hx _ _ hx' => hmeet hx hx') hxy hrest

/-- The blocks have the same edges, and the problems keep to a relation between their states that
pairs equal states with equal states. -/
structure Problem.Related (R : α → β → Prop) (p : Problem n α) (blocks : List (Block n))
    (q : Problem n' β) (blocks' : List (Block n')) : Prop where
  biUnique : Relator.BiUnique R
  successors : blocks.map Block.successors = blocks'.map Block.successors
  boundary : R p.boundary q.boundary
  initial : R p.initial q.initial
  meet : ∀ {x x' : α} {y y' : β}, R x y → R x' y' → R (p.meet x x') (q.meet y y')
  transfer : ∀ {b : Nat} {block : Block n} {block' : Block n'} {x : α} {y : β},
    blocks[b]? = some block → blocks'[b]? = some block' → R x y →
      R (p.transfer b block x) (q.transfer b block' y)

/-- Predecessors depend on the edges, and on nothing else. -/
theorem predecessors_congr {blocks : List (Block n)} {blocks' : List (Block n')}
    (h : blocks.map Block.successors = blocks'.map Block.successors) (b : Nat) :
    predecessors blocks b = predecessors blocks' b := by
  have hedges : ∀ {m : Nat} (bs : List (Block m)), predecessors bs b =
      (((bs.map Block.successors).zipIdx.filter fun p => b ∈ p.1).map Prod.snd) := by
    intro m bs
    rw [predecessors, List.zipIdx_map, List.filter_map, List.map_map]
    rfl
  rw [hedges, hedges, h]

/-! ### Solves -/

namespace Progress

/-- Two solves have made the same visits, and have come to related states. -/
structure Related (R : α → β → Prop) (s : Progress α) (s' : Progress β) : Prop where
  inputs : List.Forall₂ R s.inputs s'.inputs
  outputs : List.Forall₂ R s.outputs s'.outputs
  queue_eq : s'.queue = s.queue
  trail_eq : s'.trail = s.trail

variable {p : Problem n α} {blocks : List (Block n)} {q : Problem n' β}
  {blocks' : List (Block n')}

theorem related_start (h : Problem.Related R p blocks q blocks') :
    Related R (start p blocks) (start q blocks') := by
  have hlen : blocks'.length = blocks.length := by
    simpa using congrArg List.length h.successors.symm
  have hstates : List.Forall₂ R (List.replicate blocks.length p.initial)
      (List.replicate blocks'.length q.initial) := by
    rw [hlen]
    exact forall₂_replicate h.initial _
  exact ⟨hstates, hstates, congrArg (fun k => (List.range k).reverse) hlen, rfl⟩

variable [DecidableEq α] [DecidableEq β]

/-- A visit changes a state on one side just if it does on the other. -/
theorem Related.visit (h : Problem.Related R p blocks q blocks') {s : Progress α} {s' : Progress β}
    (hs : Related R s s') : Related R (s.visit p blocks) (s'.visit q blocks') := by
  cases hq : s.queue with
  | nil =>
    have hq' : s'.queue = [] := hs.queue_eq.trans hq
    simpa only [Progress.visit, hq, hq'] using hs
  | cons b rest =>
    have hq' : s'.queue = b :: rest := hs.queue_eq.trans hq
    have hblock : blocks[b]?.map Block.successors = blocks'[b]?.map Block.successors := by
      rw [← List.getElem?_map, ← List.getElem?_map, h.successors]
    cases hb : blocks[b]? with
    | none =>
      have hb' : blocks'[b]? = none := by simpa [hb] using hblock.symm
      rw [visit_of_none hq hb, visit_of_none hq' hb']
      exact ⟨hs.inputs, hs.outputs, rfl, hs.trail_eq⟩
    | some block =>
      obtain ⟨block', hb', hsucc⟩ : ∃ block', blocks'[b]? = some block' ∧
          block'.successors = block.successors := by
        rw [hb] at hblock
        exact Option.map_eq_some_iff.mp hblock.symm
      rw [visit_of_some hq hb, visit_of_some hq' hb', hsucc]
      have hout := Problem.output_related h.boundary h.meet hs.inputs block.successors
      have hin := h.transfer hb hb' hout
      refine ⟨forall₂_set hs.inputs hin b, forall₂_set hs.outputs hout b, ?_, ?_⟩
      · rw [predecessors_congr h.successors]
        exact if_congr (eq_some_iff_of_rel h.biUnique (rel_getElem? hs.inputs b) hin) rfl rfl
      · exact congrArg (Array.push · b) hs.trail_eq

theorem Related.run (h : Problem.Related R p blocks q blocks') {s : Progress α} {s' : Progress β}
    (hs : Related R s s') (k : Nat) :
    Related R (s.run (fun _ => p) blocks k) (s'.run (fun _ => q) blocks' k) := by
  induction k generalizing s s' with
  | zero => exact hs
  | succ k ih =>
    rw [Progress.run, Progress.run, hs.queue_eq]
    split
    · exact hs
    · exact ih (hs.visit h)

end Progress

variable [DecidableEq α] [DecidableEq β]

/-- A solve that ends has a counterpart that ends, after the same visits and in related states. -/
theorem exists_solve_of_related {p : Problem n α} {blocks : List (Block n)} {q : Problem n' β}
    {blocks' : List (Block n')} (h : Problem.Related R p blocks q blocks') {limit : Option Nat}
    {solution : Solution α} (hsolve : solve p blocks limit = .ok solution) :
    ∃ solution', solve q blocks' limit = .ok solution' ∧
      List.Forall₂ R solution.inputs solution'.inputs ∧
      List.Forall₂ R solution.outputs solution'.outputs ∧ solution'.trail = solution.trail := by
  have hrun := (Progress.related_start h).run h (limit.getD maxVisits)
  unfold solve solveNumbered at hsolve ⊢
  simp only at hsolve ⊢
  split at hsolve
  · next hq =>
    cases hsolve
    rw [if_pos (hrun.queue_eq.trans hq)]
    exact ⟨_, rfl, hrun.inputs, hrun.outputs, hrun.trail_eq⟩
  · cases hsolve

end FlowFacts
