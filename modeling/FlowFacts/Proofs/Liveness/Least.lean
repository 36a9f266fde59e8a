import FlowFacts.Proofs.Dataflow.Least
import FlowFacts.Proofs.Liveness.Equations

/-!
# Stored liveness is the least that satisfies its equations

Sets of temps are ordered by inclusion. Liveness is a monotone problem for this order, whatever the
summaries of the blocks are, so a solve ascends from empty sets to the least solution, and these are
the sets that are stored.

## Main results

* `monotone_liveVariables` — liveness is monotone
* `leastLiveness_setLiveness` — stored liveness is least
* `Problem.ascends_to_least` — monotone problems, and liveness among them
-/

namespace FlowFacts

variable {n m : Nat} {blocks : List (Block n)}

/-! ### Inclusion -/

/-- Sets of temps are ordered by inclusion. -/
instance : PartialOrder (TempSet m) where
  le s s' := ∀ t ∈ s, t ∈ s'
  le_refl _ _ ht := ht
  le_trans _ _ _ h h' t ht := h' t (h t ht)
  le_antisymm _ _ h h' := TempSet.ext fun t => ⟨h t, h' t⟩

theorem TempSet.le_iff {s s' : TempSet m} : s ≤ s' ↔ ∀ t ∈ s, t ∈ s' := Iff.rfl

theorem monotone_liveVariables (summaries : List (Summary m)) (blocks : List (Block n)) :
    (liveVariables n summaries).Monotone blocks where
  initial_le _ _ ht := absurd ht (TempSet.not_mem_empty _)
  meet_le_meet hx hy t ht := by
    rw [liveVariables, TempSet.mem_union] at ht ⊢
    exact ht.imp (hx t) (hy t)
  transfer_le_transfer {b _ _ _} _ hxy t ht := by
    simp only [liveVariables] at ht ⊢
    cases hb : summaries[b]? with
    | none =>
      rw [hb] at ht
      exact hxy t ht
    | some s =>
      rw [hb, mem_transfer] at ht
      exact mem_transfer.mpr (ht.imp_right (And.imp_left (hxy t)))

/-! ### The least sets -/

/-- The stored sets satisfy the liveness equations of the blocks, and are included in all others
that do. -/
structure LeastLiveness (blocks : List (Block n)) : Prop extends LivenessEquations blocks where
  /-- The equations are those of the summaries of the blocks. -/
  summary_eq : ∀ {b : Nat} {block : Block n}, blocks[b]? = some block →
    block.summary n = ⟨block.defs, block.uses⟩
  le : ∀ {others : List (Block n)}, LivenessEquations others →
    (others.map fun b => (b.terminator, b.defs, b.uses)) =
      (blocks.map fun b => (b.terminator, b.defs, b.uses)) →
    ∀ {b : Nat} {block other : Block n}, blocks[b]? = some block → others[b]? = some other →
      block.liveIn ≤ other.liveIn ∧ block.liveOut ≤ other.liveOut

/-- Sets that satisfy the equations are states that do. -/
theorem LivenessEquations.solvedAt {others : List (Block n)} (h : LivenessEquations others)
    {b : Nat} {block other : Block n} (hb : blocks[b]? = some block)
    (hother : others[b]? = some other) (hsucc : other.successors = block.successors)
    (hsummary : block.summary n = ⟨other.defs, other.uses⟩) :
    (liveVariables n (blocks.map (Block.summary n))).SolvedAt (others.map Block.liveIn)
      (others.map Block.liveOut) b block := by
  have hout : other.liveOut = (liveVariables n (blocks.map (Block.summary n))).output
      (others.map Block.liveIn) block.successors := by
    refine TempSet.ext fun t => ?_
    rw [h.mem_liveOut_iff hother, mem_output_liveVariables, hsucc]
    simp only [List.getElem?_map, Option.map_eq_some_iff]
    refine exists_congr fun s => and_congr_right fun _ => ?_
    constructor
    · rintro ⟨next, hnext, ht⟩
      exact ⟨_, ⟨next, hnext, rfl⟩, ht⟩
    · rintro ⟨_, ⟨next, hnext, rfl⟩, ht⟩
      exact ⟨next, hnext, ht⟩
  have hin : other.liveIn = (block.summary n).transfer other.liveOut := by
    refine TempSet.ext fun t => ?_
    rw [h.mem_liveIn_iff hother, hsummary, mem_transfer]
  refine ⟨?_, ?_⟩
  · rw [List.getElem?_map, hother, ← hout]
    rfl
  · rw [List.getElem?_map, hother, ← hout, transfer_liveVariables hb, ← hin]
    rfl

/-- A solve that ends stores the least sets that satisfy the equations. -/
theorem leastLiveness_setLiveness {blocks' : List (Block n)} {limit : Option Nat} {v : Nat}
    (h : setLiveness blocks limit = .ok (v, blocks')) : LeastLiveness blocks' := by
  obtain ⟨solution, hsolve, hlen, hget⟩ := exists_of_setLiveness h
  refine ⟨livenessEquations_setLiveness h, fun hb' => ?_, fun {others} heqs hsame => ?_⟩
  · obtain ⟨block, -, -, -, hset⟩ := hget hb'
    rw [← hset]
    rfl
  have hlen' : others.length = blocks.length :=
    (by simpa using congrArg List.length hsame : others.length = _).trans hlen
  have hsolved : ∀ {b : Nat} {block : Block n}, blocks[b]? = some block →
      (liveVariables n (blocks.map (Block.summary n))).SolvedAt (others.map Block.liveIn)
        (others.map Block.liveOut) b block := by
    intro b block hb
    obtain ⟨block', hb'⟩ : ∃ block', blocks'[b]? = some block' :=
      ⟨_, List.getElem?_eq_getElem (hlen ▸ (List.getElem?_eq_some_iff.mp hb).1)⟩
    obtain ⟨other, hother, hfacts⟩ := exists_of_map_eq_map hsame.symm hb'
    obtain ⟨_, hblock, -, -, hset⟩ := hget hb'
    obtain rfl := Option.some.inj (hb.symm.trans hblock)
    simp only [Prod.mk.injEq] at hfacts
    obtain ⟨hterm, hdefs, huses⟩ := hfacts
    refine heqs.solvedAt hb hother ?_ ?_
    · rw [Block.successors, hterm, ← hset]
      rfl
    · rw [hdefs, huses, ← hset]
      rfl
  obtain ⟨hin, hout⟩ := (monotone_liveVariables _ blocks).solve_le hsolve
    ((List.length_map _).trans hlen') ((List.length_map _).trans hlen') hsolved
  intro b block' other hb' hother
  obtain ⟨block, -, hlive, hlive', -⟩ := hget hb'
  exact ⟨rel_of_getElem? hin hlive (by simp [hother]),
    rel_of_getElem? hout hlive' (by simp [hother])⟩

/-- **Monotone problems ascend to the least solution.** By whatever test states are compared, no
visit lowers an in-state, and a solve that ends is below all states that satisfy the equations. If
the test is equality, it has found the least of them. So the liveness that a solve stores is the
least that satisfies the equations of the blocks it was given. -/
theorem Problem.ascends_to_least :
    (∀ {n : Nat} {α : Type} [BEq α] [PartialOrder α] {p : Problem n α} {blocks : List (Block n)},
      p.Monotone blocks →
      (∀ k, List.Forall₂ (· ≤ ·) ((Progress.start p blocks).run (fun _ => p) blocks k).inputs
        ((Progress.start p blocks).run (fun _ => p) blocks (k + 1)).inputs) ∧
      ∀ {limit : Option Nat} {solution : Solution α}, solve p blocks limit = .ok solution →
        ∀ {inputs outputs : List α}, p.Solves blocks inputs outputs →
          List.Forall₂ (· ≤ ·) solution.inputs inputs ∧
            List.Forall₂ (· ≤ ·) solution.outputs outputs) ∧
    (∀ {n : Nat} {α : Type} [DecidableEq α] [PartialOrder α] {p : Problem n α}
        {blocks : List (Block n)}, p.Monotone blocks →
      ∀ {limit : Option Nat} {solution : Solution α}, solve p blocks limit = .ok solution →
        p.SolvesLeast blocks solution.inputs solution.outputs) ∧
    ∀ {n : Nat} {blocks blocks' : List (Block n)} {limit : Option Nat} {v : Nat},
      setLiveness blocks limit = .ok (v, blocks') →
        SameShape blocks' blocks ∧ LeastLiveness blocks' := by
  refine ⟨fun hp => ⟨hp.le_run_succ, fun {_ _} h {_ _} hs => ?_⟩, fun hp => hp.solvesLeast,
    fun h => ?_⟩
  · exact hp.solve_le h hs.length_inputs hs.length_outputs hs.solvedAt
  · exact ⟨sameShape_setLiveness h, leastLiveness_setLiveness h⟩

/-- Distances with a ceiling: going round a circle raises the states until they reach it. -/
def Problem.ceiling : Problem 0 Nat where
  boundary := 1
  initial := 0
  meet := max
  transfer b _ out := min (out + b) 5

/-- A block with an edge to itself, around which a temp that nothing reads could be thought live. -/
def Block.idle : List (Block 2) := [
  .blank 2 0 [] (.branch .zero ⟨1⟩ 0 1),
  .blank 2 1 [] (.ret none)]

theorem Problem.ascends_to_least_tangle :
    (∃ solution, Problem.ceiling.Monotone Block.tangle ∧
      solve Problem.ceiling Block.tangle (some 12) = .ok solution ∧
      solution.inputs = [5, 5, 5, 4] ∧
      Problem.ceiling.SolvesLeast Block.tangle solution.inputs solution.outputs) ∧
    ∃ found, setLiveness Block.idle none = .ok found ∧ SameShape found.2 Block.idle ∧
      LeastLiveness found.2 := by
  have hmono : Problem.ceiling.Monotone Block.tangle := by
    refine ⟨Nat.zero_le, fun hx hy => max_le_max hx hy, fun {b _ x y} _ hxy => ?_⟩
    show min (x + b) 5 ≤ min (y + b) 5
    omega
  obtain ⟨solution, h⟩ :=
    exists_eq_ok (x := solve Problem.ceiling Block.tangle (some 12)) (by decide)
  have hinputs : (solve Problem.ceiling Block.tangle (some 12)).toOption.map Solution.inputs =
      some [5, 5, 5, 4] := by
    decide
  rw [h] at hinputs
  obtain ⟨found, hfound⟩ := exists_eq_ok (x := setLiveness Block.idle none) (by decide +kernel)
  exact ⟨⟨solution, hmono, h, Option.some.inj hinputs, ascends_to_least.2.1 hmono h⟩,
    found, hfound, ascends_to_least.2.2 hfound⟩

end FlowFacts
