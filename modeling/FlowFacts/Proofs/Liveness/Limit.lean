import FlowFacts.Proofs.Dataflow.Cutoff
import FlowFacts.Proofs.Dataflow.Visits
import FlowFacts.Proofs.Liveness.Least
import FlowFacts.Proofs.Liveness.Shape

/-!
# Enough visits for liveness

A set of temps can rise once for each temp that is not in it, so the number of visits that a
liveness solve makes is bounded by the number of blocks and, for each temp, the number of edges. The
default limit is above that, unless it is cut off.

The limit depends on the capacity of the sets, the visits do not. If the capacity is raised and the
limit with it, a solve that has ended ends as before. One that has not was up against the cut-off,
which is the same for all capacities.

## Main results

* `exists_solve_liveVariables` — how many visits are enough
* `Graph.visits_liveness_le` — the default limit is never reached
* `SameShape.exists_setLiveness_none`, `SameShape.exists_setLiveness_none_iff` — the default limit
  does not tell capacities apart
-/

namespace FlowFacts

variable {n n' : Nat} {blocks : List (Block n)} {blocks' : List (Block n')}

/-- The number of temps that can still be added to a set. -/
def TempSet.missing {m : Nat} (s : TempSet m) : Nat :=
  ((Finset.range m).filter fun i => Temp.ofSlot i ∉ s).card

theorem TempSet.missing_le {m : Nat} (s : TempSet m) : s.missing ≤ m :=
  (Finset.card_filter_le _ _).trans_eq (Finset.card_range m)

theorem TempSet.missing_lt {m : Nat} {s s' : TempSet m} (h : s < s') : s'.missing < s.missing := by
  obtain ⟨t, ht', ht⟩ : ∃ t ∈ s', t ∉ s := by
    by_contra hno
    refine absurd (le_antisymm h.le (TempSet.le_iff.mpr fun t ht' => ?_)) h.ne
    exact not_not.mp fun ht => hno ⟨t, ht', ht⟩
  refine Finset.card_lt_card ((Finset.ssubset_iff_of_subset ?_).mpr ⟨t.slot, ?_, ?_⟩)
  · exact Finset.monotone_filter_right _ fun i _ hi his => hi (h.le _ his)
  · rw [Finset.mem_filter, Finset.mem_range, Temp.ofSlot_slot]
    exact ⟨TempSet.slot_lt_of_mem ht', ht⟩
  · rw [Finset.mem_filter, Temp.ofSlot_slot]
    exact fun hmem => hmem.2 ht'

/-- A number of visits that is enough for liveness of the temps with slots below `m`. -/
theorem exists_solve_liveVariables {m : Nat} (summaries : List (Summary m))
    (blocks : List (Block n)) {limit : Nat}
    (hlimit : blocks.length + edgeCount blocks * m ≤ limit) :
    ∃ solution, solve (liveVariables n summaries) blocks (some limit) = .ok solution := by
  refine (monotone_liveVariables summaries blocks).exists_solve TempSet.missing TempSet.missing_lt
    (Nat.le_trans (Nat.add_le_add_left ?_ _) hlimit)
  exact Nat.mul_le_mul_left _ (TempSet.missing_le _)

theorem exists_solveLiveness (blocks : List (Block n)) {limit : Nat}
    (hlimit : blocks.length + edgeCount blocks * n ≤ limit) :
    ∃ solution, solveLiveness blocks (some limit) = .ok solution :=
  exists_solve_liveVariables _ blocks hlimit

/-! ### The default limit -/

theorem le_defaultLimit {m : Nat} (h : blocks.length + edgeCount blocks * m ≤ maxVisits) :
    blocks.length + edgeCount blocks * m ≤ defaultLimit blocks m :=
  Nat.le_min.mpr ⟨Nat.le_succ _, h⟩

/-- However many visits a liveness solve may make beyond those that are enough, it does not make
them. -/
theorem exists_solution_liveVariables {m : Nat} (summaries : List (Summary m))
    (blocks : List (Block n)) :
    ∃ solution : Solution (TempSet m),
      solution.visits ≤ blocks.length + edgeCount blocks * m ∧
      ∀ {limit : Nat}, blocks.length + edgeCount blocks * m ≤ limit →
        solve (liveVariables n summaries) blocks (some limit) = .ok solution := by
  obtain ⟨solution, hsolve⟩ := exists_solve_liveVariables summaries blocks (Nat.le_refl _)
  exact ⟨solution, (solve_visits hsolve).1, solve_of_le hsolve⟩

/-- **The default limit is never reached.** Liveness of the temps with slots below `m` is solved with
at most as many visits as there are blocks, and edges times `m`, so a solve without a limit ends
unless the counter of visits is too short for this number. If it is not, liveness of a graph can be
stored without a limit. -/
theorem Graph.visits_liveness_le :
    (∀ {n : Nat} (m : Nat) (blocks : List (Block n)),
      ∃ solution : Solution (TempSet m),
        solution.visits ≤ blocks.length + edgeCount blocks * m ∧
        (∀ {limit : Nat}, blocks.length + edgeCount blocks * m ≤ limit →
          solve (liveVariables n (blocks.map (Block.summary m))) blocks (some limit) =
            .ok solution) ∧
        (blocks.length + edgeCount blocks * m < UInt64.size →
          solve (liveVariables n (blocks.map (Block.summary m))) blocks none = .ok solution)) ∧
    ∀ g : Graph, g.blocks.length + edgeCount g.blocks * g.tempCount < UInt64.size →
      ∃ v g', g.setLiveness none = .ok (v, g') ∧
        v ≤ g.blocks.length + edgeCount g.blocks * g.tempCount := by
  constructor
  · intro n m blocks
    obtain ⟨solution, hvisits, hsolve⟩ :=
      exists_solution_liveVariables (blocks.map (Block.summary m)) blocks
    exact ⟨solution, hvisits, hsolve, fun hsize => hsolve (Nat.le_pred_of_lt hsize)⟩
  · intro g hsize
    obtain ⟨solution, hvisits, hsolve⟩ :=
      exists_solution_liveVariables (g.blocks.map (Block.summary g.tempCount)) g.blocks
    have hlive : solveLiveness g.blocks none = .ok solution :=
      hsolve (le_defaultLimit (Nat.le_pred_of_lt hsize))
    have hset : ∃ found, FlowFacts.setLiveness g.blocks none = .ok (solution.visits, found) := by
      rw [FlowFacts.setLiveness, hlive]
      exact ⟨_, rfl⟩
    obtain ⟨found, hset⟩ := hset
    exact ⟨solution.visits, _, bind_eq_ok_iff.mpr ⟨_, hset, rfl⟩, hvisits⟩

theorem Graph.visits_liveness_le_loop :
    (∃ solution, solve (liveVariables 0 (Block.tangle.map (Block.summary 1))) Block.tangle none =
        .ok solution ∧
      solution.visits ≤ 4 + 6 * 1) ∧
    ∃ g v g', Graph.build .loop .structureOnly = .ok g ∧ g.setLiveness none = .ok (v, g') ∧
      v ≤ 4 + 4 * 2 := by
  constructor
  · obtain ⟨solution, hvisits, -, hsolve⟩ := visits_liveness_le.1 1 Block.tangle
    exact ⟨solution, hsolve (by decide), hvisits⟩
  · have hloop : (fun g : Graph => g.blocks.length + edgeCount g.blocks * g.tempCount) <$>
        Graph.build .loop .structureOnly = .ok (4 + 4 * 2) := by
      decide +kernel
    obtain ⟨g, hg, hsize⟩ := map_eq_ok_iff.mp hloop
    obtain ⟨v, g', hset, hvisits⟩ := visits_liveness_le.2 g (by rw [hsize]; decide)
    exact ⟨g, v, g', hg, hset, hvisits.trans_eq hsize⟩

/-! ### Capacities -/

theorem defaultLimit_le (blocks : List (Block n)) {m m' : Nat} (h : m ≤ m') :
    defaultLimit blocks m ≤ defaultLimit blocks m' := by
  have hmul := Nat.mul_le_mul_left (edgeCount blocks) h
  rw [defaultLimit, defaultLimit]
  omega

/-- A higher limit does not change liveness. -/
theorem setLiveness_of_le {limit limit' v : Nat} {found : List (Block n)}
    (h : setLiveness blocks (some limit) = .ok (v, found)) (hle : limit ≤ limit') :
    setLiveness blocks (some limit') = .ok (v, found) := by
  obtain ⟨solution, hsolve, -⟩ := exists_of_setLiveness h
  have hsolve' : solveLiveness blocks (some limit') = .ok solution :=
    solve_of_le hsolve hle
  rw [setLiveness, hsolve] at h
  rw [setLiveness, hsolve', ← h]

namespace SameShape

/-- With a higher capacity blocks get the same liveness. -/
theorem exists_setLiveness_none (h : SameShape blocks blocks') (hfit : FitAlike n' blocks)
    (hle : n ≤ n') {v : Nat} {found : List (Block n)}
    (hset : setLiveness blocks none = .ok (v, found)) :
    ∃ v' found', setLiveness blocks' none = .ok (v', found') ∧
      List.Forall₂ Block.SameSets found found' := by
  have hset : setLiveness blocks (some (defaultLimit blocks n)) = .ok (v, found) := hset
  obtain ⟨v', found', hset', hsame⟩ := h.exists_setLiveness hfit hset
  rw [h.defaultLimit_eq] at hset'
  exact ⟨v', found', setLiveness_of_le hset' (defaultLimit_le blocks' hle), hsame⟩

/-- The default limit suffices for one capacity just if it suffices for a higher one. -/
theorem exists_setLiveness_none_iff (h : SameShape blocks blocks') (hfit : FitAlike n' blocks)
    (hle : n ≤ n') :
    (∃ found', setLiveness blocks' none = .ok found') ↔
      ∃ found, setLiveness blocks none = .ok found := by
  constructor
  · rintro ⟨⟨v', found'⟩, hset'⟩
    by_cases hcut : blocks.length + edgeCount blocks * n ≤ maxVisits
    · obtain ⟨solution, hsolve⟩ := exists_solveLiveness blocks (le_defaultLimit hcut)
      obtain ⟨v, found, hset⟩ := exists_setLiveness_of_solve none hsolve
      exact ⟨_, hset⟩
    · -- both limits are cut off
      have hlimit : defaultLimit blocks' n' = defaultLimit blocks n := by
        have hmul := Nat.mul_le_mul_left (edgeCount blocks) hle
        rw [← h.defaultLimit_eq, defaultLimit, defaultLimit]
        omega
      have hset' : setLiveness blocks' (some (defaultLimit blocks' n')) = .ok (v', found') := hset'
      obtain ⟨v, found, hset, -⟩ := h.symm.exists_setLiveness (hfit.symm h) hset'
      rw [hlimit] at hset
      exact ⟨_, hset⟩
  · rintro ⟨⟨v, found⟩, hset⟩
    obtain ⟨v', found', hset', -⟩ := h.exists_setLiveness_none hfit hle hset
    exact ⟨_, hset'⟩

end SameShape

end FlowFacts
