import FlowFacts.Proofs.Dataflow.Solution
import Mathlib.Data.List.Perm.Subperm

/-!
# A limit only cuts a solve off

The limit of a solve decides when it is stopped, and nothing else. While there is a block in the
queue, every visit that is allowed is made and gets its place in the trail. So a solve that ends
takes as many visits as its trail is long. Under every limit that allows these it ends in the same
states, and under a lower limit it is stopped after a part of the same trail.

At first every block is in the queue, and it leaves the queue only by being visited. So no solve
ends before it has visited every block.

## Main results

* `Progress.Covers.size_trail_run` — while the queue is not empty, all visits are made
* `solve_visits` — as many visits suffice as are made
* `exists_unsettled_of_lt` — fewer do not suffice
* `solve_cutoff` — solves of one problem under different limits
-/

namespace FlowFacts

variable {n : Nat} {α : Type} [BEq α] {p : Problem n α} {blocks : List (Block n)}

namespace Progress

variable {s : Progress α}

/-- The queue holds numbers of blocks only, and every block is in the queue or has been visited. -/
structure Covers (blocks : List (Block n)) (s : Progress α) : Prop where
  lt_length : ∀ {b : Nat}, b ∈ s.queue → b < blocks.length
  queued_or_visited : ∀ {b : Nat}, b < blocks.length → b ∈ s.queue ∨ b ∈ s.trail

omit [BEq α] in
theorem covers_start (p : Problem n α) (blocks : List (Block n)) :
    Covers blocks (start p blocks) := by
  constructor
  · intro b hb
    simpa [start] using hb
  · intro b hb
    exact .inl (by simpa [start] using hb)

omit [BEq α] in
theorem Covers.exists_block (h : Covers blocks s) {b : Nat} {rest : List Nat}
    (hq : s.queue = b :: rest) : ∃ block, blocks[b]? = some block :=
  ⟨_, List.getElem?_eq_getElem (h.lt_length (hq ▸ List.mem_cons_self))⟩

/-- A visit adds its block to the trail. -/
theorem Covers.trail_visit (h : Covers blocks s) {b : Nat} {rest : List Nat}
    (hq : s.queue = b :: rest) : (s.visit p blocks).trail = s.trail.push b := by
  obtain ⟨block, hb⟩ := h.exists_block hq
  rw [visit_of_block hq hb]

theorem Covers.visit (h : Covers blocks s) : Covers blocks (s.visit p blocks) := by
  cases hq : s.queue with
  | nil =>
    rw [visit_of_nil hq]
    exact h
  | cons b rest =>
    obtain ⟨block, hb⟩ := h.exists_block hq
    have hqueue : ∀ {c : Nat}, c ∈ (s.visit p blocks).queue →
        c ∈ rest ∨ c ∈ predecessors blocks b := by
      intro c hc
      rw [visit_of_block hq hb] at hc
      split at hc
      · exact .inl hc
      · exact mem_enqueue.mp hc
    have hrest : ∀ {c : Nat}, c ∈ rest → c ∈ (s.visit p blocks).queue := by
      intro c hc
      rw [visit_of_block hq hb]
      split
      · exact hc
      · exact mem_enqueue.mpr (.inl hc)
    constructor
    · intro c hc
      rcases hqueue hc with hc | hc
      · exact h.lt_length (hq ▸ List.mem_cons_of_mem _ hc)
      · obtain ⟨_, hc, -⟩ := mem_predecessors.mp hc
        exact (List.getElem?_eq_some_iff.mp hc).1
    · intro c hc
      rw [h.trail_visit hq, Array.mem_push]
      rcases h.queued_or_visited hc with hc | hc
      · rcases List.mem_cons.mp (hq ▸ hc) with rfl | hc
        · exact .inr (.inr rfl)
        · exact .inl (hrest hc)
      · exact .inr (.inl hc)

/-- While the queue is not empty, all visits that are allowed are made. -/
theorem Covers.size_trail_run (h : Covers blocks s) {k : Nat}
    (hq : (s.run (fun _ => p) blocks k).queue ≠ []) :
    (s.run (fun _ => p) blocks k).trail.size = s.trail.size + k := by
  induction k with
  | zero => rfl
  | succ k ih =>
    rw [run_succ] at hq ⊢
    have hbefore : (s.run (fun _ => p) blocks k).queue ≠ [] := fun hnil =>
      hq (by rw [visit_of_nil hnil, hnil])
    obtain ⟨b, rest, hcons⟩ := List.exists_cons_of_ne_nil hbefore
    have hcovers := run_induction (p := p) (fun _ hs => Covers.visit hs) k h
    rw [hcovers.trail_visit hcons, Array.size_push, ih hbefore, Nat.add_assoc]

/-- A solve that has ended was at its end as soon as it had made its visits. -/
theorem Covers.exists_run_eq (h : Covers blocks s) {k : Nat}
    (hq : (s.run (fun _ => p) blocks k).queue = []) :
    ∃ j ≤ k, s.run (fun _ => p) blocks j = s.run (fun _ => p) blocks k ∧
      (s.run (fun _ => p) blocks j).trail.size = s.trail.size + j := by
  induction k with
  | zero => exact ⟨0, Nat.le_refl 0, rfl, rfl⟩
  | succ k ih =>
    by_cases hbefore : (s.run (fun _ => p) blocks k).queue = []
    · obtain ⟨j, hj, hrun, hsize⟩ := ih hbefore
      rw [run_of_le hbefore (Nat.le_succ k)]
      exact ⟨j, Nat.le_succ_of_le hj, hrun, hsize⟩
    · -- the last visit that is allowed empties the queue
      refine ⟨k + 1, Nat.le_refl _, rfl, ?_⟩
      obtain ⟨b, rest, hcons⟩ := List.exists_cons_of_ne_nil hbefore
      have hcovers := run_induction (p := p) (fun _ hs => Covers.visit hs) k h
      rw [run_succ, hcovers.trail_visit hcons, Array.size_push, h.size_trail_run hbefore,
        Nat.add_assoc]

/-- Visits are added to the trail at its end. -/
theorem prefix_trail_visit (s : Progress α) :
    s.trail.toList <+: (s.visit p blocks).trail.toList := by
  cases hq : s.queue with
  | nil => exact (visit_of_nil hq).symm ▸ List.prefix_refl _
  | cons b rest =>
    cases hb : blocks[b]? with
    | none => exact (visit_of_none hq hb).symm ▸ List.prefix_refl _
    | some block =>
      rw [visit_of_block hq hb, Array.toList_push]
      exact List.prefix_append ..

theorem prefix_trail_run (p : Problem n α) (blocks : List (Block n)) (s : Progress α) (k : Nat) :
    s.trail.toList <+: (s.run (fun _ => p) blocks k).trail.toList :=
  run_induction (P := fun s' => s.trail.toList <+: s'.trail.toList)
    (fun s' hs => hs.trans (prefix_trail_visit s')) k (List.prefix_refl _)

end Progress

variable {limit limit' : Nat} {solution : Solution α}

/-- A solve keeps to its limit, and as many visits suffice for it as it makes. -/
theorem solve_visits (h : solve p blocks (some limit) = .ok solution) :
    solution.visits ≤ limit ∧ solve p blocks (some solution.visits) = .ok solution := by
  obtain ⟨s, rfl, hq, rfl⟩ := solve_eq_ok_iff.mp h
  obtain ⟨j, hj, hrun, hsize⟩ := (Progress.covers_start p blocks).exists_run_eq hq
  have hvisits : ((Progress.start p blocks).run (fun _ => p) blocks limit).trail.size = j := by
    rw [← hrun, hsize]
    exact Nat.zero_add j
  refine ⟨Nat.le_trans (Nat.le_of_eq hvisits) hj, solve_eq_ok_iff.mpr ⟨_, ?_, hq, rfl⟩⟩
  rw [Solution.visits, hvisits, hrun]

/-- A solve that is allowed fewer visits than it takes is stopped after them. -/
theorem exists_unsettled_of_lt (h : solve p blocks (some limit) = .ok solution)
    (hlt : limit' < solution.visits) :
    ∃ unsettled, solve p blocks (some limit') = .error unsettled ∧ unsettled.limit = limit' ∧
      unsettled.trail.toList = solution.trail.toList.take limit' := by
  have hle : limit' ≤ limit := Nat.le_of_lt (Nat.lt_of_lt_of_le hlt (solve_visits h).1)
  have hq : ((Progress.start p blocks).run (fun _ => p) blocks limit').queue ≠ [] := by
    intro hnil
    have hsolve := solve_eq_ok_iff.mpr ⟨_, rfl, hnil, rfl⟩
    have hsame := Except.ok.inj ((solve_of_le hsolve hle).symm.trans h)
    exact Nat.not_lt.mpr (solve_visits hsolve).1 (hsame ▸ hlt)
  refine ⟨_, if_neg hq, rfl, ?_⟩
  obtain ⟨s, rfl, -, rfl⟩ := solve_eq_ok_iff.mp h
  obtain ⟨d, rfl⟩ := Nat.exists_eq_add_of_le hle
  have hsize := (Progress.covers_start p blocks).size_trail_run hq
  have hprefix := Progress.prefix_trail_run p blocks
    ((Progress.start p blocks).run (fun _ => p) blocks limit') d
  rw [← Progress.run_add, List.prefix_iff_eq_take, Array.length_toList, hsize] at hprefix
  simpa [Progress.start] using hprefix

/-- A solve that ends has visited every block. -/
theorem mem_trail_of_solve (h : solve p blocks (some limit) = .ok solution) {b : Nat}
    (hb : b < blocks.length) : b ∈ solution.trail := by
  have hcovers := solve_induction h (Progress.covers_start p blocks) fun _ hs => hs.visit
  exact (hcovers.queued_or_visited hb).resolve_left List.not_mem_nil

theorem length_le_visits (h : solve p blocks (some limit) = .ok solution) :
    blocks.length ≤ solution.visits := by
  have hsubset : List.range blocks.length ⊆ solution.trail.toList := fun b hb =>
    Array.mem_toList_iff.mpr (mem_trail_of_solve h (List.mem_range.mp hb))
  simpa [Solution.visits] using (List.subperm_of_subset List.nodup_range hsubset).length_le

/-- **A limit only cuts a solve off.** If a solve ends within some limit, it has visited every block
and has kept to the limit. Without a limit, and under every other one that allows its visits, it
ends in the same states after the same visits; under every lower limit it is stopped, and reports
that limit, after the first of these visits. -/
theorem solve_cutoff {limit : UInt64} {solution : Solution α}
    (h : solve p blocks (some limit.toNat) = .ok solution) :
    solution.visits ≤ limit.toNat ∧ solve p blocks none = .ok solution ∧
      (∀ {limit' : Nat}, solution.visits ≤ limit' →
        solve p blocks (some limit') = .ok solution) ∧
      (∀ {limit' : Nat}, limit' < solution.visits →
        ∃ unsettled, solve p blocks (some limit') = .error unsettled ∧ unsettled.limit = limit' ∧
          unsettled.trail.toList = solution.trail.toList.take limit') ∧
      blocks.length ≤ solution.visits ∧ ∀ b < blocks.length, b ∈ solution.trail := by
  obtain ⟨hle, hvisits⟩ := solve_visits h
  have hmax : limit.toNat ≤ maxVisits := Nat.le_pred_of_lt limit.toNat_lt_size
  have hnone : solve p blocks (some maxVisits) = .ok solution := solve_of_le h hmax
  exact ⟨hle, hnone, solve_of_le hvisits, exists_unsettled_of_lt h, length_le_visits h,
    fun _ => mem_trail_of_solve h⟩

/-- A limit that is just high enough, and the next lower one. -/
theorem solve_cutoff_tangle :
    ∃ solution unsettled, solve Problem.lawless Block.tangle (some 12) = .ok solution ∧
      solve Problem.lawless Block.tangle none = .ok solution ∧
      solve Problem.lawless Block.tangle (some 11) = .error unsettled ∧ unsettled.limit = 11 ∧
      unsettled.trail.toList = [3, 2, 1, 0, 1, 2, 0, 1, 2, 0, 1] := by
  obtain ⟨solution, h⟩ :=
    exists_eq_ok (x := solve Problem.lawless Block.tangle (some 12)) (by decide)
  have htrail : (solve Problem.lawless Block.tangle (some 12)).toOption.map (·.trail.toList) =
      some [3, 2, 1, 0, 1, 2, 0, 1, 2, 0, 1, 2] := by
    decide
  rw [h] at htrail
  have htrail : solution.trail.toList = _ := Option.some.inj htrail
  have hlt : 11 < solution.visits := by
    rw [Solution.visits, ← Array.length_toList, htrail]
    decide
  have hword : solve Problem.lawless Block.tangle (some (12 : UInt64).toNat) = .ok solution := h
  obtain ⟨-, hnone, -, hlower, -⟩ := solve_cutoff hword
  obtain ⟨unsettled, hunsettled, hlimit, hstopped⟩ := hlower hlt
  exact ⟨solution, unsettled, h, hnone, hunsettled, hlimit, by rw [hstopped, htrail]; rfl⟩

end FlowFacts
