import FlowFacts.Proofs.Graph.Structure
import FlowFacts.Proofs.Pruning.Survivors

/-!
# When building fails

Building a graph without analyses can fail in two ways. The stream cannot be cut if it has a branch
to a label that is not placed, and the blocks cannot be pruned if one that stays goes astray. Both
are reported for the first place where they occur, and there is no third way.

In particular no lookup goes wrong on the way: targets are blocks throughout, each block has a
count, and if there are blocks at all, there is a first one after pruning too.

## Main definitions

* `Routine.Outcome` — what building without analyses comes to

## Main results

* `Graph.bare_eq_error_iff` — the two ways in which building fails
* `Graph.build_structureOnly_exact` — which error there is, and when there is none
-/

namespace FlowFacts

/-- The result of building a routine without analyses. -/
structure Routine.Outcome (r : Routine) (result : Except Error Graph) : Prop where
  /-- The first branch to a label that is not placed is reported. -/
  unresolved_iff : ∀ l, result = .error (.unresolvedLabel l) ↔ r.unplaced? = some l
  /-- If there is none, there are blocks. -/
  provisional_iff : (∃ blocks, r.provisional = .ok blocks) ↔ r.unplaced? = none
  /-- Of these, the first one that goes astray is reported. -/
  unterminated_iff : ∀ b limit, result = .error (.unterminatedChase b limit) ↔
    ∃ blocks, r.provisional = .ok blocks ∧ IsLeast {b | GoesAstray blocks b} b ∧
      limit = blocks.length
  /-- If none does, there is a graph. -/
  built_iff : (∃ g, result = .ok g) ↔
    ∃ blocks, r.provisional = .ok blocks ∧ ∀ b, ¬GoesAstray blocks b
  /-- Nothing else is reported. -/
  error_cases : ∀ e, result = .error e →
    (∃ l, e = .unresolvedLabel l) ∨ ∃ b limit, e = .unterminatedChase b limit

namespace Graph

variable {r : Routine}

theorem build_structureOnly (r : Routine) : build r .structureOnly = bare r := by
  have hcommands : Plan.structureOnly.commands = [] := by decide
  rw [build, hcommands]
  cases bare r <;> rfl

/-- **When building fails.** Some branch goes to a label that is not placed, or some block that
stays goes astray. -/
theorem bare_eq_error_iff {e : Error} :
    bare r = .error e ↔
      (∃ l, r.unplaced? = some l ∧ e = .unresolvedLabel l) ∨
      ∃ blocks b, r.provisional = .ok blocks ∧ IsLeast {b | GoesAstray blocks b} b ∧
        e = .unterminatedChase b blocks.length := by
  rw [bare, bind_eq_error_iff, Routine.provisional_eq_error_iff]
  refine or_congr_right (exists_congr fun blocks => ?_)
  constructor
  · rintro ⟨hblocks, h⟩
    rcases bind_eq_error_iff.mp h with h | ⟨_, -, h⟩
    · obtain ⟨b, hb, he⟩ := (prune_eq_error_iff (r.targetsExist_provisional hblocks)).mp h
      exact ⟨b, hblocks, hb, he⟩
    · cases h
  · rintro ⟨b, hblocks, hb, he⟩
    have h := (prune_eq_error_iff (r.targetsExist_provisional hblocks)).mpr ⟨b, hb, he⟩
    exact ⟨hblocks, bind_eq_error_iff.mpr (.inl h)⟩

theorem exists_bare_iff :
    (∃ g, bare r = .ok g) ↔ ∃ blocks, r.provisional = .ok blocks ∧ ∀ b, ¬GoesAstray blocks b := by
  constructor
  · rintro ⟨g, h⟩
    obtain ⟨blocks, pruned, hblocks, hpruned, -⟩ := bare_eq_ok_iff.mp h
    have htargets := r.targetsExist_provisional hblocks
    exact ⟨blocks, hblocks, not_goesAstray_of_prune_eq_ok htargets hpruned⟩
  · rintro ⟨blocks, hblocks, hno⟩
    cases h : bare r with
    | ok g => exact ⟨g, rfl⟩
    | error e =>
      rcases bare_eq_error_iff.mp h with ⟨l, hl, -⟩ | ⟨blocks', b, hblocks', hb, -⟩
      · rw [Routine.unplaced?_of_provisional_eq_ok hblocks] at hl
        cases hl
      · obtain rfl := Except.ok.inj (hblocks.symm.trans hblocks')
        exact absurd hb.1 (hno b)

theorem outcome_bare (r : Routine) : r.Outcome (bare r) where
  unresolved_iff l := by
    rw [bare_eq_error_iff]
    constructor
    · rintro (⟨_, hl, he⟩ | ⟨_, _, -, -, he⟩)
      · cases he
        exact hl
      · cases he
    · exact fun hl => .inl ⟨l, hl, rfl⟩
  provisional_iff := Routine.exists_provisional_iff
  unterminated_iff b limit := by
    rw [bare_eq_error_iff]
    constructor
    · rintro (⟨_, -, he⟩ | ⟨blocks, _, hblocks, hb, he⟩)
      · cases he
      · cases he
        exact ⟨blocks, hblocks, hb, rfl⟩
    · rintro ⟨blocks, hblocks, hb, rfl⟩
      exact .inr ⟨blocks, b, hblocks, hb, rfl⟩
  built_iff := exists_bare_iff
  error_cases e h := by
    rcases bare_eq_error_iff.mp h with ⟨l, -, rfl⟩ | ⟨blocks, b, -, -, rfl⟩
    · exact .inl ⟨l, rfl⟩
    · exact .inr ⟨b, _, rfl⟩

/-- **The outcome of building.** There is one error for each way of failing, and no other. Blocks,
their counts and what redirects lead to are found wherever they are looked up. If there are blocks,
the entry survives, and the graph has one block for each survivor, so it has a first one. -/
theorem build_structureOnly_exact (r : Routine) :
    r.Outcome (build r .structureOnly) ∧
      (∀ blocks, r.provisional = .ok blocks →
        TargetsExist blocks ∧ (liveCounts blocks).length = blocks.length ∧
          (blocks ≠ [] → 0 ∈ survivors blocks) ∧
          ∀ (i : Nat) (b : Block r.tempCount), (marked blocks)[i]? = some b → b.cancelled = false →
            ∀ s ∈ b.successors, ∀ k c, Leads blocks k s c →
              Stays blocks c ∧ chase (marked blocks) blocks.length s = .ok c) ∧
      ∀ g, build r .structureOnly = .ok g →
        TargetsExist g.blocks ∧ ∃ blocks, r.provisional = .ok blocks ∧
          g.blocks.length = (survivors blocks).length := by
  rw [build_structureOnly]
  refine ⟨outcome_bare r, fun blocks hblocks => ?_, fun g hg => ?_⟩
  · have htargets := r.targetsExist_provisional hblocks
    refine ⟨htargets, length_liveCounts blocks, zero_mem_survivors,
      fun i b hi hb s hs k c hlead => ?_⟩
    obtain ⟨hrun, hlt⟩ := mayRun_successor htargets hi hb hs
    exact ⟨hlead.stays htargets hrun hlt, chase_of_leads htargets hlead hrun hlt hlead.le_length⟩
  · obtain ⟨blocks, pruned, hblocks, hpruned, rfl⟩ := bare_eq_ok_iff.mp hg
    exact ⟨(structured_bare hg).targetsExist, blocks, hblocks, length_pruned hpruned⟩

end Graph

/-- Behind the entry, two redirects lead to each other. -/
def Routine.circle : Routine where
  name := "circle"
  code := [
    .op (.const ⟨0⟩ (.int 0)),
    .transfer (.branch .zero ⟨0⟩ ⟨1⟩),
    .mark ⟨0⟩,
    .transfer (.jump ⟨1⟩),
    .mark ⟨1⟩,
    .transfer (.jump ⟨0⟩)]

theorem Graph.build_structureOnly_exact_circle :
    ∃ blocks, Routine.circle.provisional = .ok blocks ∧ IsLeast {b | GoesAstray blocks b} 0 ∧
      3 = blocks.length :=
  ((build_structureOnly_exact .circle).1.unterminated_iff 0 3).mp (by decide +kernel)

end FlowFacts
