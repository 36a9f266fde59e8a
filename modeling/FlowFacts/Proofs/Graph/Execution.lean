import FlowFacts.Proofs.Graph.History
import FlowFacts.Proofs.Pruning.Execution
import FlowFacts.Proofs.Segment.Execution

/-!
# Graphs run like their routines

Building takes a stream through two changes of form: it is cut into blocks, and the blocks are
pruned. Each keeps what a run carries out and how it stops, and the analyses of the plan do not
touch what the blocks do. So a graph runs like the routine that it was built from, whatever the
operations mean.

## Main results

* `Graph.exists_of_bare` — the two changes of form
* `Graph.alike_build` — a routine and its graph run alike
-/

namespace FlowFacts

namespace Graph

/-- A bare graph has the blocks that are left of the provisional ones. -/
theorem exists_of_bare {r : Routine} {g : Graph} (h : bare r = .ok g) :
    ∃ blocks pruned, r.provisional = .ok blocks ∧ prune blocks = .ok pruned ∧
      g.tempCount = r.tempCount ∧ SameShape g.blocks pruned.blocks := by
  obtain ⟨blocks, pruned, hblocks, hpruned, rfl⟩ := bare_eq_ok_iff.mp h
  exact ⟨blocks, pruned, hblocks, hpruned, rfl, .refl _⟩

/-- **A routine and its graph run alike.** Whatever operations do and whichever temps are zero, the
two runs from a state carry out the same operations in the same order, and stop alike if they
stop. -/
theorem alike_build {σ : Type} (m : Interpretation σ) {r : Routine} {p : Plan} {g : Graph}
    (h : build r p = .ok g) (s : σ) :
    Alike (Routine.run m r.code s) (Block.run m g.blocks (.start 0) s) := by
  refine build_induction h
    (P := fun g => Alike (Routine.run m r.code s) (Block.run m g.blocks (.start 0) s)) ?_ ?_
  · intro g₀ hbare
    obtain ⟨blocks, pruned, hblocks, hpruned, -, hshape⟩ := exists_of_bare hbare
    rw [hshape.run_eq]
    exact (Routine.alike_provisional m hblocks s).trans (alike_pruned m hpruned s)
  · intro g₁ g₂ c hg₁ hc hstep
    rw [(hstep.sameShape hc).run_eq]
    exact hg₁

end Graph

/-- A loop that is left when its temp is zero. It goes back through a redirect, past code that
cannot run. -/
def Routine.loop : Routine where
  name := "loop"
  code := [
    .op (.const ⟨0⟩ (.int 3)),
    .mark ⟨0⟩,
    .transfer (.branch .zero ⟨0⟩ ⟨1⟩),
    .op (.binary .sub ⟨0⟩ ⟨0⟩ ⟨1⟩),
    .transfer (.jump ⟨2⟩),
    .op (.param ⟨1⟩),
    .memo "back to the test",
    .mark ⟨2⟩,
    .transfer (.jump ⟨0⟩),
    .mark ⟨1⟩,
    .transfer (.ret (some ⟨0⟩))]

/-- The state is a number that every operation lowers, and all temps have it as their value. -/
def Interpretation.countdown : Interpretation Nat where
  effect _ s := s - 1
  isZero _ s := s == 0

theorem Graph.alike_build_loop :
    ∃ g, Graph.build .loop .full = .ok g ∧
      Alike (Routine.run .countdown Routine.loop.code 4)
        (Block.run .countdown g.blocks (.start 0) 4) := by
  obtain ⟨g, hg⟩ := exists_eq_ok (x := Graph.build .loop .full) (by decide +kernel)
  exact ⟨g, hg, alike_build .countdown hg 4⟩

end FlowFacts
