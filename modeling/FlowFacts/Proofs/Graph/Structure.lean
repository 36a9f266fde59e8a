import FlowFacts.Proofs.Graph.Temps
import FlowFacts.Proofs.Pruning.Structure
import FlowFacts.Proofs.Segment.Targets

/-!
# Graphs stay well formed

A graph starts out with pruned blocks, which are structured. Commands leave the frames of the blocks
alone, and with them the structure. They touch the bodies only by inserting operations, and each of
these names temps that the graph has. So no history takes a graph out of its well-formed states,
whichever of its commands fail.

## Main definitions

* `Graph.WellFormed` — the blocks are structured, and temps and sets fit the graph

## Main results

* `Graph.Step.map_frame` — commands leave the frames alone
* `Graph.wellFormed_applyAll` — graphs are well formed after every history
-/

namespace FlowFacts

/-- The sets that a block stores. -/
def Block.sets {n : Nat} (b : Block n) : List (TempSet n) :=
  [b.defs, b.uses, b.liveIn, b.liveOut] ++ b.body.map Line.liveOut

namespace Graph

/-- The blocks are structured, and nothing in them is out of place: bodies hold no transfers, marks
or memos, all temps are temps of the graph, and all sets have room for all of these. -/
structure WellFormed (g : Graph) : Prop extends Structured g.blocks where
  ordinary : ∀ b ∈ g.blocks, ∀ l ∈ b.body, (∀ x, Instr.op l.op ≠ .transfer x) ∧
    (∀ m, Instr.op l.op ≠ .mark m) ∧ ∀ text, Instr.op l.op ≠ .memo text
  tempsFit : g.TempsFit
  capacity_eq : ∀ b ∈ g.blocks, ∀ s ∈ b.sets, s.bits.capacity = g.tempCount

/-- Bodies and sets are what they should be by their types. -/
theorem WellFormed.of_structured {g : Graph} (h : Structured g.blocks) (htemps : g.TempsFit) :
    g.WellFormed where
  toStructured := h
  ordinary _ _ _ _ := ⟨nofun, nofun, nofun⟩
  tempsFit := htemps
  capacity_eq _ _ s _ := s.capacity_eq

/-- The graph has the temps of the routine, and its bodies have only operations of the routine and
operations that one of the commands inserts. -/
structure DrawnFrom (r : Routine) (cs : List Command) (g : Graph) : Prop where
  tempCount_eq : g.tempCount = r.tempCount
  ops : ∀ b ∈ g.blocks, ∀ o ∈ b.ops,
    Instr.op o ∈ r.code ∨ ∃ c ∈ cs, c.inserted? = some (.op o)

/-! ### Bare graphs -/

theorem structured_bare {r : Routine} {g : Graph} (h : bare r = .ok g) :
    Structured g.blocks := by
  obtain ⟨blocks, pruned, hblocks, hpruned, rfl⟩ := bare_eq_ok_iff.mp h
  exact structured_of_prune (r.targetsExist_provisional hblocks) hpruned

theorem wellFormed_bare {r : Routine} {g : Graph} (h : bare r = .ok g) : g.WellFormed :=
  .of_structured (structured_bare h) (tempsFit_bare h)

theorem drawnFrom_bare {r : Routine} {g : Graph} (h : bare r = .ok g) (cs : List Command) :
    g.DrawnFrom r cs := by
  obtain ⟨blocks, pruned, hblocks, hpruned, htemps, hshape⟩ := exists_of_bare h
  refine ⟨htemps, fun b' hb' o ho => .inl ?_⟩
  obtain ⟨k, hk⟩ := List.getElem?_of_mem hb'
  obtain ⟨b, hb, hops, -⟩ := hshape.exists_getElem? hk
  obtain ⟨i, b₀, hb₀, hops₀, -⟩ := exists_of_pruned hpruned hb
  exact r.mem_code_of_provisional hblocks hb₀ (hops₀ ▸ hops ▸ ho)

/-! ### Commands -/

section Step

variable {g g' : Graph} {c : Command}

/-- Commands leave the frames alone. -/
theorem Step.map_frame (h : g.Step c g') :
    g'.blocks.map Block.frame = g.blocks.map Block.frame := by
  cases h with
  | liveness hset => exact map_eq_of_setLiveness hset fun _ _ _ _ => rfl
  | lineLiveness => exact List.map_map
  | chains hset =>
    exact map_eq_of_setChains (f := fun _ b => b.frame) (e := Line.op) hset (fun _ _ _ => rfl)
      fun _ _ => rfl
  | insertion _ _ hb => exact map_eq_of_insertion hb rfl
  | append => exact g.map_eq_of_append _ _ fun _ _ => rfl

theorem Step.wellFormed (h : g.Step c g') (hg : g.WellFormed) : g'.WellFormed :=
  .of_structured (hg.toStructured.of_map_eq h.map_frame) (h.tempsFit hg.tempsFit)

theorem structured_build {r : Routine} {p : Plan} {g : Graph} (h : build r p = .ok g) :
    Structured g.blocks :=
  (build_induction h wellFormed_bare fun hg _ hstep => hstep.wellFormed hg).toStructured

theorem Step.drawnFrom {r : Routine} {cs : List Command} (h : g.Step c g')
    (hc : c.isInsertion = true → c ∈ cs) (hg : g.DrawnFrom r cs) : g'.DrawnFrom r cs := by
  refine ⟨h.tempCount_eq.trans hg.tempCount_eq, fun b' hb' o ho => ?_⟩
  obtain ⟨b, hb, -, hops⟩ := h.exists_origin hb'
  rcases hops o ho with hold | ⟨hi, -⟩
  · exact hg.ops b hb o hold
  · exact .inr ⟨c, hc (Command.isInsertion_of_inserted? hi), hi⟩

end Step

/-- **Graphs stay well formed.** After every history of commands, some of which may fail, the graph
of a routine is well formed, and it has nothing that is neither from the routine nor inserted. -/
theorem wellFormed_applyAll {r : Routine} {p : Plan} {g : Graph} (h : build r p = .ok g)
    (cs : List Command) : (g.applyAll cs).WellFormed ∧ (g.applyAll cs).DrawnFrom r cs := by
  constructor
  · refine applyAll_induction (fun _ hg hstep => hstep.wellFormed hg) ?_
    exact build_induction h wellFormed_bare fun hg _ hstep => hstep.wellFormed hg
  · refine applyAll_induction (P := DrawnFrom r cs)
      (fun hc hg hstep => hstep.drawnFrom (fun _ => hc) hg) ?_
    refine build_induction h (fun hbare => drawnFrom_bare hbare cs) fun hg hc hstep => ?_
    exact hstep.drawnFrom (fun hins => by rw [hc] at hins; cases hins) hg

end Graph

/-- Commands for the graph of `Routine.loop`. Only one of the insertions is possible, the limit is
too low for liveness, and without it lines have none. -/
def Command.mixed : List Command := [
  .insertAfter 0 0 (.op (.binary .add ⟨1⟩ ⟨0⟩ ⟨0⟩)),
  .insertBefore 0 0 (.memo "no operation"),
  .insertBefore 0 0 (.op (.param ⟨2⟩)),
  .insertBefore 7 0 (.op (.param ⟨0⟩)),
  .liveness (some 1),
  .lineLiveness,
  .append 1 "text",
  .chains]

theorem Graph.wellFormed_applyAll_loop :
    ∃ g, Graph.build .loop .structureOnly = .ok g ∧
      (Command.mixed.map fun c => (g.perform c).isOk) =
        [true, false, false, false, false, false, true, true] ∧
      (g.applyAll Command.mixed).WellFormed ∧
      (g.applyAll Command.mixed).DrawnFrom .loop Command.mixed := by
  have hloop : (fun g : Graph => Command.mixed.map fun c => (g.perform c).isOk) <$>
      Graph.build .loop .structureOnly =
        .ok [true, false, false, false, false, false, true, true] := by
    decide +kernel
  obtain ⟨g, hg, hmixed⟩ := map_eq_ok_iff.mp hloop
  exact ⟨g, hg, hmixed, wellFormed_applyAll hg Command.mixed⟩

end FlowFacts
