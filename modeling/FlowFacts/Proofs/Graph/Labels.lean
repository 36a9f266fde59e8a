import FlowFacts.Proofs.Graph.Execution
import FlowFacts.Proofs.Pruning.Survivors
import FlowFacts.Proofs.Segment.Numbering

/-!
# Where labels lead

A graph keeps a block for each label, so that what is known about a label of the stream can be found
in the graph. The block is found by a chase of its own, which gives up quietly where it fails, while
jumps are threaded by another one. Both follow the same redirects from the same place, so a branch
to a label and the label itself end up at the same block.

A label has no block if it is not targeted or not placed, if nothing that may run leads to it, or if
it stands on a circle of redirects. Then no block that is kept branches to it.

## Main definitions

* `Transfer.AimsAt` — a terminator goes to a block where a transfer goes to its label
* `Graph.LabelsAgree` — labels and jumps of a graph agree

## Main results

* `Routine.labelBlock?_prunedGraph_eq_some_iff` — which block a label stands for
* `Transfer.AimsAt.threads` — threading moves a target to where its block lands
* `Graph.labelsAgree_build` — labels and jumps agree in every graph that is built
-/

namespace FlowFacts

/-- The terminator goes to block `k` where the transfer goes to its label. A branch that need not be
one has become a jump. -/
inductive Transfer.AimsAt (k : Nat) : Transfer → Terminator → Prop
  | jump {l : Label} : AimsAt k (.jump l) (.jump k)
  | branch {test : Test} {c : Temp} {l : Label} {f : Nat} :
      AimsAt k (.branch test c l) (.branch test c k f)
  | merged {test : Test} {c : Temp} {l : Label} : AimsAt k (.branch test c l) (.jump k)

namespace Transfer.AimsAt

variable {p : Nat} {x : Transfer} {y z : Terminator}

theorem mem_successors (h : x.AimsAt p y) : p ∈ y.successors := by
  cases h <;> simp [Terminator.successors]

/-- Threading moves a target along. -/
theorem threads {L : Nat → Nat → Prop} (h : x.AimsAt p y) (hz : y.Threads L z) :
    ∃ k, L p k ∧ x.AimsAt k z := by
  cases h with
  | jump =>
    cases hz with
    | jump hk => exact ⟨_, hk, .jump⟩
  | branch =>
    cases hz with
    | branch hk _ => exact ⟨_, hk, .branch⟩
    | merged hk _ => exact ⟨_, hk, .merged⟩
  | merged =>
    cases hz with
    | jump hk => exact ⟨_, hk, .merged⟩

end Transfer.AimsAt

/-- A segment that ends in a branch goes to the place of the label. -/
theorem Segment.exists_aimsAt {segments : List Segment} {s : Segment} {k : Nat} {x : Transfer}
    {y : Terminator} {l : Label} (h : s.terminator segments k = .ok y) (hx : s.exit = some x)
    (hl : x.target? = some l) : ∃ p, place? segments l = some p ∧ x.AimsAt p y := by
  rw [terminator, hx] at h
  cases x with
  | ret v => cases hl
  | jump l' =>
    cases hl
    obtain ⟨p, hp, rfl⟩ := map_eq_ok_iff.mp h
    exact ⟨p, resolve_eq_ok_iff.mp hp, .jump⟩
  | branch test c l' =>
    cases hl
    obtain ⟨p, hp, rfl⟩ := map_eq_ok_iff.mp h
    exact ⟨p, resolve_eq_ok_iff.mp hp, .branch⟩

/-! ### Labels -/

namespace Routine

variable {r : Routine} {blocks : List (Block r.tempCount)} {pruned : Pruned r.tempCount} {l : Label}
  {k : Nat}

/-- A label stands for the block that its place is forwarded to. -/
theorem labelBlock?_prunedGraph (r : Routine) (pruned : Pruned r.tempCount) (l : Label) :
    (r.prunedGraph pruned).labelBlock? l =
      (Segment.place? r.segments l).bind fun b => pruned.forward.getD b none :=
  r.block_placedLabels (fun b => pruned.forward.getD b none) l

theorem mem_targets_of_place? (h : Segment.place? r.segments l = some k) : l ∈ r.targets := by
  obtain ⟨s, hs, hl⟩ := Segment.exists_place?_iff.mp ⟨k, h⟩
  have hmem : .mark l ∈ r.relevant :=
    r.flatMap_code_eq_relevant ▸ List.mem_flatMap.mpr ⟨s, hs, Segment.mark_mem_code.mpr hl⟩
  simpa [Instr.isRelevant] using (List.mem_filter.mp hmem).2

theorem lt_length_of_place? (h : r.provisional = .ok blocks)
    (hk : Segment.place? r.segments l = some k) : k < blocks.length := by
  rw [length_provisional h]
  exact Nat.lt_add_right _ (Segment.lt_length_of_place? hk)

/-- A label with a place stands for the block at which control to that place lands. -/
theorem labelBlock?_eq_some_iff_lands (h : r.provisional = .ok blocks)
    (hpruned : prune blocks = .ok pruned) {p : Nat} (hp : Segment.place? r.segments l = some p) :
    (r.prunedGraph pruned).labelBlock? l = some k ↔ MayRun blocks p ∧ Lands blocks p k := by
  rw [labelBlock?_prunedGraph, hp, Option.bind_some, forward_eq_some_iff hpruned,
    and_iff_right (lt_length_of_place? h hp)]

/-- Which block a label stands for. -/
theorem labelBlock?_prunedGraph_eq_some_iff (h : r.provisional = .ok blocks)
    (hpruned : prune blocks = .ok pruned) :
    (r.prunedGraph pruned).labelBlock? l = some k ↔ l ∈ r.targets ∧ .mark l ∈ r.code ∧
      ∃ p j c, r.lastMarkNumber? l = some p ∧ MayRun blocks p ∧ Leads blocks j p c ∧
        (survivors blocks)[k]? = some c := by
  have htargets := r.targetsExist_provisional h
  have hleads : ∀ {p}, Segment.place? r.segments l = some p → MayRun blocks p →
      (Lands blocks p k ↔ ∃ j c, Leads blocks j p c ∧ (survivors blocks)[k]? = some c) :=
    fun hp hrun => lands_iff_leads htargets hrun (lt_length_of_place? h hp)
  rw [lastMarkNumber?_eq]
  constructor
  · intro hk
    cases hp : Segment.place? r.segments l with
    | none =>
      rw [labelBlock?_prunedGraph, hp] at hk
      cases hk
    | some p =>
      obtain ⟨hrun, hlands⟩ := (labelBlock?_eq_some_iff_lands h hpruned hp).mp hk
      obtain ⟨j, c, hlead, hc⟩ := (hleads hp hrun).mp hlands
      exact ⟨mem_targets_of_place? hp, mark_mem_of_place? hp, p, j, c, rfl, hrun, hlead, hc⟩
  · rintro ⟨-, -, p, j, c, hp, hrun, hlead, hc⟩
    exact (labelBlock?_eq_some_iff_lands h hpruned hp).mpr
      ⟨hrun, (hleads hp hrun).mpr ⟨j, c, hlead, hc⟩⟩

/-- A block that is kept branches to the block that its label stands for. -/
theorem exists_labelBlock?_aimsAt (h : r.provisional = .ok blocks)
    (hpruned : prune blocks = .ok pruned) {m i : Nat} {s : Segment} {x : Transfer}
    (hm : (survivors blocks)[m]? = some i) (hs : r.segments[i]? = some s) (hx : s.exit = some x)
    (hl : x.target? = some l) :
    ∃ k b, (r.prunedGraph pruned).labelBlock? l = some k ∧ pruned.blocks[m]? = some b ∧
      x.AimsAt k b.terminator := by
  have htargets := r.targetsExist_provisional h
  have hlt : m < pruned.blocks.length :=
    length_pruned hpruned ▸ (List.getElem?_eq_some_iff.mp hm).1
  have hb := List.getElem?_eq_getElem hlt
  obtain ⟨i', b₀, hm', hb₀, -, hthreads⟩ := exists_survivor_of_pruned hpruned hb
  obtain rfl := Option.some.inj (hm.symm.trans hm')
  obtain ⟨b₁, hb₁, -, hterm⟩ := (r.cutInto_provisional h).block hs
  obtain rfl := Option.some.inj (hb₀.symm.trans hb₁)
  obtain ⟨p, hp, haims⟩ := Segment.exists_aimsAt hterm hx hl
  obtain ⟨k, hlands, haims'⟩ := haims.threads hthreads
  have hrun := (mayRun_of_mem_survivors htargets (List.mem_of_getElem? hm) hb₀
    haims.mem_successors).1
  exact ⟨k, _, (labelBlock?_eq_some_iff_lands h hpruned hp).mpr ⟨hrun, hlands⟩, hb, haims'⟩

end Routine

/-! ### Graphs -/

namespace Graph

/-- Commands leave the labels alone. -/
theorem Step.labelBlock?_eq {g g' : Graph} {c : Command} (h : g.Step c g') (l : Label) :
    g'.labelBlock? l = g.labelBlock? l := by
  cases h <;> rfl

/-- A graph that is built has the labels and, up to facts, the blocks of a pruned one. -/
theorem exists_of_build {r : Routine} {p : Plan} {g : Graph} (h : build r p = .ok g) :
    ∃ blocks pruned, r.provisional = .ok blocks ∧ prune blocks = .ok pruned ∧
      (∀ l, g.labelBlock? l = (r.prunedGraph pruned).labelBlock? l) ∧
      SameShape pruned.blocks g.blocks := by
  refine build_induction h (P := fun g => ∃ blocks pruned, r.provisional = .ok blocks ∧
    prune blocks = .ok pruned ∧ (∀ l, g.labelBlock? l = (r.prunedGraph pruned).labelBlock? l) ∧
    SameShape pruned.blocks g.blocks) ?_ ?_
  · intro g₀ hbare
    obtain ⟨blocks, pruned, hblocks, hpruned, rfl⟩ := bare_eq_ok_iff.mp hbare
    exact ⟨blocks, pruned, hblocks, hpruned, fun _ => rfl, .refl _⟩
  · rintro g₁ g₂ c ⟨blocks, pruned, hblocks, hpruned, hlabels, hshape⟩ hc hstep
    exact ⟨blocks, pruned, hblocks, hpruned, fun l => (hstep.labelBlock?_eq l).trans (hlabels l),
      hshape.trans (hstep.sameShape hc).symm⟩

/-- What labels stand for in a graph, and that jumps agree with it. The provisional blocks of the
routine are given. -/
structure LabelsAgree (r : Routine) (blocks : List (Block r.tempCount)) (g : Graph) : Prop where
  labelBlock?_eq_some_iff : ∀ {l : Label} {k : Nat}, g.labelBlock? l = some k ↔
    l ∈ r.targets ∧ .mark l ∈ r.code ∧ ∃ p j c, r.lastMarkNumber? l = some p ∧
      MayRun blocks p ∧ Leads blocks j p c ∧ (survivors blocks)[k]? = some c
  lt_length : ∀ {l : Label} {k : Nat}, g.labelBlock? l = some k → k < g.blocks.length
  /-- A block that is kept and ends in a branch of the stream goes where the label leads. -/
  aimsAt : ∀ {m i : Nat} {group : List (Instr × Nat)} {x : Transfer} {l : Label},
    (survivors blocks)[m]? = some i → r.groups[i]? = some group →
    group.getLast? = some (.transfer x, i) → x.target? = some l →
    ∃ k b, g.labelBlock? l = some k ∧ g.blocks[m]? = some b ∧ x.AimsAt k b.terminator

/-- **Labels agree with jumps.** A label stands for the block that redirects lead to from its last
mark, if that may run, and branches to the label have become branches to that block. -/
theorem labelsAgree_build {r : Routine} {p : Plan} {g : Graph} (h : build r p = .ok g) :
    ∃ blocks, r.provisional = .ok blocks ∧ LabelsAgree r blocks g := by
  obtain ⟨blocks, pruned, hblocks, hpruned, hlabels, hshape⟩ := exists_of_build h
  refine ⟨blocks, hblocks, ?_, ?_, ?_⟩
  · intro l k
    rw [hlabels]
    exact r.labelBlock?_prunedGraph_eq_some_iff hblocks hpruned
  · intro l k hk
    rw [hlabels, r.labelBlock?_prunedGraph_eq_some_iff hblocks hpruned] at hk
    obtain ⟨-, -, _, _, _, -, -, -, hc⟩ := hk
    rw [← hshape.length_eq, length_pruned hpruned]
    exact (List.getElem?_eq_some_iff.mp hc).1
  · intro m i group x l hm hgroup hlast hl
    obtain ⟨s, hs, rfl⟩ := Routine.exists_of_getElem?_groups hgroup
    have hx : s.exit = some x := Segment.getLast?_code_eq_transfer_iff.mp (by simpa using hlast)
    obtain ⟨k, b, hk, hb, haims⟩ := r.exists_labelBlock?_aimsAt hblocks hpruned hm hs hx hl
    obtain ⟨b', hb', -, hterm⟩ := hshape.exists_getElem? hb
    exact ⟨k, b', (hlabels l).trans hk, hb', hterm ▸ haims⟩

/-- In `Routine.loop`, block 2 jumps to a label that marks a redirect, and then jumps to where the
redirect leads. -/
theorem labelsAgree_build_loop :
    ∃ g blocks b, build .loop .full = .ok g ∧ Routine.loop.provisional = .ok blocks ∧
      survivors blocks = [0, 1, 2, 5] ∧ LabelsAgree .loop blocks g ∧
      g.labelBlock? ⟨2⟩ = some 1 ∧ g.blocks[2]? = some b ∧
      Transfer.AimsAt 1 (.jump ⟨2⟩) b.terminator := by
  have hloop : (fun g => g.labelBlock? ⟨2⟩) <$> build .loop .full = .ok (some 1) := by
    decide +kernel
  have hprovisional : survivors <$> Routine.loop.provisional = .ok [0, 1, 2, 5] := by
    decide +kernel
  obtain ⟨g, hg, hlabel⟩ := map_eq_ok_iff.mp hloop
  obtain ⟨blocks, hblocks, hsurvivors⟩ := map_eq_ok_iff.mp hprovisional
  obtain ⟨blocks', hblocks', hagree⟩ := labelsAgree_build hg
  obtain rfl := Except.ok.inj (hblocks.symm.trans hblocks')
  obtain ⟨k, b, hk, hb, haims⟩ := hagree.aimsAt (m := 2) (i := 2) (x := .jump ⟨2⟩)
    (by rw [hsurvivors]; rfl) rfl rfl rfl
  obtain rfl := Option.some.inj (hlabel.symm.trans hk)
  exact ⟨g, blocks, b, hg, hblocks, hsurvivors, hagree, hlabel, hb, haims⟩

end Graph

end FlowFacts
