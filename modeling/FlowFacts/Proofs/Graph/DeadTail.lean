import FlowFacts.Proofs.Block.Parts
import FlowFacts.Proofs.Chain.Depth
import FlowFacts.Proofs.Graph.Labels
import FlowFacts.Proofs.Graph.Structure
import FlowFacts.Proofs.Liveness.Fresh
import FlowFacts.Proofs.Liveness.Limit
import FlowFacts.Proofs.Liveness.Walk
import FlowFacts.Proofs.Pruning.Padding
import FlowFacts.Proofs.Segment.Tail

/-!
# Dead tails

A routine that ends in a jump or a return may be followed by code that control never comes to. Its
blocks are padding, which pruning removes, so the graph is that of the routine alone: it has the
same blocks in the same order, and every label of the routine stands for the same block.

What the tail does change is the number of temps. That is the capacity of all sets of the graph, and
the limit on the visits of the liveness solve goes up with it. Neither shows in the facts that are
stored.

## Main definitions

* `Block.Matches` — two blocks are the same up to the capacity of their sets

## Main results

* `DeadTail.padded` — the blocks of a tail are padding
* `DeadTail.sameShape_bare`, `DeadTail.labelBlock?_bare` — bare graphs are the same
* `Graph.matches_of_build_full` — facts do not depend on the capacity
* `Graph.build_full_deadTail` — so graphs with all facts are the same too
-/

namespace FlowFacts

variable {n n' : Nat} {r : Routine} {tail : List Instr}

/-! ### Bare graphs -/

/-- The blocks of a dead tail are padding. -/
theorem DeadTail.padded (h : DeadTail r.code tail) {blocks : List (Block r.tempCount)}
    {blocks' : List (Block (r.extend tail).tempCount)} (hblocks : r.provisional = .ok blocks)
    (hblocks' : (r.extend tail).provisional = .ok blocks') : Padded blocks blocks' := by
  have hcut := r.cutInto_provisional hblocks
  have hcut' := (r.extend tail).cutInto_provisional hblocks'
  have hlen : blocks.length = r.segments.length := by
    rw [r.length_provisional hblocks, h.needsExit_eq_false]
    rfl
  refine ⟨?_, r.targetsExist_provisional hblocks, Routine.targetsExist_provisional hblocks',
    fun {k block} hk => ?_, fun {k t block'} hle hk ht => ?_⟩
  · obtain ⟨front, s, _, -, -, hsegments, -⟩ := h.exists_segments
    rw [← List.length_pos_iff, hlen, hsegments]
    simp
  · have hlt : k < r.segments.length := hlen ▸ (List.getElem?_eq_some_iff.mp hk).1
    have hs := List.getElem?_eq_getElem hlt
    have hs' : (r.extend tail).segments[k]? = some r.segments[k] := by
      rw [h.segments_extend, List.getElem?_append_left hlt, hs]
    obtain ⟨b, hb, hops, hterm⟩ := hcut.block hs
    obtain ⟨b', hb', hops', hterm'⟩ := hcut'.block hs'
    obtain rfl := Option.some.inj (hb.symm.trans hk)
    rw [h.terminator_extend hs, hterm] at hterm'
    exact ⟨b', hb', hops'.trans hops.symm, (Except.ok.inj hterm').symm⟩
  · rw [hlen] at hle ⊢
    cases hs : (r.extend tail).segments[k]? with
    | none =>
      rw [Block.successors, (hcut'.beyond hs hk).2] at ht
      cases ht
    | some s =>
      obtain ⟨b', hb', -, hterm'⟩ := hcut'.block hs
      obtain rfl := Option.some.inj (hb'.symm.trans hk)
      exact h.lt_of_tail hs hle hterm' ht

namespace DeadTail

theorem exists_bare_iff (h : DeadTail r.code tail) :
    (∃ g', Graph.bare (r.extend tail) = .ok g') ↔ ∃ g, Graph.bare r = .ok g := by
  constructor
  · rintro ⟨g', hbare'⟩
    obtain ⟨blocks', pruned', hblocks', hpruned', -⟩ := Graph.bare_eq_ok_iff.mp hbare'
    obtain ⟨blocks, hblocks⟩ := h.exists_provisional_extend_iff.mp ⟨blocks', hblocks'⟩
    obtain ⟨pruned, hpruned⟩ := (h.padded hblocks hblocks').exists_prune_iff.mp ⟨_, hpruned'⟩
    exact ⟨_, Graph.bare_eq_ok_iff.mpr ⟨blocks, pruned, hblocks, hpruned, rfl⟩⟩
  · rintro ⟨g, hbare⟩
    obtain ⟨blocks, pruned, hblocks, hpruned, -⟩ := Graph.bare_eq_ok_iff.mp hbare
    obtain ⟨blocks', hblocks'⟩ := h.exists_provisional_extend_iff.mpr ⟨blocks, hblocks⟩
    obtain ⟨pruned', hpruned'⟩ := (h.padded hblocks hblocks').exists_prune_iff.mpr ⟨_, hpruned⟩
    exact ⟨_, Graph.bare_eq_ok_iff.mpr ⟨blocks', pruned', hblocks', hpruned', rfl⟩⟩

/-- With and without the tail, the blocks are the same. -/
theorem sameShape_bare (h : DeadTail r.code tail) {g g' : Graph} (hbare : Graph.bare r = .ok g)
    (hbare' : Graph.bare (r.extend tail) = .ok g') : SameShape g.blocks g'.blocks := by
  obtain ⟨blocks, pruned, hblocks, hpruned, rfl⟩ := Graph.bare_eq_ok_iff.mp hbare
  obtain ⟨blocks', pruned', hblocks', hpruned', rfl⟩ := Graph.bare_eq_ok_iff.mp hbare'
  exact (h.padded hblocks hblocks').sameShape_prune hpruned hpruned'

/-- With and without the tail, every label stands for the same block. -/
theorem labelBlock?_bare (h : DeadTail r.code tail) {g g' : Graph} (hbare : Graph.bare r = .ok g)
    (hbare' : Graph.bare (r.extend tail) = .ok g') (l : Label) :
    g'.labelBlock? l = g.labelBlock? l := by
  obtain ⟨blocks, pruned, hblocks, hpruned, rfl⟩ := Graph.bare_eq_ok_iff.mp hbare
  obtain ⟨blocks', pruned', hblocks', hpruned', rfl⟩ := Graph.bare_eq_ok_iff.mp hbare'
  have hforward : (fun b => pruned'.forward.getD b none) = fun b => pruned.forward.getD b none :=
    funext ((h.padded hblocks hblocks').forward_eq hpruned hpruned')
  rw [Routine.labelBlock?_prunedGraph, Routine.labelBlock?_prunedGraph, hforward]
  rcases h.place?_extend_or l with heq | ⟨hnone, hbeyond⟩
  · rw [heq]
  · rw [hnone, Option.bind_none, Option.bind_eq_none_iff]
    intro j hj
    refine Option.eq_none_iff_forall_ne_some.mpr fun k hk => ?_
    have hlt := ((forward_eq_some_iff hpruned).mp hk).1
    rw [r.length_provisional hblocks, h.needsExit_eq_false] at hlt
    exact Nat.not_lt_of_le (hbeyond j hj) hlt

end DeadTail

/-! ### Capacities -/

theorem Routine.tempCount_le_extend (r : Routine) (tail : List Instr) :
    r.tempCount ≤ (r.extend tail).tempCount := by
  rw [tempCount, tempCount, extend, List.flatMap_append]
  exact supremum_le_append ..

/-- All temps fit as before if the capacity is raised. -/
theorem Graph.TempsFit.fitAlike {g : Graph} (h : g.TempsFit) {m : Nat} (hle : g.tempCount ≤ m) :
    FitAlike m g.blocks := by
  intro b hb a ha
  have hlt := h b hb a.temp (Block.mem_temps_iff.mpr ⟨a, ha, rfl⟩)
  exact iff_of_true hlt (Nat.lt_of_lt_of_le hlt hle)

/-! ### Facts -/

/-- The blocks are the same, up to the capacity of their sets. -/
structure Block.Matches (b : Block n) (b' : Block n') : Prop where
  number_eq : b'.number = b.number
  ops_eq : b'.ops = b.ops
  terminator_eq : b'.terminator = b.terminator
  inDegree_eq : b'.inDegree = b.inDegree
  sets : b.SameSets b'
  lineSets : List.Forall₂ TempSet.SameMembers b.lineSets b'.lineSets
  chains_eq : b'.chains = b.chains

theorem Block.SameSets.of_liveSets {b c : Block n} {b' c' : Block n'} (h : b.SameSets b')
    (hc : c.liveSets = b.liveSets) (hc' : c'.liveSets = b'.liveSets) : c.SameSets c' := by
  simp only [Block.liveSets, Prod.mk.injEq] at hc hc'
  obtain ⟨hdefs, huses, hin, hout⟩ := hc
  obtain ⟨hdefs', huses', hin', hout'⟩ := hc'
  refine ⟨?_, ?_, ?_, ?_⟩
  · rw [hdefs, hdefs']
    exact h.defs
  · rw [huses, huses']
    exact h.uses
  · rw [hin, hin']
    exact h.liveIn
  · rw [hout, hout']
    exact h.liveOut

/-- Exact sets of lines have the same members in blocks of one shape. -/
theorem ExactLineLiveness.sameMembers {blocks : List (Block n)} {blocks' : List (Block n')}
    (h : ExactLineLiveness blocks) (h' : ExactLineLiveness blocks')
    (hshape : SameShape blocks blocks') {k : Nat} {b : Block n} {b' : Block n'}
    (hb : blocks[k]? = some b) (hb' : blocks'[k]? = some b') :
    List.Forall₂ TempSet.SameMembers b.lineSets b'.lineSets := by
  have hlen : b.lineSets.length = b'.lineSets.length := by
    obtain ⟨_, hb'', hops, -⟩ := hshape.exists_getElem? hb
    obtain rfl := Option.some.inj (hb''.symm.trans hb')
    simpa [Block.lineSets, Block.ops] using (congrArg List.length hops).symm
  refine forall₂_of_getElem? hlen fun {i s s'} hs hs' t => ?_
  rw [Block.lineSets, List.getElem?_map] at hs hs'
  obtain ⟨line, hline, rfl⟩ := Option.map_eq_some_iff.mp hs
  obtain ⟨line', hline', rfl⟩ := Option.map_eq_some_iff.mp hs'
  rw [h.mem_liveOut_iff hb hline, h'.mem_liveOut_iff hb' hline']
  exact hshape.liveAt_iff

namespace Graph

/-- What the analyses of the full plan come to. -/
theorem build_full_eq_ok_iff {g : Graph} :
    build r .full = .ok g ↔ ∃ g₀ v live d found, bare r = .ok g₀ ∧
      FlowFacts.setLiveness g₀.blocks none = .ok (v, live) ∧
      FlowFacts.setChains (live.map Block.setLineLiveness) = .ok (d, found) ∧
      { g₀ with
        blocks := found
        computed := ((g₀.computed.union .liveness).union .lineLiveness).union .chains } = g := by
  have hcommands : Plan.full.commands = [.liveness none, .lineLiveness, .chains] := by decide
  rw [build, hcommands, bind_eq_ok_iff]
  constructor
  · rintro ⟨g₀, hbare, h⟩
    obtain ⟨⟨_, g₁⟩, h₁, h⟩ := bind_eq_ok_iff.mp h
    obtain ⟨⟨_, g₂⟩, h₂, h⟩ := bind_eq_ok_iff.mp h
    obtain ⟨⟨_, g₃⟩, h₃, h⟩ := bind_eq_ok_iff.mp h
    cases step_of_perform h₁ with
    | insertion hc => cases hc
    | liveness hlive =>
      cases step_of_perform h₂ with
      | insertion hc => cases hc
      | lineLiveness =>
        cases step_of_perform h₃ with
        | insertion hc => cases hc
        | chains hchains => exact ⟨g₀, _, _, _, _, hbare, hlive, hchains, Except.ok.inj h⟩
  · rintro ⟨g₀, v, live, d, found, hbare, hlive, hchains, rfl⟩
    have hcomputed := Analyses.contains_union_self g₀.computed .liveness
    exact ⟨g₀, hbare, bind_eq_ok_iff.mpr ⟨_, perform_liveness hlive, bind_eq_ok_iff.mpr
      ⟨_, perform_lineLiveness hcomputed, bind_eq_ok_iff.mpr ⟨_, perform_chains hchains, rfl⟩⟩⟩⟩

/-- The full plan fails only where there is no bare graph or the liveness solve does not end. -/
theorem exists_build_full_iff :
    (∃ g, build r .full = .ok g) ↔
      ∃ g₀, bare r = .ok g₀ ∧ ∃ live, FlowFacts.setLiveness g₀.blocks none = .ok live := by
  constructor
  · rintro ⟨g, h⟩
    obtain ⟨g₀, v, live, _, _, hbare, hlive, -⟩ := build_full_eq_ok_iff.mp h
    exact ⟨g₀, hbare, _, hlive⟩
  · rintro ⟨g₀, hbare, ⟨v, live⟩, hlive⟩
    obtain ⟨⟨d, found⟩, hchains⟩ := exists_setChains (live.map Block.setLineLiveness)
    exact ⟨_, build_full_eq_ok_iff.mpr ⟨g₀, v, live, d, found, hbare, hlive, hchains, rfl⟩⟩

/-- Full graphs have exact liveness of lines. -/
theorem exactLineLiveness_of_build_full {g : Graph} (h : build r .full = .ok g) :
    ExactLineLiveness g.blocks := by
  have hfresh := (Reachable.built h).freshLiveness
  obtain ⟨g₀, _, _, _, _, -, -, -, rfl⟩ := build_full_eq_ok_iff.mp h
  refine (hfresh.lines ?_).2
  show (((g₀.computed.union .liveness).union .lineLiveness).union .chains).contains .lineLiveness =
    true
  rw [Analyses.contains_union_of_disjoint (by decide)]
  exact Analyses.contains_union_self ..

/-- If bare graphs have the same blocks, up to the capacity of their sets, then so have graphs with
all facts. -/
theorem matches_of_build_full {r' : Routine} {g₀ g₀' g g' : Graph} (hbare : bare r = .ok g₀)
    (hbare' : bare r' = .ok g₀') (hshape : SameShape g₀.blocks g₀'.blocks)
    (hle : g₀.tempCount ≤ g₀'.tempCount) (hbuild : build r .full = .ok g)
    (hbuild' : build r' .full = .ok g') : List.Forall₂ Block.Matches g.blocks g'.blocks := by
  have hlines := exactLineLiveness_of_build_full hbuild
  have hlines' := exactLineLiveness_of_build_full hbuild'
  have hstructured := structured_build hbuild
  have hstructured' := structured_build hbuild'
  obtain ⟨_, v, live, d, found, hg₀, hlive, hchains, rfl⟩ := build_full_eq_ok_iff.mp hbuild
  obtain ⟨_, v', live', d', found', hg₀', hlive', hchains', rfl⟩ :=
    build_full_eq_ok_iff.mp hbuild'
  obtain rfl := Except.ok.inj (hbare.symm.trans hg₀)
  obtain rfl := Except.ok.inj (hbare'.symm.trans hg₀')
  obtain ⟨_, _, hset, hsame⟩ :=
    hshape.exists_setLiveness_none ((tempsFit_bare hbare).fitAlike hle) hle hlive
  obtain ⟨rfl, rfl⟩ := Prod.mk.inj (Except.ok.inj (hlive'.symm.trans hset))
  have hlined : SameShape (live.map Block.setLineLiveness) (live'.map Block.setLineLiveness) :=
    (sameShape_setLineLiveness live).trans ((sameShape_setLiveness hlive).trans
      (hshape.trans ((sameShape_setLineLiveness live').trans (sameShape_setLiveness hlive')).symm))
  have hfound : SameShape found found' :=
    (sameShape_setChains hchains).trans (hlined.trans (sameShape_setChains hchains').symm)
  have hsets : found.map Block.liveSets = live.map Block.liveSets :=
    (parts_of_setChains hchains).2.1.trans (parts_of_setLineLiveness live).2.1
  have hsets' : found'.map Block.liveSets = live'.map Block.liveSets :=
    (parts_of_setChains hchains').2.1.trans (parts_of_setLineLiveness live').2.1
  refine forall₂_of_getElem? hfound.length_eq fun {k b b'} hk hk' => ?_
  obtain ⟨_, hk'', hops, hterm⟩ := hfound.exists_getElem? hk
  obtain rfl := Option.some.inj (hk''.symm.trans hk')
  refine ⟨?_, hops, hterm, ?_, ?_, hlines.sameMembers hlines' hfound hk hk', ?_⟩
  · rw [hstructured.number_eq hk, hstructured'.number_eq hk']
  · rw [hstructured.inDegree_eq hk, hstructured'.inDegree_eq hk',
      predecessors_congr hfound.map_successors]
  · obtain ⟨c, hc, hcsets⟩ := exists_of_map_eq_map hsets hk
    obtain ⟨c', hc', hcsets'⟩ := exists_of_map_eq_map hsets' hk'
    exact (rel_of_getElem? hsame hc hc').of_liveSets hcsets.symm hcsets'.symm
  · obtain ⟨_, hb', heq⟩ := exists_of_map_eq_map (map_chains_setChains hlined hchains hchains') hk
    obtain rfl := Option.some.inj (hb'.symm.trans hk')
    exact heq

end Graph

/-! ### Graphs with all facts -/

namespace DeadTail

theorem tempCount_le {g g' : Graph} (hbare : Graph.bare r = .ok g)
    (hbare' : Graph.bare (r.extend tail) = .ok g') : g.tempCount ≤ g'.tempCount := by
  obtain ⟨_, pruned, -, -, rfl⟩ := Graph.bare_eq_ok_iff.mp hbare
  obtain ⟨_, pruned', -, -, rfl⟩ := Graph.bare_eq_ok_iff.mp hbare'
  exact r.tempCount_le_extend tail

/-- The liveness solve ends with the tail just if it ends without. -/
theorem exists_setLiveness_iff (h : DeadTail r.code tail) {g g' : Graph}
    (hbare : Graph.bare r = .ok g) (hbare' : Graph.bare (r.extend tail) = .ok g') :
    (∃ live', setLiveness g'.blocks none = .ok live') ↔
      ∃ live, setLiveness g.blocks none = .ok live := by
  have hle := tempCount_le hbare hbare'
  have hfit := (Graph.tempsFit_bare hbare).fitAlike hle
  exact (h.sameShape_bare hbare hbare').exists_setLiveness_none_iff hfit hle

theorem exists_build_full_iff (h : DeadTail r.code tail) :
    (∃ g', Graph.build (r.extend tail) .full = .ok g') ↔ ∃ g, Graph.build r .full = .ok g := by
  rw [Graph.exists_build_full_iff, Graph.exists_build_full_iff]
  constructor
  · rintro ⟨g₀', hbare', hset'⟩
    obtain ⟨g₀, hbare⟩ := h.exists_bare_iff.mp ⟨g₀', hbare'⟩
    exact ⟨g₀, hbare, (h.exists_setLiveness_iff hbare hbare').mp hset'⟩
  · rintro ⟨g₀, hbare, hset⟩
    obtain ⟨g₀', hbare'⟩ := h.exists_bare_iff.mpr ⟨g₀, hbare⟩
    exact ⟨g₀', hbare', (h.exists_setLiveness_iff hbare hbare').mpr hset⟩

end DeadTail

/-- **Dead tails change nothing.** A routine that ends in a jump or a return has the same graph if a
dead tail is put behind it. Both graphs can be built or neither, and they have the same blocks with
the same facts, up to the capacity of the sets. All labels stand for the same blocks. -/
theorem Graph.build_full_deadTail (h : DeadTail r.code tail) :
    ((∃ g', build (r.extend tail) .full = .ok g') ↔ ∃ g, build r .full = .ok g) ∧
      ∀ g g' : Graph, build r .full = .ok g → build (r.extend tail) .full = .ok g' →
        List.Forall₂ Block.Matches g.blocks g'.blocks ∧
          ∀ l : Label, g'.labelBlock? l = g.labelBlock? l := by
  refine ⟨h.exists_build_full_iff, fun g g' hbuild hbuild' => ?_⟩
  obtain ⟨g₀, _, _, _, _, hbare, -, -, hg⟩ := build_full_eq_ok_iff.mp hbuild
  obtain ⟨g₀', _, _, _, _, hbare', -, -, hg'⟩ := build_full_eq_ok_iff.mp hbuild'
  refine ⟨matches_of_build_full hbare hbare' (h.sameShape_bare hbare hbare')
    (DeadTail.tempCount_le hbare hbare') hbuild hbuild', fun l => ?_⟩
  -- analyses leave the labels alone
  rw [← hg, ← hg']
  exact h.labelBlock?_bare hbare hbare' l

/-- A tail for `Routine.loop` with temps and a label of its own. It branches ahead, and jumps back
into the loop. -/
def Instr.lostTail : List Instr := [
  .op (.const ⟨5⟩ (.int 1)),
  .transfer (.branch .zero ⟨5⟩ ⟨7⟩),
  .transfer (.jump ⟨0⟩),
  .mark ⟨7⟩,
  .op (.param ⟨6⟩),
  .transfer (.jump ⟨2⟩)]

theorem deadTail_lostTail : DeadTail Routine.loop.code Instr.lostTail where
  closed := ⟨Routine.loop.code.dropLast, .ret (some ⟨0⟩), by decide, nofun⟩
  marks {l} hl := by
    obtain rfl : l = ⟨7⟩ := by simpa [Instr.lostTail] using hl
    decide
  branches {k i l} hk hl := by
    have hall : ∀ k : Fin Instr.lostTail.length, ∀ l ∈ (Instr.lostTail.get k).target?.toList,
        l ∈ Routine.loop.code.filterMap Instr.target? ∨
          .mark l ∈ Instr.lostTail.drop (k + 1) := by
      decide
    obtain ⟨hlt, rfl⟩ := List.getElem?_eq_some_iff.mp hk
    exact hall ⟨k, hlt⟩ l (Option.mem_toList.mpr hl)

theorem Graph.build_full_deadTail_loop :
    DeadTail Routine.loop.code Instr.lostTail ∧
      ∃ g g', build .loop .full = .ok g ∧
        build (Routine.loop.extend Instr.lostTail) .full = .ok g' ∧
        g.tempCount = 2 ∧ g'.tempCount = 7 ∧ List.Forall₂ Block.Matches g.blocks g'.blocks ∧
        ∀ l : Label, g'.labelBlock? l = g.labelBlock? l := by
  have hloop : Graph.tempCount <$> build .loop .full = .ok 2 := by decide +kernel
  have hextend : Graph.tempCount <$> build (Routine.loop.extend Instr.lostTail) .full = .ok 7 := by
    decide +kernel
  obtain ⟨g, hg, hcount⟩ := map_eq_ok_iff.mp hloop
  obtain ⟨g', hg', hcount'⟩ := map_eq_ok_iff.mp hextend
  exact ⟨deadTail_lostTail, g, g', hg, hg', hcount, hcount',
    (build_full_deadTail deadTail_lostTail).2 g g' hg hg'⟩

end FlowFacts
