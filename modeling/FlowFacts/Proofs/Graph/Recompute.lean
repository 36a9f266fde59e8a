import FlowFacts.Proofs.Block.Parts
import FlowFacts.Proofs.Chain.Depth
import FlowFacts.Proofs.Graph.History

/-!
# Running the analyses again

Each analysis writes one part of the facts of a block, and what it writes depends on the shape of
the blocks alone, for lines also on the stored liveness of the blocks. So once the analyses have all
been run, liveness of lines after liveness of blocks, the facts are those of the shape. The order of
the analyses leaves no trace, and neither do the facts that were there before.

## Main definitions

* `Graph.cleared` — nothing is known
* `Steady` — facts that every analysis finds again
* `Agrees` — what some analyses have brought about

## Main results

* `exists_steady` — if the liveness solve ends, there are steady facts
* `Agrees.perform`, `Agrees.performAll` — an analysis adds to the agreement, and so do several
* `Graph.recompute` — the order of the analyses and the facts of before do not matter
-/

namespace FlowFacts

variable {n : Nat} {blocks blocks' : List (Block n)}

/-! ### Steady facts -/

/-- The facts are those that every analysis finds, whatever facts it starts from. -/
structure Steady (target : List (Block n)) : Prop where
  liveness : ∀ {blocks : List (Block n)}, blocks.map Block.cleared = target.map Block.cleared →
    ∃ v found, setLiveness blocks none = .ok (v, found) ∧
      found.map Block.liveSets = target.map Block.liveSets
  lineLiveness : ∀ {blocks : List (Block n)}, blocks.map Block.cleared = target.map Block.cleared →
    blocks.map Block.liveSets = target.map Block.liveSets →
      (blocks.map Block.setLineLiveness).map Block.lineSets = target.map Block.lineSets
  chains : ∀ {blocks : List (Block n)}, blocks.map Block.cleared = target.map Block.cleared →
    ∃ d found, setChains blocks = .ok (d, found) ∧
      found.map Block.chains = target.map Block.chains

/-- If the liveness solve ends, running the analyses one after another makes the facts steady. -/
theorem exists_steady {v : Nat} {live : List (Block n)}
    (h : setLiveness blocks none = .ok (v, live)) :
    ∃ target, target.map Block.cleared = blocks.map Block.cleared ∧ Steady target := by
  obtain ⟨⟨d, target⟩, hchains⟩ := exists_setChains (live.map Block.setLineLiveness)
  obtain ⟨hcleared, -, -⟩ := parts_of_setLiveness h
  obtain ⟨hcleared', hsets', -⟩ := parts_of_setLineLiveness live
  obtain ⟨hcleared'', hsets'', hlines''⟩ := parts_of_setChains hchains
  have hlive : target.map Block.cleared = live.map Block.cleared := hcleared''.trans hcleared'
  have hsets : target.map Block.liveSets = live.map Block.liveSets := hsets''.trans hsets'
  refine ⟨target, hlive.trans hcleared, ?_, ?_, ?_⟩
  · intro bs hbs
    obtain ⟨v', found, hfound, heq⟩ :=
      exists_setLiveness_of_cleared (hbs.trans (hlive.trans hcleared)).symm h
    exact ⟨v', found, hfound, heq.trans hsets.symm⟩
  · intro bs hbs hbs'
    rw [map_lineSets_setLineLiveness (hbs.trans hlive) (hbs'.trans hsets), hlines'']
  · intro bs hbs
    obtain ⟨⟨d', found⟩, hfound⟩ := exists_setChains bs
    refine ⟨d', found, hfound, ?_⟩
    exact map_chains_setChains (sameShape_of_cleared (hbs.trans hcleared'')) hfound hchains

/-! ### Analyses that have been run -/

namespace Analyses

variable {a x y : Analyses}

theorem union_comm (a x : Analyses) : a.union x = x.union a :=
  congrArg Analyses.mk (UInt8.or_comm ..)

theorem union_assoc (a x y : Analyses) : (a.union x).union y = a.union (x.union y) :=
  congrArg Analyses.mk (UInt8.or_assoc ..)

/-- Analyses that are there change nothing. -/
theorem contains_iff : a.contains x = true ↔ a.union x = a := by
  rw [contains, beq_iff_eq, union]
  constructor
  · intro h
    refine congrArg Analyses.mk ?_
    rw [UInt8.eq_iff_toBitVec_eq, UInt8.toBitVec_and] at h
    rw [UInt8.eq_iff_toBitVec_eq, UInt8.toBitVec_or, ← h]
    ext i
    simp only [BitVec.getElem_or, BitVec.getElem_and]
    cases a.bits.toBitVec[i] <;> simp
  · intro h
    rw [← congrArg Analyses.bits h]
    exact beq_iff_eq.mp (contains_union_self a x)

theorem contains_union_left (h : a.contains x = true) (y : Analyses) :
    (a.union y).contains x = true := by
  rw [contains_iff] at h ⊢
  rw [union_assoc, union_comm y, ← union_assoc, h]

end Analyses

/-- The analysis that a command runs. -/
def Command.analysis : Command → Analyses
  | .liveness _ => .liveness
  | .lineLiveness => .lineLiveness
  | .chains => .chains
  | _ => .none

/-- The analyses, each with what it needs in front of it. -/
def Command.analyses : List Command := [.liveness none, .lineLiveness, .chains]

/-- The parts that the commands have brought about agree with the target. Liveness of lines does if
liveness of blocks was run before. -/
structure Agrees (target : List (Block n)) (cs : List Command) (blocks : List (Block n))
    (computed : Analyses) : Prop where
  cleared : blocks.map Block.cleared = target.map Block.cleared
  sets : .liveness none ∈ cs → blocks.map Block.liveSets = target.map Block.liveSets
  lineSets : [.liveness none, .lineLiveness].Sublist cs →
    blocks.map Block.lineSets = target.map Block.lineSets
  chains : .chains ∈ cs → blocks.map Block.chains = target.map Block.chains
  contains : ∀ c ∈ cs, computed.contains c.analysis = true
  bounded : computed.union .all = .all

namespace Agrees

variable {target : List (Block n)} {cs : List Command} {computed : Analyses}

/-- When all analyses have been run, there is no difference from the target. -/
theorem eq_target (h : Agrees target cs blocks computed) (hchains : .chains ∈ cs)
    (hlive : [.liveness none, .lineLiveness].Sublist cs) : blocks = target ∧ computed = .all := by
  have hmem : .liveness none ∈ cs := hlive.subset List.mem_cons_self
  have hmem' : .lineLiveness ∈ cs := hlive.subset (List.mem_cons_of_mem _ List.mem_cons_self)
  refine ⟨eq_of_parts h.cleared (h.sets hmem) (h.lineSets hlive) (h.chains hchains), ?_⟩
  have hall : Analyses.all = (Analyses.liveness.union .lineLiveness).union .chains := rfl
  have hone : computed.union .liveness = computed :=
    Analyses.contains_iff.mp (h.contains (.liveness none) hmem)
  have htwo : computed.union .lineLiveness = computed :=
    Analyses.contains_iff.mp (h.contains .lineLiveness hmem')
  have hthree : computed.union .chains = computed :=
    Analyses.contains_iff.mp (h.contains .chains hchains)
  rw [← h.bounded, hall, ← Analyses.union_assoc, ← Analyses.union_assoc, hone, htwo, hthree]

end Agrees

theorem sublist_of_concat {α : Type} {a b c : α} {cs : List α} (h : [a, b].Sublist (cs ++ [c]))
    (hbc : b ≠ c) : [a, b].Sublist cs := by
  have hrev : [b, a].Sublist (c :: cs.reverse) := by simpa using h.reverse
  rcases List.sublist_cons_iff.mp hrev with hrev | ⟨rest, heq, -⟩
  · simpa using hrev.reverse
  · exact absurd (List.cons.inj heq).1 hbc

/-- What comes before `b` in a list without repetition that has `a` before `b`. -/
theorem mem_of_sublist_of_nodup {α : Type} {a b : α} {pre post : List α}
    (h : [a, b].Sublist (pre ++ b :: post)) (hnodup : (pre ++ b :: post).Nodup) : a ∈ pre := by
  obtain ⟨front, back, heq, hfront, hback⟩ := List.sublist_append_iff.mp h
  cases front with
  | cons x front =>
    obtain rfl := (List.cons.inj heq).1
    exact hfront.subset List.mem_cons_self
  | nil =>
    -- the list would have `b` twice
    have hb : b ∈ post := by
      rw [List.nil_append] at heq
      subst heq
      rcases List.sublist_cons_iff.mp hback with hback | ⟨rest, hrest, hback⟩
      · exact hback.subset (List.mem_cons_of_mem _ List.mem_cons_self)
      · obtain rfl := (List.cons.inj hrest).2
        exact hback.subset List.mem_cons_self
    exact absurd hb (List.nodup_cons.mp (List.nodup_append.mp hnodup).2.1).1

namespace Graph

/-- The graph with other facts. -/
def withFacts (g : Graph) (blocks : List (Block g.tempCount)) (computed : Analyses) : Graph :=
  { g with blocks, computed }

/-- The graph about which nothing is known. -/
def cleared (g : Graph) : Graph := g.withFacts (g.blocks.map Block.cleared) .none

end Graph

namespace Agrees

variable {g : Graph} {target blocks : List (Block g.tempCount)} {cs : List Command}
  {computed : Analyses} {c : Command}

theorem contains_concat (h : Agrees target cs blocks computed) {c' : Command}
    (hc' : c' ∈ cs ++ [c]) : (computed.union c.analysis).contains c'.analysis = true := by
  rcases List.mem_append.mp hc' with hc' | hc'
  · exact Analyses.contains_union_left (h.contains c' hc') _
  · obtain rfl := List.mem_singleton.mp hc'
    exact Analyses.contains_union_self ..

theorem union_analysis (h : Agrees target cs blocks computed) (hc : c ∈ Command.analyses) :
    (computed.union c.analysis).union .all = .all := by
  have hall : ∀ c ∈ Command.analyses, c.analysis.union .all = .all := by decide
  rw [Analyses.union_assoc, hall c hc, h.bounded]

/-- An analysis brings about its part, and leaves the others alone. -/
theorem perform (ht : Steady target) (h : Agrees target cs blocks computed)
    (hc : c ∈ Command.analyses) (hneeds : c = .lineLiveness → .liveness none ∈ cs) :
    ∃ reply blocks', (g.withFacts blocks computed).perform c =
        .ok (reply, g.withFacts blocks' (computed.union c.analysis)) ∧
      Agrees target (cs ++ [c]) blocks' (computed.union c.analysis) := by
  have hcontains := fun c' (hc' : c' ∈ cs ++ [c]) => h.contains_concat hc'
  have hbounded := h.union_analysis hc
  obtain rfl | rfl | rfl : c = .liveness none ∨ c = .lineLiveness ∨ c = .chains := by
    simpa [Command.analyses] using hc
  · obtain ⟨v, found, hset, hsets⟩ := ht.liveness h.cleared
    obtain ⟨hcleared, hlines, hchains⟩ := parts_of_setLiveness hset
    refine ⟨.count v, found, Graph.perform_liveness hset, ?_⟩
    refine ⟨hcleared.trans h.cleared, fun _ => hsets, fun hs => ?_, fun hc => ?_, hcontains,
      hbounded⟩
    · exact hlines.trans (h.lineSets (sublist_of_concat hs (by decide)))
    · exact hchains.trans (h.chains (by simpa using hc))
  · have hlive := hneeds rfl
    obtain ⟨hcleared, hsets, hchains⟩ := parts_of_setLineLiveness blocks
    refine ⟨.done, _, Graph.perform_lineLiveness (h.contains (.liveness none) hlive), ?_⟩
    refine ⟨hcleared.trans h.cleared, fun _ => hsets.trans (h.sets hlive), fun _ => ?_,
      fun hc => ?_, hcontains, hbounded⟩
    · exact ht.lineLiveness h.cleared (h.sets hlive)
    · exact hchains.trans (h.chains (by simpa using hc))
  · obtain ⟨d, found, hset, hchains⟩ := ht.chains h.cleared
    obtain ⟨hcleared, hsets, hlines⟩ := parts_of_setChains hset
    refine ⟨.count d, found, Graph.perform_chains hset, ?_⟩
    refine ⟨hcleared.trans h.cleared, fun hc => ?_, fun hs => ?_, fun _ => hchains, hcontains,
      hbounded⟩
    · exact hsets.trans (h.sets (by simpa using hc))
    · exact hlines.trans (h.lineSets (sublist_of_concat hs (by decide)))

/-- Several analyses bring about their parts, if liveness of lines comes after that of blocks. -/
theorem performAll (ht : Steady target) {pre post : List Command}
    (h : Agrees target pre blocks computed) (hpost : ∀ c ∈ post, c ∈ Command.analyses)
    (hnodup : (pre ++ post).Nodup)
    (hlive : [.liveness none, .lineLiveness].Sublist (pre ++ post)) :
    ∃ blocks' computed', (g.withFacts blocks computed).performAll post =
        .ok (g.withFacts blocks' computed') ∧
      Agrees target (pre ++ post) blocks' computed' := by
  induction post generalizing pre blocks computed with
  | nil => exact ⟨blocks, computed, rfl, by rwa [List.append_nil]⟩
  | cons c post ih =>
    have hneeds : c = .lineLiveness → .liveness none ∈ pre := by
      rintro rfl
      exact mem_of_sublist_of_nodup hlive hnodup
    obtain ⟨reply, blocks₁, hc, h₁⟩ := h.perform (g := g) ht (hpost c List.mem_cons_self) hneeds
    have hassoc : pre ++ [c] ++ post = pre ++ c :: post := List.append_cons .. |>.symm
    obtain ⟨blocks₂, computed₂, hrest, h₂⟩ := ih h₁
      (fun c hc => hpost c (List.mem_cons_of_mem _ hc)) (hassoc ▸ hnodup) (hassoc ▸ hlive)
    exact ⟨blocks₂, computed₂, bind_eq_ok_iff.mpr ⟨_, hc, hrest⟩, hassoc ▸ h₂⟩

/-- Once all analyses have been run, the graph has the facts of the target. -/
theorem performAll_eq (ht : Steady target)
    (hblocks : blocks.map Block.cleared = target.map Block.cleared)
    (hcomputed : computed.union .all = .all) (hcs : cs.Perm Command.analyses)
    (hlive : [.liveness none, .lineLiveness].Sublist cs) :
    (g.withFacts blocks computed).performAll cs = .ok (g.withFacts target .all) := by
  have hstart : Agrees target [] blocks computed :=
    ⟨hblocks, (absurd · List.not_mem_nil), (absurd · (by decide)), (absurd · List.not_mem_nil),
      fun _ => (absurd · List.not_mem_nil), hcomputed⟩
  have hnodup : cs.Nodup := hcs.nodup_iff.mpr (by decide)
  obtain ⟨blocks', computed', hrun, hagrees⟩ := hstart.performAll (g := g) ht
    (fun c hc => hcs.subset hc) hnodup hlive
  obtain ⟨rfl, rfl⟩ := hagrees.eq_target (hcs.symm.subset (by decide)) hlive
  exact hrun

/-- Another run of an analysis finds the facts of the target again. -/
theorem perform_target (ht : Steady target) (hc : c ∈ Command.analyses) :
    ∃ reply, (g.withFacts target .all).perform c = .ok (reply, g.withFacts target .all) := by
  have hagrees : Agrees target Command.analyses target .all :=
    ⟨rfl, fun _ => rfl, fun _ => rfl, fun _ => rfl, by decide, by decide⟩
  obtain ⟨reply, blocks', hperform, hagrees'⟩ :=
    hagrees.perform (g := g) ht hc fun _ => by decide
  obtain ⟨rfl, hcomputed⟩ := hagrees'.eq_target (List.mem_append_left _ (by decide))
    (List.Sublist.trans (by decide) (List.sublist_append_left ..))
  rw [hcomputed] at hperform
  exact ⟨reply, hperform⟩

end Agrees

namespace Graph

/-- A graph has no other analyses than these. -/
theorem Reachable.computed_union {g : Graph} {fresh : Analyses} (h : g.Reachable fresh) :
    g.computed.union .all = .all := by
  refine h.induction (P := fun g _ => g.computed.union .all = .all) ?_ ?_
  · intro r g hg
    obtain ⟨_, _, -, -, rfl⟩ := bare_eq_ok_iff.mp hg
    show Analyses.none.union .all = .all
    decide
  · intro g g' fresh c hg hstep
    cases hstep with
    | liveness => exact (Analyses.union_assoc ..).trans hg
    | lineLiveness => exact (Analyses.union_assoc ..).trans hg
    | chains => exact (Analyses.union_assoc ..).trans hg
    | insertion => exact hg
    | append => exact hg

/-- **Analyses can be run again.** Once the liveness solve ends, all orders of the analyses in which
liveness of lines comes after liveness of blocks lead to the same graph. Running one of them again
does not change it, and the facts of before have left no trace in it: the graph about which nothing
is known leads there too. Apart from facts nothing has changed. -/
theorem recompute {g : Graph} {fresh : Analyses} (hg : g.Reachable fresh)
    (hlive : (g.perform (.liveness none)).isOk = true) :
    ∃ g', g'.cleared = g.cleared ∧
      (∀ c ∈ Command.analyses, ∃ reply, g'.perform c = .ok (reply, g')) ∧
      ∀ cs : List Command, cs.Perm Command.analyses →
        [.liveness none, .lineLiveness].Sublist cs →
          g.performAll cs = .ok g' ∧ g.cleared.performAll cs = .ok g' := by
  obtain ⟨_, hperform⟩ := exists_eq_ok hlive
  obtain ⟨_, hset, -⟩ := map_eq_ok_iff.mp hperform
  obtain ⟨⟨v, live⟩, hset, -⟩ := bind_eq_ok_iff.mp hset
  obtain ⟨target, htarget, ht⟩ := exists_steady hset
  refine ⟨g.withFacts target .all, congrArg (g.withFacts · .none) htarget,
    fun c => Agrees.perform_target ht, fun cs hcs horder => ⟨?_, ?_⟩⟩
  · exact Agrees.performAll_eq ht htarget.symm hg.computed_union hcs horder
  · refine Agrees.performAll_eq ht ?_ (by decide) hcs horder
    rw [htarget, List.map_map]
    exact List.map_congr_left fun b _ => b.cleared_cleared

end Graph

/-- An operation that makes the facts about `Routine.loop` stale. -/
def Command.edit : Command := .insertBefore 0 0 (.op (.const ⟨1⟩ (.int 1)))

theorem Graph.recompute_loop :
    ∃ (g : Graph) (fresh : Analyses), g.Reachable fresh ∧
      (g.perform (.liveness none)).isOk = true ∧
      ∃ g' : Graph, g'.cleared = g.cleared ∧
        g.performAll [.chains, .liveness none, .lineLiveness] = .ok g' ∧
        g.cleared.performAll [.chains, .liveness none, .lineLiveness] = .ok g' := by
  have hloop : (fun p : Reply × Graph => (p.2.perform (.liveness none)).isOk) <$>
      (Graph.build .loop .full >>= fun g => g.perform .edit) = .ok true := by
    decide +kernel
  obtain ⟨⟨_, g⟩, hedit, hlive⟩ := map_eq_ok_iff.mp hloop
  obtain ⟨g₀, hbuild, hedit⟩ := bind_eq_ok_iff.mp hedit
  have hg := Reachable.performed (.built hbuild) hedit
  obtain ⟨g', hcleared, -, hrun⟩ := recompute hg hlive
  exact ⟨g, _, hg, hlive, g', hcleared, hrun _ (by decide) (by decide)⟩

end FlowFacts
