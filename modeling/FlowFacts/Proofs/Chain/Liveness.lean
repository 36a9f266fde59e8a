import FlowFacts.Proofs.Chain.Exact
import FlowFacts.Proofs.Liveness.Fresh

/-!
# Chains and liveness agree

Whether the value of a definition is needed is found out twice, and in different ways. Liveness goes
backwards through the blocks with sets of temps; chains go forwards from the definition. Both are
about the same paths: a temp is live where its value reaches some use. So a definition has an empty
chain just if its temp is not live behind it.

Chains are kept exact by all commands but insertions, as liveness is, so this holds of every graph
in which all facts are fresh.

## Main results

* `liveAt_iff_exists_reaches` — live temps are those whose value reaches a use
* `Graph.Reachable.exactChains` — fresh chains are exact, after any history
* `Graph.chain_eq_nil_iff_not_live` — chains and liveness agree
-/

namespace FlowFacts

variable {n : Nat} {t : Temp} {blocks blocks' : List (Block n)}

theorem liveAt_iff_exists_reaches {p : Point} : LiveAt blocks t p ↔ ∃ u, Reaches blocks t p u := by
  constructor
  · rintro ⟨q, hc, hr⟩
    exact ⟨q.use blocks, q, hc, hr, rfl⟩
  · rintro ⟨_, q, hc, hr, -⟩
    exact ⟨q, hc, hr⟩

/-- Exact chains stay exact while the blocks and their chains stay. -/
theorem ExactChains.of_map_eq (h : ExactChains blocks) (hshape : SameShape blocks' blocks)
    (hchains : (blocks'.map fun b => b.body.map fun l => (l.op, l.chain)) =
      blocks.map fun b => b.body.map fun l => (l.op, l.chain)) : ExactChains blocks' := by
  have hline : ∀ {b i : Nat} {block' : Block n} {line' : Line n}, blocks'[b]? = some block' →
      block'.body[i]? = some line' → ∃ block line, blocks[b]? = some block ∧
        block.body[i]? = some line ∧ line.op = line'.op ∧ line.chain = line'.chain := by
    intro b i block' line' hb' hl'
    obtain ⟨block, hb, hbody⟩ := exists_of_map_eq_map hchains hb'
    obtain ⟨line, hl, heq⟩ := exists_of_map_eq_map hbody.symm hl'
    exact ⟨block, line, hb, hl, Prod.mk.inj heq⟩
  constructor
  · intro b i block' line' t hb' hl' hd
    obtain ⟨block, line, hb, hl, hop, hchain⟩ := hline hb' hl'
    obtain ⟨chain, hc, hnodup, hmem⟩ := h.chain hb hl (hop ▸ hd)
    refine ⟨chain, hchain ▸ hc, hnodup, fun u => ?_⟩
    rw [hmem]
    exact ⟨hshape.symm.reaches, hshape.reaches⟩
  · intro b i block' line' hb' hl' hd
    obtain ⟨block, line, hb, hl, hop, hchain⟩ := hline hb' hl'
    exact hchain ▸ h.no_chain hb hl (hop ▸ hd)

namespace Graph

/-- A command keeps fresh chains exact. -/
theorem Step.exactChains {g g' : Graph} {c : Command} {fresh : Analyses} (h : g.Step c g')
    (hg : fresh.contains .chains = true → ExactChains g.blocks)
    (hfresh : (c.refresh fresh).contains .chains = true) : ExactChains g'.blocks := by
  cases h with
  | liveness hset =>
    rw [Command.refresh, Analyses.contains_union_of_disjoint (by decide)] at hfresh
    exact (hg hfresh).of_map_eq (sameShape_setLiveness hset)
      (map_eq_of_setLiveness hset fun _ _ _ _ => rfl)
  | lineLiveness =>
    have hold : fresh.contains .chains = true := by
      rw [Command.refresh] at hfresh
      split at hfresh
      · rwa [Analyses.contains_union_of_disjoint (by decide)] at hfresh
      · exact hfresh
    refine (hg hold).of_map_eq (sameShape_setLineLiveness g.blocks) ?_
    rw [List.map_map]
    exact List.map_congr_left fun b _ => map_body_setLineLiveness (fun _ _ => rfl) b
  | chains hset => exact exactChains_setChains hset
  | insertion hins =>
    rw [Command.refresh_of_isInsertion hins] at hfresh
    exact absurd hfresh (by decide)
  | append =>
    exact (hg hfresh).of_map_eq (sameShape_append ..) (g.map_eq_of_append _ _ fun _ _ => rfl)

/-- Fresh chains are exact, after any history. -/
theorem Reachable.exactChains {g : Graph} {fresh : Analyses} (h : g.Reachable fresh)
    (hfresh : fresh.contains .chains = true) : ExactChains g.blocks := by
  refine h.induction (P := fun g fresh => fresh.contains .chains = true → ExactChains g.blocks)
    (fun _ hnone => ?_) (fun hg hstep => hstep.exactChains hg) hfresh
  exact absurd hnone (by decide)

/-- **Chains and liveness agree.** Take a graph in which liveness of lines and chains are fresh. A
line that defines a temp carries a chain, and the chain is empty just if the temp is not in the
live-out set of the line. -/
theorem chain_eq_nil_iff_not_live {g : Graph} {fresh : Analyses} (hg : g.Reachable fresh)
    (hlines : fresh.contains .lineLiveness = true) (hchains : fresh.contains .chains = true)
    {b i : Nat} {block : Block g.tempCount} {line : Line g.tempCount} {t : Temp}
    (hb : g.blocks[b]? = some block) (hline : block.body[i]? = some line)
    (hd : line.op.dest = some t) :
    ∃ chain, line.chain = some chain ∧ (chain = [] ↔ t ∉ line.liveOut) := by
  obtain ⟨chain, hchain, -, hmem⟩ := (hg.exactChains hchains).chain hb hline hd
  obtain ⟨-, hexact⟩ := hg.freshLiveness.lines hlines
  refine ⟨chain, hchain, ?_⟩
  calc chain = [] ↔ ¬∃ u, u ∈ chain := by rw [List.eq_nil_iff_forall_not_mem, not_exists]
    _ ↔ ¬∃ u, Reaches g.blocks t ⟨b, i + 1⟩ u := by simp only [hmem]
    _ ↔ t ∉ line.liveOut := by
      rw [← liveAt_iff_exists_reaches, hexact.mem_liveOut_iff hb hline]

/-- The loop with its second temp defined twice in front: the first value is lost, the second one is
needed in the loop. -/
theorem chain_eq_nil_iff_not_live_loop :
    ∃ (g₀ g : Graph) (block : Block g.tempCount) (lost needed : Line g.tempCount),
      Graph.build .loop .full = .ok g₀ ∧
      g₀.performAll [.insertBefore 0 0 (.op (.const ⟨1⟩ (.int 1))),
        .insertBefore 0 0 (.op (.const ⟨1⟩ (.int 2))), .liveness none, .lineLiveness, .chains] =
          .ok g ∧
      g.blocks[0]? = some block ∧ block.body[0]? = some lost ∧ block.body[1]? = some needed ∧
      lost.chain = some [] ∧ ⟨1⟩ ∉ lost.liveOut ∧
      needed.chain = some [⟨2, .line 1⟩] ∧ ⟨1⟩ ∈ needed.liveOut := by
  have hloop : (fun g : Graph => g.blocks[0]?.map fun b =>
      (b.body.take 2).map fun l => (l.op.dest, l.chain)) <$>
        (Graph.build .loop .full >>= fun g => g.performAll
          [.insertBefore 0 0 (.op (.const ⟨1⟩ (.int 1))),
            .insertBefore 0 0 (.op (.const ⟨1⟩ (.int 2))), .liveness none, .lineLiveness, .chains]) =
      .ok (some [(some ⟨1⟩, some []), (some ⟨1⟩, some [⟨2, .line 1⟩])]) := by
    decide +kernel
  obtain ⟨g, hg, hfacts⟩ := map_eq_ok_iff.mp hloop
  obtain ⟨g₀, hbuild, hcommands⟩ := bind_eq_ok_iff.mp hg
  obtain ⟨block, hb, hlines⟩ := Option.map_eq_some_iff.mp hfacts
  obtain ⟨lost, _, htake, hlost, hlines⟩ := List.map_eq_cons_iff.mp hlines
  obtain ⟨needed, _, rfl, hneeded, hlines⟩ := List.map_eq_cons_iff.mp hlines
  obtain rfl := List.map_eq_nil_iff.mp hlines
  have hget : ∀ {i : Nat}, i < 2 → block.body[i]? = [lost, needed][i]? := by
    intro i hi
    rw [← htake, List.getElem?_take_of_lt hi]
  have hreach : g.Reachable (Command.chains.refresh (Command.lineLiveness.refresh
      ((Command.liveness none).refresh .none))) :=
    (Reachable.built hbuild).performAll hcommands
  obtain ⟨hdest, hchain⟩ := Prod.mk.inj hlost
  obtain ⟨hdest', hchain'⟩ := Prod.mk.inj hneeded
  refine ⟨g₀, g, block, lost, needed, hbuild, hcommands, hb, hget (by decide), hget (by decide),
    hchain, ?_, hchain', ?_⟩
  · obtain ⟨chain, hc, hiff⟩ := chain_eq_nil_iff_not_live hreach (by decide) (by decide) hb
      (hget (i := 0) (by decide)) hdest
    cases hchain.symm.trans hc
    exact hiff.mp rfl
  · obtain ⟨chain, hc, hiff⟩ := chain_eq_nil_iff_not_live hreach (by decide) (by decide) hb
      (hget (i := 1) (by decide)) hdest'
    cases hchain'.symm.trans hc
    exact of_not_not fun hnot => absurd (hiff.mpr hnot) (by decide)

end Graph

end FlowFacts
