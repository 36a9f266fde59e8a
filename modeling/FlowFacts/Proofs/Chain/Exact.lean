import FlowFacts.Proofs.Chain.Search
import FlowFacts.Proofs.Graph.Execution

/-!
# Chains are exact

The chain of a definition lists the uses that its value reaches, each of them once. That it lists no
other follows from going along the scans; that it misses none is shown along the path to the use.

A definition in a loop has its block scanned twice, once from behind it and once from the beginning.
Nothing is found twice for all that, because the second scan does not get past the definition.

## Main results

* `mem_chain_iff`, `nodup_chain` — the chain of one definition
* `Graph.exactChains_setChains` — the chains of a graph
-/

namespace FlowFacts

variable {n : Nat} {t : Temp} {u : Use} {blocks : List (Block n)} {b i : Nat} {block : Block n}

/-! ### Scans and paths -/

/-- What a scan finds is reached, and so is what is reached behind a block that the value
survives. -/
theorem reaches_of_scan (hb : blocks[b]? = some block) (hi : i ≤ block.ops.length)
    (h : u ∈ (block.scan b t i).1 ∨
      (block.scan b t i).2 = false ∧ ∃ s ∈ block.successors, Reaches blocks t (.start s) u) :
    Reaches blocks t ⟨b, i⟩ u := by
  revert h
  refine block.backward_induction_le (P := fun i => (u ∈ (block.scan b t i).1 ∨
    (block.scan b t i).2 = false ∧ ∃ s ∈ block.successors, Reaches blocks t (.start s) u) →
      Reaches blocks t ⟨b, i⟩ u) ?_ ?_ hi
  · intro h
    rw [reaches_of_end_iff hb]
    exact h.imp (Block.mem_scan_of_end (List.getElem?_length _)).mp And.right
  · intro i o ho ih h
    rw [reaches_of_op_iff hb ho]
    rcases h with h | ⟨hk, hs⟩
    · exact ((Block.mem_scan_of_op ho).mp h).imp_right (And.imp_right fun h => ih (.inl h))
    · obtain ⟨hd, hk⟩ := (Block.survives_of_op ho).mp hk
      exact .inr ⟨hd, ih (.inr ⟨hk, hs⟩)⟩

theorem reaches_of_found {scanned : List Nat} {c : Nat} (h : Found blocks t scanned u c) :
    Reaches blocks t (.start c) u := by
  induction h with
  | here hc _ hu => exact reaches_of_scan hc (Nat.zero_le _) (.inl hu)
  | onward hc _ hk hd _ ih => exact reaches_of_scan hc (Nat.zero_le _) (.inr ⟨hk, _, hd, ih⟩)

/-- What is reached is found by the scan of the block, or from one of its successors. -/
theorem found_of_reaches {p : Point} (h : Reaches blocks t p u) :
    ∃ block, blocks[p.block]? = some block ∧ (u ∈ (block.scan p.block t p.index).1 ∨
      (block.scan p.block t p.index).2 = false ∧
        ∃ s ∈ block.successors, Found blocks t [] u s) := by
  obtain ⟨q, hc, hr, hu⟩ := h
  induction hc with
  | refl q =>
    cases hr with
    | line hb ho ht =>
      rw [use_of_op hb ho] at hu
      exact ⟨_, hb, .inl ((Block.mem_scan_of_op ho).mpr (.inl ⟨ht, hu⟩))⟩
    | @terminator b block hb ht =>
      rw [use_of_end hb] at hu
      have hend := List.getElem?_length block.ops
      exact ⟨block, hb, .inl ((Block.mem_scan_of_end hend).mpr ⟨ht, hu⟩)⟩
  | step hp _ ih =>
    obtain ⟨next, hnext, hfound⟩ := ih hr hu
    cases hp with
    | line hb ho hd =>
      obtain rfl := Option.some.inj (hnext.symm.trans hb)
      refine ⟨next, hb, hfound.imp (fun h => ?_) fun ⟨hk, h⟩ => ⟨?_, h⟩⟩
      · exact (Block.mem_scan_of_op ho).mpr (.inr ⟨hd, h⟩)
      · exact (Block.survives_of_op ho).mpr ⟨hd, hk⟩
    | @edge b s block hb hs =>
      have hend := List.getElem?_length block.ops
      refine ⟨block, hb, .inr ⟨Block.survives_of_end hend, s, hs, ?_⟩⟩
      rcases hfound with h | ⟨hk, d, hd, h⟩
      · exact .here hnext List.not_mem_nil h
      · exact .onward hnext List.not_mem_nil hk hd h

/-! ### The chain of a definition -/

theorem exists_of_chain {chain : List Use} (h : block.chain blocks b i t = .ok chain) :
    ∃ found, search blocks t blocks.length (block.onward (block.scan b t (i + 1)).2 0) [] =
      .ok found ∧ chain = (block.scan b t (i + 1)).1 ++ found := by
  obtain ⟨found, hfound, rfl⟩ := map_eq_ok_iff.mp h
  exact ⟨found, hfound, rfl⟩

/-- The chain of a line lists what is reached from right behind it. -/
theorem mem_chain_iff {chain : List Use} (hb : blocks[b]? = some block)
    (hi : i < block.ops.length) (h : block.chain blocks b i t = .ok chain) :
    u ∈ chain ↔ Reaches blocks t ⟨b, i + 1⟩ u := by
  obtain ⟨found, hfound, rfl⟩ := exists_of_chain h
  have honward : (∃ p ∈ block.onward (block.scan b t (i + 1)).2 0, Found blocks t [] u p.1) ↔
      (block.scan b t (i + 1)).2 = false ∧ ∃ s ∈ block.successors, Found blocks t [] u s := by
    simp only [Block.mem_onward]
    constructor
    · rintro ⟨_, ⟨hk, s, hs, rfl⟩, hf⟩
      exact ⟨hk, s, hs, hf⟩
    · rintro ⟨hk, s, hs, hf⟩
      exact ⟨_, ⟨hk, s, hs, rfl⟩, hf⟩
  rw [List.mem_append, mem_search_iff hfound, honward]
  constructor
  · intro hu
    refine reaches_of_scan hb hi (hu.imp_right ?_)
    rintro ⟨hk, s, hs, hf⟩
    exact ⟨hk, s, hs, reaches_of_found hf⟩
  · intro hu
    obtain ⟨block', hb', hscan⟩ := found_of_reaches hu
    obtain rfl := Option.some.inj (hb'.symm.trans hb)
    exact hscan

/-- The chain of a line that writes the temp lists no use twice. -/
theorem nodup_chain {chain : List Use} {o : Op} (hb : blocks[b]? = some block)
    (ho : block.ops[i]? = some o) (hd : o.dest = some t)
    (h : block.chain blocks b i t = .ok chain) : chain.Nodup := by
  obtain ⟨found, hfound, rfl⟩ := exists_of_chain h
  refine List.nodup_append.mpr ⟨Block.nodup_scan .., nodup_search hfound, ?_⟩
  rintro v hv _ hw rfl
  obtain ⟨hblock, hline⟩ := Block.of_mem_scan hv
  -- a use that is also found from the beginning of the block lies in front of the definition
  have hfront : ∀ {c}, Found blocks t [] v c → v ∈ (block.scan b t 0).1 := by
    intro c hf
    induction hf with
    | here hc _ hu =>
      obtain rfl := (Block.of_mem_scan hu).1.symm.trans hblock
      obtain rfl := Option.some.inj (hc.symm.trans hb)
      exact hu
    | onward _ _ _ _ _ ih => exact ih
  obtain ⟨p, -, hf⟩ := (mem_search_iff hfound).mp hw
  obtain ⟨k, hk, hle⟩ := Block.line_le_of_mem_scan ho hd (Nat.zero_le i) (hfront hf)
  have := hline k hk
  omega

/-! ### The chains of a graph -/

/-- The lines that define a temp carry a chain of the uses that the defined value reaches, each
listed once, and the other lines carry none. -/
structure ExactChains (blocks : List (Block n)) : Prop where
  chain : ∀ {b i : Nat} {block : Block n} {line : Line n} {t : Temp}, blocks[b]? = some block →
    block.body[i]? = some line → line.op.dest = some t →
      ∃ chain, line.chain = some chain ∧ chain.Nodup ∧
        ∀ u, u ∈ chain ↔ Reaches blocks t ⟨b, i + 1⟩ u
  no_chain : ∀ {b i : Nat} {block : Block n} {line : Line n}, blocks[b]? = some block →
    block.body[i]? = some line → line.op.dest = none → line.chain = none

theorem exactChains_setChains {blocks' : List (Block n)} {d : Nat}
    (h : setChains blocks = .ok (d, blocks')) : ExactChains blocks' := by
  have hshape := sameShape_setChains h
  obtain ⟨-, -, hget⟩ := exists_of_setChains h
  refine ⟨fun {b i block' l' t} hb hl hd => ?_, fun {b i block' l'} hb hl hd => ?_⟩
  · obtain ⟨block, hblock, -, -, hline⟩ := hget hb
    obtain ⟨l, hbody, hchained⟩ := hline hl
    rw [hchained.op_eq] at hd
    have ho : block.ops[i]? = some l.op := by rw [Block.ops, List.getElem?_map, hbody]; rfl
    simp only [Line.Chained, hd] at hchained
    obtain ⟨chain, hchain, rfl⟩ := hchained
    refine ⟨chain, rfl, nodup_chain hblock ho hd hchain, fun u => ?_⟩
    rw [mem_chain_iff hblock (List.getElem?_eq_some_iff.mp ho).1 hchain]
    exact ⟨hshape.symm.reaches, hshape.reaches⟩
  · obtain ⟨block, -, -, -, hline⟩ := hget hb
    obtain ⟨l, -, hchained⟩ := hline hl
    rw [hchained.op_eq] at hd
    simp only [Line.Chained, hd] at hchained
    rw [← hchained]

/-- The number of definitions depends on what the blocks do. -/
theorem SameShape.definitionCount_eq {blocks' : List (Block n)} (h : SameShape blocks blocks') :
    definitionCount blocks = definitionCount blocks' := by
  have hops : ∀ bs : List (Block n),
      bs.flatMap Block.ops = (bs.map Block.shape).flatMap Prod.fst := by
    intro bs
    rw [List.flatMap_map]
    rfl
  rw [definitionCount, definitionCount, hops, hops, show blocks.map Block.shape = _ from h]

/-- The definitions are the lines that write a temp. -/
theorem definitionCount_eq_countP (blocks : List (Block n)) :
    definitionCount blocks = (blocks.flatMap Block.body).countP fun l => l.op.dest.isSome := by
  have hops : blocks.flatMap Block.ops = (blocks.flatMap Block.body).map Line.op := by
    rw [List.map_flatMap]
    rfl
  rw [definitionCount, hops, List.countP_map]
  rfl

/-- **Chains are exact.** When chains have been stored, every definition of the graph has as its
chain the uses that its value reaches, without repetition; the number returned is that of the
definitions. -/
theorem Graph.exactChains_of_setChains {g g' : Graph} {d : Nat}
    (h : g.setChains = .ok (d, g')) :
    ExactChains g'.blocks ∧
      d = (g'.blocks.flatMap Block.body).countP fun l => l.op.dest.isSome := by
  obtain ⟨⟨d', blocks⟩, hset, hg'⟩ := bind_eq_ok_iff.mp h
  cases hg'
  refine ⟨exactChains_setChains hset, ?_⟩
  rw [← definitionCount_eq_countP, (sameShape_setChains hset).definitionCount_eq]
  exact (exists_of_setChains hset).1

theorem Graph.exactChains_loop :
    ∃ g g', Graph.build .loop .structureOnly = .ok g ∧ g.setChains = .ok (2, g') ∧
      ExactChains g'.blocks ∧
        2 = (g'.blocks.flatMap Block.body).countP fun l => l.op.dest.isSome := by
  have hloop : Prod.fst <$> (Graph.build .loop .structureOnly >>= Graph.setChains) = .ok 2 := by
    decide +kernel
  obtain ⟨⟨d, g'⟩, h, rfl⟩ := map_eq_ok_iff.mp hloop
  obtain ⟨g, hg, hset⟩ := bind_eq_ok_iff.mp h
  exact ⟨g, g', hg, hset, exactChains_of_setChains hset⟩

end FlowFacts
