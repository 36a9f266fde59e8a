import FlowFacts.Proofs.Liveness.Fresh

/-!
# Summaries and walks agree

What a block does to liveness is computed twice. The summary of the block sorts its temps by their
first occurrence, in one pass forwards, and passes liveness on for the block as a whole. The walk
goes backwards, line by line, takes out what a line writes and puts in what it reads. Both end with
the temps that are read from the beginning of the block on before they are written, which is shown
for the rest of the block behind any number of lines.

So after a solve the walk through a block ends with the set that is stored as live in front of it.

## Main results

* `Block.foldr_liveBefore_eq_transfer` — the walk ends with the transfer of the summary
* `Block.splits_summary` — the sets of a summary split the temps of the block
* `Graph.walks_agree` — summaries and walks of blocks, and walks after a solve
-/

namespace FlowFacts

variable {n m : Nat} {t : Temp}

/-! ### The walk -/

theorem annotate_snd (out : TempSet m) (body : List (Line m)) :
    (annotate out body).2 = (body.map Line.op).foldr Op.liveBefore out := by
  induction body with
  | nil => rfl
  | cons l body ih => simp only [annotate, List.map_cons, List.foldr_cons, ih]

namespace Block

/-- What the walk has found when it stands behind the first `i` lines. -/
theorem mem_foldr_liveBefore (block : Block n) (out : TempSet m) (i : Nat) :
    t ∈ (block.ops.drop i).foldr Op.liveBefore (out.insertAll block.operand.toList) ↔
      t.slot < m ∧ block.LiveFrom t i (t ∈ out) := by
  refine block.backward_induction (P := fun i =>
    t ∈ (block.ops.drop i).foldr Op.liveBefore (out.insertAll block.operand.toList) ↔
      t.slot < m ∧ block.LiveFrom t i (t ∈ out)) ?_ ?_ i
  · intro i hend
    rw [liveFrom_of_end hend, List.drop_eq_nil_of_le (List.getElem?_eq_none_iff.mp hend),
      List.foldr_nil, TempSet.mem_insertAll, Option.mem_toList]
    constructor
    · rintro (hout | ⟨hread, ht⟩)
      · exact ⟨TempSet.slot_lt_of_mem hout, .inr hout⟩
      · exact ⟨ht, .inl hread⟩
    · rintro ⟨ht, hread | hout⟩
      · exact .inr ⟨hread, ht⟩
      · exact .inl hout
  · intro i o ho ih
    obtain ⟨hi, rfl⟩ := List.getElem?_eq_some_iff.mp ho
    rw [liveFrom_of_op ho, List.drop_eq_getElem_cons hi, List.foldr_cons, Op.mem_liveBefore, ih]
    constructor
    · rintro (⟨hread, ht⟩ | ⟨hdest, ht, hlive⟩)
      · exact ⟨ht, .inl hread⟩
      · exact ⟨ht, .inr ⟨hdest, hlive⟩⟩
    · rintro ⟨ht, hread | ⟨hdest, hlive⟩⟩
      · exact .inl ⟨hread, ht⟩
      · exact .inr ⟨hdest, ht, hlive⟩

/-- The walk through a whole block ends with the transfer of its summary. -/
theorem foldr_liveBefore_eq_transfer (block : Block n) (out : TempSet m) :
    block.ops.foldr Op.liveBefore (out.insertAll block.operand.toList) =
      (block.summary m).transfer out := by
  refine TempSet.ext fun t => ?_
  rw [mem_transfer_summary]
  exact block.mem_foldr_liveBefore out 0

end Block

/-! ### The sets of a summary -/

theorem Op.mem_temps_iff {o : Op} : t ∈ o.temps ↔ ∃ a ∈ o.accesses, a.temp = t := by
  simp only [Op.temps, Op.accesses, List.mem_append, or_and_right, exists_or, List.mem_map,
    exists_exists_and_eq_and, Access.temp, exists_eq_right, or_comm]

/-- The temps of a block are those that occur in it. -/
theorem Block.mem_temps_iff {block : Block n} :
    t ∈ block.temps ↔ ∃ a ∈ block.accesses, a.temp = t := by
  simp only [Block.mem_temps, Op.mem_temps_iff, Block.accesses, List.mem_append, List.mem_flatMap,
    or_and_right, exists_or, List.mem_map, exists_exists_and_eq_and, Access.temp, Option.mem_toList,
    exists_eq_right]
  refine or_congr_left ⟨?_, ?_⟩
  · rintro ⟨o, ho, a, ha, rfl⟩
    exact ⟨a, ⟨o, ho, ha⟩, rfl⟩
  · rintro ⟨a, ⟨o, ho, ha⟩, rfl⟩
    exact ⟨o, ho, a, ha, rfl⟩

/-- The sets split the given temps, as far as they fit. -/
structure Summary.Splits (s : Summary m) (temps : List Temp) : Prop where
  disjoint : ∀ t ∈ s.defs, t ∉ s.uses
  mem_or_mem_iff : ∀ t, t ∈ s.defs ∨ t ∈ s.uses ↔ t.slot < m ∧ t ∈ temps

/-- A temp has one first occurrence at most, and it has one if it occurs. -/
theorem Block.splits_summary (m : Nat) (block : Block n) :
    (block.summary m).Splits block.temps := by
  have hsorts := block.sorts_summary m
  constructor
  · intro t hdef huse
    have hwrite := ((hsorts (.write t)).mp hdef).2
    have hread := ((hsorts (.read t)).mp huse).2
    exact absurd (hwrite.symm.trans hread) (by simp)
  · intro t
    constructor
    · intro h
      have ht : t.slot < m := h.elim TempSet.slot_lt_of_mem TempSet.slot_lt_of_mem
      rw [hsorts.occurred_iff ht, firstAccess, ne_eq, List.find?_eq_none] at h
      refine ⟨ht, Block.mem_temps_iff.mpr ?_⟩
      simpa using h
    · rintro ⟨ht, htemps⟩
      obtain ⟨a, ha, rfl⟩ := Block.mem_temps_iff.mp htemps
      rw [hsorts.occurred_iff ht, firstAccess, ne_eq, List.find?_eq_none]
      exact fun hnone => hnone a ha (by simp)

/-! ### Walks after a solve -/

/-- The walk through every block ends with what is stored as live in front of it. -/
def WalksAgree (blocks : List (Block n)) : Prop :=
  ∀ block ∈ blocks, (annotate block.liveAtEnd block.body).2 = block.liveIn

theorem Block.annotate_liveAtEnd (block : Block n) :
    (annotate block.liveAtEnd block.body).2 = (block.summary n).transfer block.liveOut := by
  rw [annotate_snd]
  exact block.foldr_liveBefore_eq_transfer block.liveOut

theorem walksAgree_setLiveness {blocks blocks' : List (Block n)} {limit : Option Nat} {v : Nat}
    (h : setLiveness blocks limit = .ok (v, blocks')) : WalksAgree blocks' := by
  intro block hmem
  obtain ⟨b, hb⟩ := List.getElem?_of_mem hmem
  rw [block.annotate_liveAtEnd, liveIn_of_setLiveness h hb]

/-- What the walk through a block and its result depend on. -/
def Block.walkFacts (b : Block n) : (List Op × Terminator) × TempSet n × TempSet n :=
  (b.shape, b.liveIn, b.liveOut)

/-- Walks agree as long as what they depend on stays. -/
theorem WalksAgree.of_map_eq {blocks blocks' : List (Block n)} (h : WalksAgree blocks)
    (heq : blocks'.map Block.walkFacts = blocks.map Block.walkFacts) : WalksAgree blocks' := by
  intro block' hmem'
  obtain ⟨b, hb'⟩ := List.getElem?_of_mem hmem'
  obtain ⟨block, hb, hfacts⟩ := exists_of_map_eq_map heq hb'
  simp only [Block.walkFacts, Block.shape, Prod.mk.injEq] at hfacts
  obtain ⟨⟨hops, hterm⟩, hin, hout⟩ := hfacts
  have hsummary : block'.summary n = block.summary n := by
    rw [Block.summary, Block.summary, Block.accesses, Block.accesses, hops, Block.operand,
      Block.operand, hterm]
  have hagree := h block (List.mem_of_getElem? hb)
  rw [block.annotate_liveAtEnd] at hagree
  rw [block'.annotate_liveAtEnd, hsummary, ← hout, ← hin, hagree]

namespace Graph

/-- Liveness of blocks has been computed, walks agree with it, and the blocks do what the given ones
do. -/
structure Walkable (blocks : List (Block n)) (g : Graph) : Prop where
  walksAgree : WalksAgree g.blocks
  computed : g.computed.contains .liveness = true
  sameShape : SameShape g.blocks blocks

/-- Walks agree until there is an insertion. -/
theorem Step.walkable {g g' : Graph} {c : Command} {blocks : List (Block n)} (h : g.Step c g')
    (hc : c.isInsertion = false) (hg : g.Walkable blocks) : g'.Walkable blocks := by
  refine ⟨?_, h.computed hc ▸ Command.contains_refresh_liveness hc hg.computed,
    (h.sameShape hc).trans hg.sameShape⟩
  cases h with
  | liveness hset => exact walksAgree_setLiveness hset
  | lineLiveness =>
    refine hg.walksAgree.of_map_eq (List.map_map.trans (List.map_congr_left fun b _ => ?_))
    exact Prod.ext (Prod.ext (ops_setLineLiveness b) rfl) rfl
  | chains hset =>
    exact hg.walksAgree.of_map_eq
      (map_eq_of_setChains (f := fun ops b => ((ops, b.terminator), b.liveIn, b.liveOut))
        (e := Line.op) hset (fun _ _ _ => rfl) fun _ _ => rfl)
  | insertion hins =>
    rw [hins] at hc
    cases hc
  | append => exact hg.walksAgree.of_map_eq (g.map_eq_of_append _ _ fun _ _ => rfl)

theorem walkable_of_liveness {g g' : Graph} {limit : Option Nat} {reply : Reply}
    (h : g.perform (.liveness limit) = .ok (reply, g')) : g'.Walkable g.blocks := by
  have hstep := step_of_perform h
  refine ⟨?_, hstep.computed rfl ▸ Analyses.contains_union_self .., hstep.sameShape rfl⟩
  cases hstep with
  | liveness hset => exact walksAgree_setLiveness hset
  | insertion hins => cases hins

/-- **Summaries and walks agree.** The transfer of a block takes what is live behind it to what the
block uses and what is live and not defined in it, and this is where the walk through the block
ends, whatever capacity the sets have. Both sets of a summary are disjoint, and together they are
the temps of the block that fit. So when liveness of blocks has been solved and nothing has been
inserted since, the blocks still do what they did before, the walk through a block ends with what is
stored as live in front of it, and computing liveness of lines leaves it so. -/
theorem walks_agree :
    (∀ {n m b : Nat} {blocks : List (Block n)} {block : Block n} (out : TempSet m)
        {body : List (Line m)}, blocks[b]? = some block → body.map Line.op = block.ops →
      (liveVariables n (blocks.map (Block.summary m))).transfer b block out =
          (block.summary m).uses.union (out.diff (block.summary m).defs) ∧
        (annotate (out.insertAll block.operand.toList) body).2 =
          (liveVariables n (blocks.map (Block.summary m))).transfer b block out) ∧
    (∀ {n : Nat} (m : Nat) (block : Block n), (block.summary m).Splits block.temps) ∧
    ∀ {g g₁ : Graph} {limit : Option Nat} {reply : Reply},
      g.perform (.liveness limit) = .ok (reply, g₁) →
      ∀ {between : List Command}, (∀ c ∈ between, c.isInsertion = false) →
        SameShape (g₁.applyAll between).blocks g.blocks ∧
        WalksAgree (g₁.applyAll between).blocks ∧
        ∃ g₂, (g₁.applyAll between).perform .lineLiveness = .ok (.done, g₂) ∧
          SameShape g₂.blocks g.blocks ∧ WalksAgree g₂.blocks := by
  refine ⟨fun {n m b blocks block} out {body} hb hbody => ?_, fun m block => block.splits_summary m,
    fun {g g₁ limit reply} hlive {between} hbetween => ?_⟩
  · rw [transfer_liveVariables hb, annotate_snd, hbody]
    refine ⟨TempSet.ext fun t => ?_, block.foldr_liveBefore_eq_transfer out⟩
    rw [mem_transfer, TempSet.mem_union, TempSet.mem_diff]
  · have hwalkable : (g₁.applyAll between).Walkable g.blocks :=
      applyAll_induction (fun hc hg hstep => hstep.walkable (hbetween _ hc) hg)
        (walkable_of_liveness hlive)
    have hperform := perform_lineLiveness hwalkable.computed
    have hlines := (step_of_perform hperform).walkable rfl hwalkable
    exact ⟨hwalkable.sameShape, hwalkable.walksAgree, _, hperform, hlines.sameShape,
      hlines.walksAgree⟩

end Graph

/-- A temp is used and then defined, one is defined and then used, one is updated from itself, and
one is only tested at the end. -/
def Block.motley : Block 0 :=
  .blank 0 0
    [.binary .add ⟨1⟩ ⟨0⟩ ⟨0⟩, .binary .mul ⟨0⟩ ⟨1⟩ ⟨2⟩, .binary .sub ⟨3⟩ ⟨3⟩ ⟨0⟩]
    (.branch .zero ⟨4⟩ 0 0)

/-- With room for the first four temps, the one that is tested is left out. -/
theorem Graph.walks_agree_motley :
    (∀ out : TempSet 4,
      (annotate (out.insertAll Block.motley.operand.toList)
          (Block.motley.ops.map (Line.blank 4))).2 =
        (Block.motley.summary 4).uses.union (out.diff (Block.motley.summary 4).defs)) ∧
    ∃ g g₁ g₂ reply, Graph.build .loop .structureOnly = .ok g ∧
      g.perform (.liveness none) = .ok (reply, g₁) ∧
      (g₁.applyAll [.chains]).perform .lineLiveness = .ok (.done, g₂) ∧
      SameShape g₂.blocks g.blocks ∧ WalksAgree g₂.blocks := by
  obtain ⟨hwalk, -, hsolve⟩ := walks_agree
  constructor
  · intro out
    have hblock : [Block.motley][0]? = some Block.motley := rfl
    have hbody : (Block.motley.ops.map (Line.blank 4)).map Line.op = Block.motley.ops := rfl
    obtain ⟨htransfer, hend⟩ := hwalk out hblock hbody
    exact hend.trans htransfer
  · have hloop : (Graph.build .loop .structureOnly >>= fun g =>
        g.perform (.liveness none)).isOk = true := by
      decide +kernel
    obtain ⟨⟨reply, g₁⟩, h⟩ := exists_eq_ok hloop
    obtain ⟨g, hg, hg₁⟩ := bind_eq_ok_iff.mp h
    have hbetween : ∀ c ∈ [Command.chains], c.isInsertion = false := by decide
    obtain ⟨-, -, g₂, hg₂, hagree⟩ := hsolve hg₁ hbetween
    exact ⟨g, g₁, g₂, reply, hg, hg₁, hg₂, hagree⟩

end FlowFacts
