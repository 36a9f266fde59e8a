import FlowFacts.Graph.Command
import FlowFacts.Proofs.Chain.Search
import Mathlib.Data.Finset.Card
import Mathlib.Data.Finset.Range

/-!
# The search for uses stays within its limit

An entry on the stack is one deeper than the block that put it there, and that block was scanned and
the temp survived it. So no entry is deeper than the number of such blocks, plus one. The defining
block is not among them: a scan of it from the beginning ends with the definition at the latest.
That leaves room for one more, and the limit is the number of blocks.

## Main results

* `exists_search` — a search for a temp that some block writes does not fail
* `Block.exists_chain` — every definition has a chain
* `exists_setChains` — chains can always be stored
* `Graph.exists_chain_and_setChains` — no definition and no graph is without chains
-/

namespace FlowFacts

variable {n : Nat} {blocks : List (Block n)} {t : Temp} {b : Nat} {block : Block n}
  {scanned : List Nat}

/-- Does no operation of block `b` write the temp? -/
def survives (blocks : List (Block n)) (t : Temp) (b : Nat) : Bool :=
  blocks[b]?.any fun block => !(block.scan b t 0).2

theorem survives_iff (hb : blocks[b]? = some block) :
    survives blocks t b = true ↔ (block.scan b t 0).2 = false := by
  simp [survives, hb]

/-- The number of scanned blocks that the temp survived. -/
def passedCount (blocks : List (Block n)) (t : Temp) (scanned : List Nat) : Nat :=
  ((Finset.range blocks.length).filter fun b => b ∈ scanned ∧ survives blocks t b = true).card

theorem passedCount_le_cons (blocks : List (Block n)) (t : Temp) (scanned : List Nat) (b : Nat) :
    passedCount blocks t scanned ≤ passedCount blocks t (b :: scanned) := by
  refine Finset.card_le_card (Finset.monotone_filter_right _ fun c _ hc => ?_)
  exact ⟨List.mem_cons_of_mem b hc.1, hc.2⟩

/-- A block that the temp survives counts when it is scanned for the first time. -/
theorem passedCount_lt_cons (hb : blocks[b]? = some block) (hs : b ∉ scanned)
    (hk : (block.scan b t 0).2 = false) :
    passedCount blocks t scanned < passedCount blocks t (b :: scanned) := by
  refine Finset.card_lt_card (Finset.ssubset_iff_of_subset ?_ |>.mpr ⟨b, ?_, ?_⟩)
  · exact Finset.monotone_filter_right _ fun c _ hc => ⟨List.mem_cons_of_mem b hc.1, hc.2⟩
  · rw [Finset.mem_filter, Finset.mem_range]
    exact ⟨(List.getElem?_eq_some_iff.mp hb).1, List.mem_cons_self, (survives_iff hb).mpr hk⟩
  · rw [Finset.mem_filter]
    exact fun h => hs h.2.1

/-- A block that writes the temp never counts. -/
theorem passedCount_lt_length (scanned : List Nat) (hb : blocks[b]? = some block)
    (hk : (block.scan b t 0).2 = true) :
    passedCount blocks t scanned < blocks.length := by
  have hmem : b ∈ Finset.range blocks.length :=
    Finset.mem_range.mpr (List.getElem?_eq_some_iff.mp hb).1
  calc passedCount blocks t scanned < (Finset.range blocks.length).card := by
        refine Finset.card_lt_card (Finset.filter_ssubset.mpr ⟨b, hmem, ?_⟩)
        rw [survives_iff hb, hk]
        exact fun h => nomatch h.2
    _ = blocks.length := Finset.card_range _

/-- A search for a temp that some block writes does not fail. -/
theorem exists_search (hb : blocks[b]? = some block) (hk : (block.scan b t 0).2 = true)
    {stack : List (Nat × Nat)}
    (hstack : ∀ p ∈ stack, p.2 ≤ passedCount blocks t scanned + 1) :
    ∃ uses, search blocks t blocks.length stack scanned = .ok uses := by
  fun_induction search blocks t blocks.length stack scanned with
  | case1 => exact ⟨[], rfl⟩
  | case2 scanned c depth rest hlimit =>
    have hdepth := hstack _ List.mem_cons_self
    have := passedCount_lt_length scanned hb hk
    simp only at hdepth
    omega
  | case3 scanned c depth rest _ _ ih => exact ih fun p hp => hstack p (List.mem_cons_of_mem _ hp)
  | case4 scanned c depth rest _ hs hc found killed hscan ih =>
    have hget : blocks[c]? = some blocks[c] := List.getElem?_eq_getElem hc
    have hrest := passedCount_le_cons blocks t scanned c
    obtain ⟨uses, huses⟩ := ih fun p hp => by
      rcases List.mem_append.mp hp with hp | hp
      · -- entries that the block puts there come with a block that was survived
        obtain ⟨rfl, s, -, rfl⟩ := Block.mem_onward.mp hp
        have hdepth := hstack _ List.mem_cons_self
        have hcount := passedCount_lt_cons hget hs (t := t) (by rw [hscan])
        simp only at hdepth ⊢
        omega
      · have := hstack p (List.mem_cons_of_mem _ hp)
        omega
    exact ⟨found ++ uses, by rw [huses]; rfl⟩
  | case5 scanned c depth rest _ _ _ ih =>
    exact ih fun p hp => hstack p (List.mem_cons_of_mem _ hp)

/-- A scan from the beginning of a block does not get past a line that writes the temp. -/
theorem Block.killed_of_dest {i : Nat} {o : Op} (ho : block.ops[i]? = some o)
    (hd : o.dest = some t) : (block.scan b t 0).2 = true := by
  by_contra hk
  rw [Bool.not_eq_true] at hk
  have hsurvives : ∀ j ≤ i, (block.scan b t j).2 = false := by
    intro j
    induction j with
    | zero => exact fun _ => hk
    | succ j ih =>
      intro hj
      have hlt : j < block.ops.length :=
        Nat.lt_trans hj (List.getElem?_eq_some_iff.mp ho).1
      exact ((survives_of_op (List.getElem?_eq_getElem hlt)).mp (ih (Nat.le_of_succ_le hj))).2
  exact ((survives_of_op ho).mp (hsurvives i (Nat.le_refl i))).1 hd

/-- Every definition has a chain. -/
theorem Block.exists_chain {i : Nat} {o : Op} (hb : blocks[b]? = some block)
    (ho : block.ops[i]? = some o) (hd : o.dest = some t) :
    ∃ chain, block.chain blocks b i t = .ok chain := by
  have hstack : ∀ p ∈ block.onward (block.scan b t (i + 1)).2 0,
      p.2 ≤ passedCount blocks t [] + 1 := by
    intro p hp
    obtain ⟨-, s, -, rfl⟩ := Block.mem_onward.mp hp
    exact Nat.le_add_left ..
  obtain ⟨found, hfound⟩ := exists_search hb (Block.killed_of_dest ho hd) hstack
  exact ⟨_, map_eq_ok_iff.mpr ⟨found, hfound, rfl⟩⟩

theorem Block.exists_setChains (hb : blocks[b]? = some block) :
    ∃ block', block.setChains blocks b = .ok block' := by
  refine exists_bind_eq_ok (exists_mapM_eq_ok fun p hmem => ?_) fun body => ⟨_, rfl⟩
  have hl : block.body[p.2]? = some p.1 := List.mem_zipIdx_iff_getElem?.mp hmem
  have ho : block.ops[p.2]? = some p.1.op := by rw [Block.ops, List.getElem?_map, hl]; rfl
  cases hd : p.1.op.dest with
  | none => exact ⟨_, rfl⟩
  | some t =>
    obtain ⟨chain, hchain⟩ := Block.exists_chain hb ho hd
    exact ⟨_, map_eq_ok_iff.mpr ⟨chain, hchain, rfl⟩⟩

/-- Chains can always be stored. -/
theorem exists_setChains (blocks : List (Block n)) : ∃ found, setChains blocks = .ok found :=
  exists_bind_eq_ok (exists_mapM_eq_ok fun _ hmem =>
    Block.exists_setChains (List.mem_zipIdx_iff_getElem?.mp hmem)) fun _ => ⟨_, rfl⟩

/-- **The search never gets too deep.** Every line that writes a temp has a chain. So the chains of a
graph can be stored at any time, whatever has been inserted into it. -/
theorem Graph.exists_chain_and_setChains :
    (∀ {n : Nat} {blocks : List (Block n)} {b i : Nat} {block : Block n} {o : Op} {t : Temp},
      blocks[b]? = some block → block.ops[i]? = some o → o.dest = some t →
        ∃ chain, block.chain blocks b i t = .ok chain) ∧
    ∀ g : Graph, ∃ d g', g.setChains = .ok (d, g') := by
  refine ⟨Block.exists_chain, fun g => ?_⟩
  obtain ⟨⟨d, blocks⟩, hset⟩ := FlowFacts.exists_setChains g.blocks
  exact ⟨d, _, bind_eq_ok_iff.mpr ⟨_, hset, rfl⟩⟩

/-- A circle of blocks. The search goes all the way round and comes back to the definition at a
depth that is the number of blocks. -/
def Block.circle : List (Block 1) := [
  .blank 1 0 [.const ⟨0⟩ (.int 1)] (.jump 1),
  .blank 1 1 [] (.jump 2),
  .blank 1 2 [.param ⟨0⟩] (.jump 0)]

theorem Graph.exists_chain_circle :
    ∃ block, Block.circle[0]? = some block ∧
      block.ops[0]? = some (.const ⟨0⟩ (.int 1)) ∧
      search Block.circle ⟨0⟩ 2 (block.onward false 0) [] = .error (.recursionLimit 2) ∧
      ∃ chain, block.chain Block.circle 0 0 ⟨0⟩ = .ok chain :=
  ⟨_, rfl, rfl, by decide +kernel, exists_chain_and_setChains.1 rfl rfl rfl⟩

end FlowFacts
