import FlowFacts.Proofs.Graph.Temps
import FlowFacts.Proofs.Liveness.Summary

/-!
# Liveness of blocks is exact

A finished solve of the liveness equations has found just the temps that are live. It has found no
other, because every visit computes live temps from live temps. And it has missed none: the sets
satisfy the equations, and whatever satisfies them holds a live temp at every block along the path
to where it is read.

## Main results

* `liveAt_of_liveFrom` — liveness is passed by blocks
* `liveFrom_of_liveAt` — and it is the least that is
* `Graph.exactLiveness_of_setLiveness` — stored liveness is exact
-/

namespace FlowFacts

variable {n : Nat} {t : Temp} {blocks : List (Block n)} {b i : Nat} {block : Block n}

/-! ### Passing blocks -/

theorem liveAt_of_liveFrom (hb : blocks[b]? = some block) (hi : i ≤ block.ops.length)
    (h : block.LiveFrom t i (∃ s ∈ block.successors, LiveAt blocks t (.start s))) :
    LiveAt blocks t ⟨b, i⟩ := by
  revert h
  refine block.backward_induction_le (P := fun i =>
    block.LiveFrom t i (∃ s ∈ block.successors, LiveAt blocks t (.start s)) →
      LiveAt blocks t ⟨b, i⟩) ?_ ?_ hi
  · intro h
    rw [liveAt_of_end_iff hb]
    exact (Block.liveFrom_of_end (List.getElem?_length _)).mp h
  · intro i o ho ih h
    rw [liveAt_of_op_iff hb ho]
    rw [Block.liveFrom_of_op ho] at h
    exact h.imp_right (And.imp_right ih)

/-- What blocks pass on holds of a live temp, all along the path to where it is read. -/
theorem liveFrom_of_liveAt {L : Nat → Prop}
    (hL : ∀ {b : Nat} {block : Block n}, blocks[b]? = some block →
      block.LiveFrom t 0 (∃ s ∈ block.successors, L s) → L b)
    {p : Point} (h : LiveAt blocks t p) :
    ∃ block, blocks[p.block]? = some block ∧
      block.LiveFrom t p.index (∃ s ∈ block.successors, L s) := by
  obtain ⟨q, hc, hr⟩ := h
  induction hc with
  | refl q =>
    cases hr with
    | line hb ho ht => exact ⟨_, hb, (Block.liveFrom_of_op ho).mpr (.inl ht)⟩
    | @terminator b block hb ht =>
      have hend := List.getElem?_length block.ops
      exact ⟨block, hb, (Block.liveFrom_of_end hend).mpr (.inl ht)⟩
  | step hp _ ih =>
    obtain ⟨next, hnext, hlive⟩ := ih hr
    cases hp with
    | line hb ho hd =>
      obtain rfl := Option.some.inj (hnext.symm.trans hb)
      exact ⟨next, hb, (Block.liveFrom_of_op ho).mpr (.inr ⟨hd, hlive⟩)⟩
    | @edge b s block hb hs =>
      have hend := List.getElem?_length block.ops
      exact ⟨block, hb, (Block.liveFrom_of_end hend).mpr (.inr ⟨s, hs, hL hnext hlive⟩)⟩

/-! ### Solutions -/

variable {m : Nat} {summaries : List (Summary m)}

theorem mem_foldl_union {sets : List (TempSet m)} {set : TempSet m} :
    t ∈ sets.foldl .union set ↔ t ∈ set ∨ ∃ x ∈ sets, t ∈ x := by
  induction sets generalizing set with
  | nil => simp
  | cons x sets ih =>
    rw [List.foldl_cons, ih, TempSet.mem_union, List.exists_mem_cons_iff, or_assoc]

/-- What is live at the end of a block is what is live at the beginning of its successors. -/
theorem mem_output_liveVariables {inputs : List (TempSet m)} {successors : List Nat} :
    t ∈ (liveVariables n summaries).output inputs successors ↔
      ∃ s ∈ successors, ∃ x, inputs[s]? = some x ∧ t ∈ x := by
  have hsets : (∃ x ∈ successors.filterMap (inputs[·]?), t ∈ x) ↔
      ∃ s ∈ successors, ∃ x, inputs[s]? = some x ∧ t ∈ x := by
    simp only [List.mem_filterMap]
    constructor
    · rintro ⟨x, ⟨s, hs, hx⟩, ht⟩
      exact ⟨s, hs, x, hx, ht⟩
    · rintro ⟨s, hs, x, hx, ht⟩
      exact ⟨x, ⟨s, hs, hx⟩, ht⟩
  rw [← hsets, Problem.output]
  cases successors.filterMap (inputs[·]?) with
  | nil => simp [liveVariables]
  | cons x xs =>
    rw [List.exists_mem_cons_iff]
    exact mem_foldl_union

theorem transfer_liveVariables (hb : blocks[b]? = some block) (out : TempSet m) :
    (liveVariables n (blocks.map (Block.summary m))).transfer b block out =
      (block.summary m).transfer out := by
  simp only [liveVariables, List.getElem?_map, hb, Option.map_some]

/-- The in-states of a finished solve hold the temps that are live. -/
theorem mem_inputs_iff {solution : Solution (TempSet n)} {limit : Option Nat}
    (h : solveLiveness blocks limit = .ok solution)
    (hfit : ∀ {t : Temp} {p : Point}, Reads blocks t p → t.slot < n) {x : TempSet n}
    (hx : solution.inputs[b]? = some x) : t ∈ x ↔ LiveAt blocks t (.start b) := by
  constructor
  · refine fun ht => solve_inputs h
      (P := fun b x => ∀ t ∈ x, LiveAt blocks t (.start b)) ?_ ?_ hx t ht
    · intro b t ht
      exact absurd ht (TempSet.not_mem_empty t)
    · intro inputs b block hinputs hb t ht
      rw [transfer_liveVariables hb, Block.mem_transfer_summary] at ht
      refine liveAt_of_liveFrom hb (Nat.zero_le _) (ht.2.imp fun hout => ?_)
      obtain ⟨s, hs, y, hy, hty⟩ := mem_output_liveVariables.mp hout
      exact ⟨s, hs, hinputs hy t hty⟩
  · intro hlive
    have hslot : t.slot < n := by
      obtain ⟨q, -, hr⟩ := hlive
      exact hfit hr
    obtain ⟨-, -, hsolved⟩ := solves_of_solve h
    -- the in-states are passed on by blocks, because they satisfy the equations
    have hpassed : ∀ {b : Nat} {block : Block n}, blocks[b]? = some block →
        block.LiveFrom t 0 (∃ s ∈ block.successors, ∃ y, solution.inputs[s]? = some y ∧ t ∈ y) →
          ∃ y, solution.inputs[b]? = some y ∧ t ∈ y := by
      intro b block hb hfrom
      refine ⟨_, (hsolved hb).2, ?_⟩
      rw [transfer_liveVariables hb, Block.mem_transfer_summary]
      exact ⟨hslot, hfrom.imp mem_output_liveVariables.mpr⟩
    obtain ⟨block, hb, hfrom⟩ := liveFrom_of_liveAt hpassed hlive
    obtain ⟨y, hy, hty⟩ := hpassed hb hfrom
    obtain rfl : y = x := Option.some.inj (hy.symm.trans hx)
    exact hty

/-! ### Stored liveness -/

/-- The stored sets of every block hold the temps that are live at its beginning, and those that are
live at the beginning of some successor. -/
structure ExactLiveness (blocks : List (Block n)) : Prop where
  mem_liveIn_iff : ∀ {b : Nat} {block : Block n} {t : Temp}, blocks[b]? = some block →
    (t ∈ block.liveIn ↔ LiveAt blocks t (.start b))
  mem_liveOut_iff : ∀ {b : Nat} {block : Block n} {t : Temp}, blocks[b]? = some block →
    (t ∈ block.liveOut ↔ ∃ s ∈ block.successors, ∃ next, blocks[s]? = some next ∧ t ∈ next.liveIn)

/-- Stored liveness passes along the edges. -/
theorem mem_liveOut_iff_of_setLiveness {blocks' : List (Block n)} {limit : Option Nat} {v : Nat}
    {block' : Block n} (h : setLiveness blocks limit = .ok (v, blocks'))
    (hb : blocks'[b]? = some block') :
    t ∈ block'.liveOut ↔
      ∃ s ∈ block'.successors, ∃ next, blocks'[s]? = some next ∧ t ∈ next.liveIn := by
  obtain ⟨solution, hsolve, hlen, hget⟩ := exists_of_setLiveness h
  obtain ⟨hinputs, -, hsolved⟩ := solves_of_solve hsolve
  obtain ⟨block, hblock, -, hout, heq⟩ := hget hb
  have hterm : block'.terminator = block.terminator := heq ▸ rfl
  have hset : block'.liveOut = _ := Option.some.inj (hout.symm.trans (hsolved hblock).1)
  rw [hset, mem_output_liveVariables, Block.successors, Block.successors, hterm]
  constructor
  · rintro ⟨s, hs, x, hx, ht⟩
    have hlt : s < blocks'.length := by
      have := (List.getElem?_eq_some_iff.mp hx).1
      omega
    have hnext := List.getElem?_eq_getElem hlt
    obtain ⟨_, -, hin, -, -⟩ := hget hnext
    obtain rfl : x = _ := Option.some.inj (hx.symm.trans hin)
    exact ⟨s, hs, _, hnext, ht⟩
  · rintro ⟨s, hs, next, hnext, ht⟩
    obtain ⟨_, -, hin, -, -⟩ := hget hnext
    exact ⟨s, hs, _, hin, ht⟩

/-- What is stored as live in front of a block is the transfer of what is live behind it. -/
theorem liveIn_of_setLiveness {blocks' : List (Block n)} {limit : Option Nat} {v : Nat}
    {block' : Block n} (h : setLiveness blocks limit = .ok (v, blocks'))
    (hb : blocks'[b]? = some block') :
    block'.liveIn = (block'.summary n).transfer block'.liveOut := by
  obtain ⟨solution, hsolve, -, hget⟩ := exists_of_setLiveness h
  obtain ⟨-, -, hsolved⟩ := solves_of_solve hsolve
  obtain ⟨block, hblock, hin, hout, heq⟩ := hget hb
  have hsummary : block'.summary n = block.summary n := heq ▸ rfl
  rw [hsummary, ← transfer_liveVariables hblock,
    Option.some.inj (hout.symm.trans (hsolved hblock).1)]
  exact Option.some.inj (hin.symm.trans (hsolved hblock).2)

theorem exactLiveness_setLiveness {blocks' : List (Block n)} {limit : Option Nat} {v : Nat}
    (hfit : ∀ {t : Temp} {p : Point}, Reads blocks t p → t.slot < n)
    (h : setLiveness blocks limit = .ok (v, blocks')) : ExactLiveness blocks' := by
  refine ⟨fun {b block' t} hb => ?_, mem_liveOut_iff_of_setLiveness h⟩
  obtain ⟨solution, hsolve, -, hget⟩ := exists_of_setLiveness h
  obtain ⟨block, -, hin, -, -⟩ := hget hb
  rw [mem_inputs_iff hsolve hfit hin]
  exact (sameShape_setLiveness h).symm.liveAt_iff

/-- **Liveness of blocks is exact.** Storing liveness leaves alone what the blocks do. A temp is
then in the live-in set of a block just if it may be read from there on before it is written, and in
the live-out set just if it is in the live-in set of a successor. -/
theorem Graph.exactLiveness_of_setLiveness {g g' : Graph} {fresh : Analyses} {limit : Option Nat}
    {v : Nat} (hg : g.Reachable fresh) (h : g.setLiveness limit = .ok (v, g')) :
    SameShape g'.blocks g.blocks ∧ ExactLiveness g'.blocks := by
  obtain ⟨⟨_, blocks⟩, hset, hg'⟩ := bind_eq_ok_iff.mp h
  cases hg'
  exact ⟨sameShape_setLiveness hset, exactLiveness_setLiveness hg.slot_lt_of_reads hset⟩

/-- The loop after an insertion, which leaves no temp live at the entry. -/
theorem Graph.exactLiveness_loop :
    ∃ g₀ reply g v g', Graph.build .loop .full = .ok g₀ ∧
      g₀.perform (.insertBefore 0 0 (.op (.const ⟨1⟩ (.int 1)))) = .ok (reply, g) ∧
      g.setLiveness none = .ok (v, g') ∧ SameShape g'.blocks g.blocks ∧
      ExactLiveness g'.blocks := by
  have hloop : (Graph.build .loop .full >>= fun g =>
      g.perform (.insertBefore 0 0 (.op (.const ⟨1⟩ (.int 1)))) >>= fun p =>
        p.2.setLiveness none).isOk = true := by
    decide +kernel
  obtain ⟨⟨v, g'⟩, h⟩ := exists_eq_ok hloop
  obtain ⟨g₀, hg₀, h⟩ := bind_eq_ok_iff.mp h
  obtain ⟨⟨reply, g⟩, hg, h⟩ := bind_eq_ok_iff.mp h
  exact ⟨g₀, reply, g, v, g', hg₀, hg, h,
    exactLiveness_of_setLiveness (.performed (.built hg₀) hg) h⟩

end FlowFacts
