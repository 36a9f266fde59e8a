import FlowFacts.Proofs.Block.Shape
import FlowFacts.Proofs.Dataflow.Related
import FlowFacts.Proofs.Pruning.Survivors

/-!
# Padding that pruning removes

Blocks may be followed by others that nothing leads to. These padding blocks may lead back, and they
may lead to padding further ahead, but not to padding behind: a circle of blocks keeps itself alive
as far as counting edges can tell. Then all padding is dead, the first block of it because nothing
leads there and every other one because only dead blocks do.

Dead blocks do not count, so pruning makes the same decisions about the blocks in front with padding
as without. What stays is the same and is numbered the same, and jumps are threaded to the same
blocks.

## Main definitions

* `Padded` — blocks with padding behind them

## Main results

* `Padded.dead_iff`, `Padded.dead_of_le` — what is dead with padding
* `Padded.exists_prune_iff` — padding does not make pruning fail or succeed
* `Padded.sameShape_prune` — pruning gives the same blocks
* `Padded.forward_eq` — control to a block goes to the same place
-/

namespace FlowFacts

variable {n n' : Nat} {blocks : List (Block n)} {blocks' : List (Block n')}

/-- The blocks are followed by padding, which leads back to them or ahead. -/
structure Padded (blocks : List (Block n)) (blocks' : List (Block n')) : Prop where
  nonempty : blocks ≠ []
  targetsExist : TargetsExist blocks
  targetsExist_padded : TargetsExist blocks'
  block : ∀ {k : Nat} {block : Block n}, blocks[k]? = some block →
    ∃ block', blocks'[k]? = some block' ∧ block'.ops = block.ops ∧
      block'.terminator = block.terminator
  padding : ∀ {k s : Nat} {block' : Block n'}, blocks.length ≤ k → blocks'[k]? = some block' →
    s ∈ block'.successors → s < blocks.length ∨ k < s

/-- A redirect leads to a block. -/
theorem Redirects.target_lt {b t : Nat} (h : Redirects blocks b t) (hblocks : TargetsExist blocks) :
    t < blocks.length := by
  cases h with
  | intro _ hb _ hjump =>
    refine hblocks _ (List.mem_of_getElem? hb) t ?_
    rw [Block.successors, hjump]
    exact List.mem_singleton_self t

theorem goesAstray_iff {b : Nat} :
    GoesAstray blocks b ↔ Stays blocks b ∧
      ∃ block, blocks[b]? = some block ∧ ∃ s ∈ block.successors, LeadsAstray blocks s := by
  constructor
  · rintro ⟨block, hb, hstays, hs⟩
    refine ⟨⟨block, hb, hstays⟩, ?_⟩
    rw [getElem?_marked] at hb
    obtain ⟨b₀, hb₀, rfl⟩ := Option.map_eq_some_iff.mp hb
    exact ⟨b₀, hb₀, hs⟩
  · rintro ⟨⟨block, hb, hstays⟩, b₀, hb₀, hs⟩
    refine ⟨block, hb, hstays, ?_⟩
    rw [getElem?_marked, hb₀, Option.map_some] at hb
    exact Option.some.inj hb ▸ hs

/-- Threading is determined by where the targets land, if no branch is left with equal targets. -/
theorem Terminator.Threads.unique {L L' : Nat → Nat → Prop} {x y y' : Terminator}
    (h : x.Threads L y) (h' : x.Threads L' y')
    (hL : ∀ s ∈ x.successors, ∀ k k', L s k → L' s k' → k = k')
    (hy : ∀ {test c t f}, y = .branch test c t f → t ≠ f)
    (hy' : ∀ {test c t f}, y' = .branch test c t f → t ≠ f) : y = y' := by
  cases h with
  | ret v =>
    cases h' with
    | ret _ => rfl
  | jump ht =>
    cases h' with
    | jump ht' => rw [hL _ List.mem_cons_self _ _ ht ht']
  | @branch _ _ t f _ _ ht hf =>
    have hmem : f ∈ [t, f] := List.mem_cons_of_mem _ List.mem_cons_self
    cases h' with
    | branch ht' hf' => rw [hL _ List.mem_cons_self _ _ ht ht', hL _ hmem _ _ hf hf']
    | merged ht' hf' =>
      have heq := (hL _ List.mem_cons_self _ _ ht ht').trans (hL _ hmem _ _ hf hf').symm
      exact absurd heq (hy rfl)
  | @merged _ _ t f _ ht hf =>
    have hmem : f ∈ [t, f] := List.mem_cons_of_mem _ List.mem_cons_self
    cases h' with
    | branch ht' hf' =>
      have heq := (hL _ List.mem_cons_self _ _ ht ht').symm.trans (hL _ hmem _ _ hf hf')
      exact absurd heq (hy' rfl)
    | merged ht' hf' => rw [hL _ List.mem_cons_self _ _ ht ht']

namespace Padded

/-- Blocks in front of the padding are those without it. -/
theorem exists_block (h : Padded blocks blocks') {k : Nat} {block' : Block n'}
    (hlt : k < blocks.length) (hk : blocks'[k]? = some block') :
    ∃ block, blocks[k]? = some block ∧ block'.ops = block.ops ∧
      block'.terminator = block.terminator := by
  have hb := List.getElem?_eq_getElem hlt
  obtain ⟨b', hb', hops, hterm⟩ := h.block hb
  obtain rfl := Option.some.inj (hb'.symm.trans hk)
  exact ⟨_, hb, hops, hterm⟩

theorem lt_length (h : Padded blocks blocks') {k : Nat} (hlt : k < blocks.length) :
    k < blocks'.length := by
  obtain ⟨block', hk, -⟩ := h.block (List.getElem?_eq_getElem hlt)
  exact (List.getElem?_eq_some_iff.mp hk).1

/-! ### Dead blocks -/

/-- All padding is dead: nothing in front leads there, and padding leads ahead. -/
theorem dead_of_le (h : Padded blocks blocks') {k : Nat} (hle : blocks.length ≤ k)
    (hlt : k < blocks'.length) : Dead blocks' k := by
  have hpos := List.length_pos_of_ne_nil h.nonempty
  induction k using Nat.strong_induction_on with
  | h k ih =>
    refine .intro hlt (by omega) fun {c block'} hc hk => ?_
    have hclt := (List.getElem?_eq_some_iff.mp hc).1
    by_cases hfront : c < blocks.length
    · obtain ⟨block, hb, -, hterm⟩ := h.exists_block hfront hc
      rw [Block.successors, hterm] at hk
      have hk' := h.targetsExist block (List.mem_of_getElem? hb) k hk
      omega
    · have hc' : c < k := by
        rcases h.padding (Nat.le_of_not_lt hfront) hc hk with hk | hk
        · omega
        · exact hk
      exact ih c hc' (Nat.le_of_not_lt hfront) hclt

/-- Padding neither brings a block to life nor kills it. -/
theorem dead_iff (h : Padded blocks blocks') {k : Nat} (hlt : k < blocks.length) :
    Dead blocks' k ↔ Dead blocks k := by
  constructor
  · intro hdead
    induction hdead with
    | intro _ hne _ ih =>
      refine .intro hlt hne fun hc hk => ?_
      obtain ⟨block', hc', -, hterm⟩ := h.block hc
      exact ih hc' (by rwa [Block.successors, hterm]) (List.getElem?_eq_some_iff.mp hc).1
  · intro hdead
    induction hdead with
    | intro hlt hne _ ih =>
      refine .intro (h.lt_length hlt) hne fun {c block'} hc' hk => ?_
      by_cases hfront : c < blocks.length
      · obtain ⟨block, hc, -, hterm⟩ := h.exists_block hfront hc'
        rw [Block.successors, hterm] at hk
        exact ih hc hk hfront
      · exact h.dead_of_le (Nat.le_of_not_lt hfront) (List.getElem?_eq_some_iff.mp hc').1

theorem mayRun_iff (h : Padded blocks blocks') {k : Nat} (hlt : k < blocks.length) :
    MayRun blocks' k ↔ MayRun blocks k := by
  rw [← not_iff_not, not_mayRun_iff_dead hlt,
    not_mayRun_iff_dead (h.lt_length hlt), h.dead_iff hlt]

theorem not_mayRun_of_le (h : Padded blocks blocks') {k : Nat} (hle : blocks.length ≤ k)
    (hlt : k < blocks'.length) : ¬MayRun blocks' k :=
  (not_mayRun_iff_dead hlt).mpr (h.dead_of_le hle hlt)

/-! ### Redirects -/

theorem redirects_iff (h : Padded blocks blocks') {b t : Nat} (hlt : b < blocks.length) :
    Redirects blocks' b t ↔ Redirects blocks b t := by
  have hbody : ∀ {block : Block n} {block' : Block n'}, block'.ops = block.ops →
      (block'.body = [] ↔ block.body = []) := by
    intro block block' hops
    rw [← List.map_eq_nil_iff (f := Line.op), ← List.map_eq_nil_iff (f := Line.op)]
    exact Eq.congr_left hops
  constructor
  · rintro ⟨hne, hb', hnil, hjump⟩
    obtain ⟨block, hb, hops, hterm⟩ := h.exists_block hlt hb'
    exact .intro hne hb ((hbody hops).mp hnil) (hterm.symm.trans hjump)
  · rintro ⟨hne, hb, hnil, hjump⟩
    obtain ⟨block', hb', hops, hterm⟩ := h.block hb
    exact .intro hne hb' ((hbody hops).mpr hnil) (hterm.trans hjump)

theorem leads (h : Padded blocks blocks') {k b c : Nat} (hlead : Leads blocks k b c)
    (hlt : b < blocks.length) : Leads blocks' k b c := by
  induction hlead with
  | here hc => exact .here fun t ht => hc t ((h.redirects_iff hlt).mp ht)
  | onward hb _ ih =>
    exact .onward ((h.redirects_iff hlt).mpr hb) (ih (hb.target_lt h.targetsExist))

theorem leadsAstray_iff (h : Padded blocks blocks') {b : Nat} (hlt : b < blocks.length) :
    LeadsAstray blocks' b ↔ LeadsAstray blocks b := by
  constructor
  · rintro ⟨path, rfl, hpath⟩
    have hfront : ∀ k, path k < blocks.length := by
      intro k
      induction k with
      | zero => exact hlt
      | succ k ih => exact ((h.redirects_iff ih).mp (hpath k)).target_lt h.targetsExist
    exact ⟨path, rfl, fun k => (h.redirects_iff (hfront k)).mp (hpath k)⟩
  · rintro ⟨path, rfl, hpath⟩
    exact ⟨path, rfl, fun k => (h.redirects_iff (hpath k).lt_length).mpr (hpath k)⟩

/-! ### What stays -/

/-- The same blocks stay. -/
theorem stays_iff (h : Padded blocks blocks') {b : Nat} : Stays blocks' b ↔ Stays blocks b := by
  rw [FlowFacts.stays_iff, FlowFacts.stays_iff]
  by_cases hlt : b < blocks.length
  · simp only [h.mayRun_iff hlt, h.redirects_iff hlt, hlt, h.lt_length hlt]
  · refine iff_of_false ?_ fun hb => hlt hb.1
    rintro ⟨hlt', hrun, -⟩
    exact h.not_mayRun_of_le (Nat.le_of_not_lt hlt) hlt' hrun

theorem goesAstray_iff (h : Padded blocks blocks') {b : Nat} :
    GoesAstray blocks' b ↔ GoesAstray blocks b := by
  rw [FlowFacts.goesAstray_iff, FlowFacts.goesAstray_iff, h.stays_iff]
  refine and_congr_right fun hstays => ?_
  have hlt := (FlowFacts.stays_iff.mp hstays).1
  constructor
  · rintro ⟨block', hb', s, hs, hastray⟩
    obtain ⟨block, hb, -, hterm⟩ := h.exists_block hlt hb'
    rw [Block.successors, hterm] at hs
    exact ⟨block, hb, s, hs,
      (h.leadsAstray_iff (h.targetsExist block (List.mem_of_getElem? hb) s hs)).mp hastray⟩
  · rintro ⟨block, hb, s, hs, hastray⟩
    obtain ⟨block', hb', -, hterm⟩ := h.block hb
    refine ⟨block', hb', s, by rwa [Block.successors, hterm], ?_⟩
    exact (h.leadsAstray_iff (h.targetsExist block (List.mem_of_getElem? hb) s hs)).mpr hastray

/-- Padding does not make pruning fail or succeed. -/
theorem exists_prune_iff (h : Padded blocks blocks') :
    (∃ pruned, prune blocks' = .ok pruned) ↔ ∃ pruned, prune blocks = .ok pruned := by
  rw [FlowFacts.exists_prune_iff h.targetsExist, FlowFacts.exists_prune_iff h.targetsExist_padded]
  simp only [h.goesAstray_iff]

/-! ### New numbers -/

theorem getElem?_cancelled (h : Padded blocks blocks') {k : Nat} (hlt : k < blocks.length) :
    ((marked blocks').map Block.cancelled)[k]? = ((marked blocks).map Block.cancelled)[k]? := by
  have hb : k < (marked blocks).length := by simpa using hlt
  have hb' : k < (marked blocks').length := by simpa using h.lt_length hlt
  have hstays := h.stays_iff (b := k)
  simp only [Stays, List.getElem?_eq_getElem hb, List.getElem?_eq_getElem hb'] at hstays
  simpa [List.getElem?_eq_getElem hb, List.getElem?_eq_getElem hb'] using hstays

/-- Blocks get the same numbers, and padding gets none. -/
theorem newNumber?_eq (h : Padded blocks blocks') (i : Nat) :
    newNumber? (marked blocks') i = newNumber? (marked blocks) i := by
  by_cases hlt : i < blocks.length
  · refine newNumber?_congr_of_take (List.ext_getElem? fun k => ?_)
    rw [List.getElem?_take, List.getElem?_take]
    split
    · exact h.getElem?_cancelled (by omega)
    · rfl
  · have hnone : ∀ {m : Nat} {bs : List (Block m)}, ¬Stays bs i →
        newNumber? (marked bs) i = none := by
      intro m bs hno
      refine Option.eq_none_iff_forall_ne_some.mpr fun k hk => hno ?_
      exact stays_iff_exists_newNumber?.mpr ⟨k, hk⟩
    have hno : ¬Stays blocks i := fun hstays => hlt (FlowFacts.stays_iff.mp hstays).1
    rw [hnone hno, hnone (mt h.stays_iff.mp hno)]

/-! ### Where control lands -/

theorem chase_eq (h : Padded blocks blocks') {s : Nat} (hlt : s < blocks.length)
    (hrun : MayRun blocks s) :
    chase (marked blocks') blocks'.length s = chase (marked blocks) blocks.length s := by
  have hrun' := (h.mayRun_iff hlt).mpr hrun
  rcases exists_leads_or_leadsAstray blocks s with ⟨k, c, hlead⟩ | hastray
  · have hlead' := h.leads hlead hlt
    rw [chase_of_leads h.targetsExist hlead hrun hlt hlead.le_length,
      chase_of_leads h.targetsExist_padded hlead' hrun' (h.lt_length hlt)
        hlead'.le_length]
  · rw [chase_of_leadsAstray h.targetsExist hastray hrun,
      chase_of_leadsAstray h.targetsExist_padded ((h.leadsAstray_iff hlt).mpr hastray) hrun']

theorem lands_iff (h : Padded blocks blocks') {s k : Nat} (hlt : s < blocks.length)
    (hrun : MayRun blocks s) : Lands blocks' s k ↔ Lands blocks s k := by
  simp only [Lands, h.chase_eq hlt hrun, h.newNumber?_eq]

theorem shape_marked (h : Padded blocks blocks') {i : Nat} {b : Block n} {b' : Block n'}
    (hi : (marked blocks)[i]? = some b) (hi' : (marked blocks')[i]? = some b') :
    b'.ops = b.ops ∧ b'.terminator = b.terminator := by
  rw [getElem?_marked] at hi hi'
  obtain ⟨b₀, hb₀, rfl⟩ := Option.map_eq_some_iff.mp hi
  obtain ⟨b₀', hb₀', rfl⟩ := Option.map_eq_some_iff.mp hi'
  obtain ⟨_, hb₁, hshape⟩ := h.block hb₀
  obtain rfl := Option.some.inj (hb₁.symm.trans hb₀')
  exact hshape

/-- Pruning gives the same blocks. -/
theorem sameShape_prune (h : Padded blocks blocks') {pruned : Pruned n} {pruned' : Pruned n'}
    (hprune : prune blocks = .ok pruned) (hprune' : prune blocks' = .ok pruned') :
    SameShape pruned.blocks pruned'.blocks := by
  have hlen : pruned.blocks.length = pruned'.blocks.length := by
    refine eq_of_forall_lt_iff fun k => ?_
    rw [lt_length_pruned_iff hprune, lt_length_pruned_iff hprune']
    simp only [h.newNumber?_eq]
  refine map_eq_map_of_getElem? hlen fun {k p} hk => ?_
  obtain ⟨i, b, hi, hb, hnew, hops, hthreads⟩ := exists_kept_of_pruned hprune hk
  obtain ⟨b', hi', hb'⟩ := h.stays_iff.mpr ⟨b, hi, hb⟩
  obtain ⟨k', p', hnew', hk', hops', hthreads'⟩ := exists_pruned hprune' hi' hb'
  obtain rfl : k' = k := by
    rw [h.newNumber?_eq, hnew] at hnew'
    exact (Option.some.inj hnew').symm
  obtain ⟨hbops, hbterm⟩ := h.shape_marked hi hi'
  refine ⟨p', hk', Prod.ext ((hops'.trans hbops).trans hops.symm) ?_⟩
  rw [hbterm] at hthreads'
  refine hthreads'.unique hthreads (fun s hs k k' hland hland' => ?_)
    ((structured_of_prune h.targetsExist_padded hprune').targets_ne p' (List.mem_of_getElem? hk'))
    ((structured_of_prune h.targetsExist hprune).targets_ne p (List.mem_of_getElem? hk))
  obtain ⟨hrun, hlt⟩ := mayRun_successor h.targetsExist hi hb hs
  exact ((h.lands_iff hlt hrun).mp hland).unique hland'

/-- Control to a block goes to the same place, and control to padding goes nowhere. -/
theorem forward_eq (h : Padded blocks blocks') {pruned : Pruned n} {pruned' : Pruned n'}
    (hprune : prune blocks = .ok pruned) (hprune' : prune blocks' = .ok pruned') (i : Nat) :
    pruned'.forward.getD i none = pruned.forward.getD i none := by
  refine Option.ext fun k => ?_
  rw [forward_eq_some_iff hprune, forward_eq_some_iff hprune']
  by_cases hlt : i < blocks.length
  · simp only [hlt, h.lt_length hlt, true_and, h.mayRun_iff hlt]
    exact and_congr_right fun hrun => h.lands_iff hlt hrun
  · refine iff_of_false ?_ fun hi => hlt hi.1
    rintro ⟨hlt', hrun, -⟩
    exact h.not_mayRun_of_le (Nat.le_of_not_lt hlt) hlt' hrun

end Padded

end FlowFacts
