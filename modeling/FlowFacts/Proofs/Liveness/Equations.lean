import FlowFacts.Proofs.Graph.Structure
import FlowFacts.Proofs.Liveness.Exact

/-!
# Stored liveness satisfies its equations

The check of stored sets against the liveness equations never fails on a graph. A bare graph stores
empty sets, which solve the equations of empty summaries. A solve that ends stores a solution for
all blocks at once, and one that does not end stores nothing. No other command touches the sets or
the edges, so the equations hold after any history, however stale the sets are.

## Main definitions

* `LivenessEquations` — the equations, by membership

## Main results

* `satisfiesEquations_iff` — what the check decides
* `livenessEquations_setLiveness` — a solve stores a solution
* `Graph.verifyLiveness_applyAll` — the check succeeds after every history
-/

namespace FlowFacts

variable {n : Nat} {t : Temp} {blocks blocks' : List (Block n)} {b : Nat} {block : Block n}

/-- The stored sets satisfy the liveness equations: what is live behind a block is what is live in
front of some successor, and what is live in front of it is what it uses and what is live behind it
and not defined in it. -/
structure LivenessEquations (blocks : List (Block n)) : Prop where
  mem_liveOut_iff : ∀ {b : Nat} {block : Block n} {t : Temp}, blocks[b]? = some block →
    (t ∈ block.liveOut ↔ ∃ s ∈ block.successors, ∃ next, blocks[s]? = some next ∧ t ∈ next.liveIn)
  mem_liveIn_iff : ∀ {b : Nat} {block : Block n} {t : Temp}, blocks[b]? = some block →
    (t ∈ block.liveIn ↔ t ∈ block.uses ∨ t ∈ block.liveOut ∧ t ∉ block.defs)

/-! ### What the check decides -/

/-- Looking up all of some positions succeeds if they all exist, and yields what is there. -/
theorem mapM_getElem?_eq_some_iff {α : Type} {as : List α} {is : List Nat} {found : List α} :
    is.mapM (as[·]?) = some found ↔
      (∀ i ∈ is, i < as.length) ∧ is.filterMap (as[·]?) = found := by
  induction is generalizing found with
  | nil => simp
  | cons i is ih =>
    rw [List.mapM_cons, List.forall_mem_cons]
    cases hi : as[i]? with
    | none =>
      have hge := List.getElem?_eq_none_iff.mp hi
      simp [Nat.not_lt.mpr hge]
    | some a =>
      have hlt := (List.getElem?_eq_some_iff.mp hi).1
      simp only [Option.bind_eq_bind, Option.bind_some, Option.bind_eq_some_iff, ih, hlt, true_and,
        List.filterMap_cons_some hi]
      constructor
      · rintro ⟨rest, ⟨hrest, rfl⟩, hfound⟩
        exact ⟨hrest, Option.some.inj hfound⟩
      · rintro ⟨hrest, hfound⟩
        exact ⟨_, ⟨hrest, rfl⟩, congrArg some hfound⟩

/-- What is live in front of the blocks at some positions. -/
theorem mem_foldl_liveIn {is : List Nat} :
    t ∈ (is.filterMap (blocks[·]?)).foldl
        (fun (s : TempSet n) next => s.union next.liveIn) (.empty n) ↔
      ∃ s ∈ is, ∃ next, blocks[s]? = some next ∧ t ∈ next.liveIn := by
  rw [← List.foldl_map (f := Block.liveIn) (g := TempSet.union), mem_foldl_union]
  simp only [TempSet.not_mem_empty, false_or, List.mem_map, List.mem_filterMap]
  constructor
  · rintro ⟨_, ⟨next, ⟨s, hs, hnext⟩, rfl⟩, ht⟩
    exact ⟨s, hs, next, hnext, ht⟩
  · rintro ⟨s, hs, next, hnext, ht⟩
    exact ⟨_, ⟨next, ⟨s, hs, hnext⟩, rfl⟩, ht⟩

theorem Block.satisfiesEquations_iff :
    block.satisfiesEquations blocks = true ↔
      (∀ s ∈ block.successors, s < blocks.length) ∧
      (∀ t, t ∈ block.liveOut ↔
        ∃ s ∈ block.successors, ∃ next, blocks[s]? = some next ∧ t ∈ next.liveIn) ∧
      ∀ t, t ∈ block.liveIn ↔ t ∈ block.uses ∨ t ∈ block.liveOut ∧ t ∉ block.defs := by
  have hext : ∀ {s s' : TempSet n}, s = s' ↔ ∀ t, t ∈ s' ↔ t ∈ s := by
    intro s s'
    exact ⟨fun h t => h ▸ Iff.rfl, fun h => TempSet.ext fun t => (h t).symm⟩
  unfold Block.satisfiesEquations
  split
  · next hnone =>
    have hmissing : ¬∀ s ∈ block.successors, s < blocks.length := fun hall => by
      rw [mapM_getElem?_eq_some_iff.mpr ⟨hall, rfl⟩] at hnone
      cases hnone
    simp [hmissing]
  · next hsome =>
    obtain ⟨hall, rfl⟩ := mapM_getElem?_eq_some_iff.mp hsome
    simp only [Bool.and_eq_true, beq_iff_eq, hext, mem_transfer, mem_foldl_liveIn]
    refine ⟨fun ⟨hout, hin⟩ => ⟨hall, hout, fun t => ?_⟩, fun ⟨_, hout, hin⟩ => ⟨hout, fun t => ?_⟩⟩
    · rw [hin t, hout t]
    · rw [hin t, hout t]

/-- The check succeeds if all targets exist and the equations hold. -/
theorem satisfiesEquations_iff :
    satisfiesEquations blocks = true ↔ TargetsExist blocks ∧ LivenessEquations blocks := by
  rw [satisfiesEquations, List.all_eq_true]
  simp only [Block.satisfiesEquations_iff]
  constructor
  · intro h
    refine ⟨fun block hb => (h block hb).1, fun {_ block t} hb => ?_, fun {_ block t} hb => ?_⟩
    · exact (h block (List.mem_of_getElem? hb)).2.1 t
    · exact (h block (List.mem_of_getElem? hb)).2.2 t
  · rintro ⟨htargets, heqs⟩ block hmem
    obtain ⟨b, hb⟩ := List.getElem?_of_mem hmem
    exact ⟨htargets block hmem, fun _ => heqs.mem_liveOut_iff hb, fun _ => heqs.mem_liveIn_iff hb⟩

/-! ### Where the equations come from -/

/-- Empty sets satisfy the equations. -/
theorem livenessEquations_of_empty
    (h : ∀ block ∈ blocks, block.uses = .empty n ∧ block.liveIn = .empty n ∧
      block.liveOut = .empty n) : LivenessEquations blocks := by
  constructor
  · intro b block t hb
    obtain ⟨-, -, hout⟩ := h block (List.mem_of_getElem? hb)
    rw [hout, iff_false_left (TempSet.not_mem_empty t)]
    rintro ⟨s, -, next, hnext, ht⟩
    rw [(h next (List.mem_of_getElem? hnext)).2.1] at ht
    exact TempSet.not_mem_empty t ht
  · intro b block t hb
    obtain ⟨huses, hin, hout⟩ := h block (List.mem_of_getElem? hb)
    simp [huses, hin, hout]

/-- A solve that ends stores sets that satisfy the equations. -/
theorem livenessEquations_setLiveness {limit : Option Nat} {v : Nat}
    (h : setLiveness blocks limit = .ok (v, blocks')) : LivenessEquations blocks' := by
  refine ⟨mem_liveOut_iff_of_setLiveness h, fun {b block' t} hb => ?_⟩
  obtain ⟨_, -, -, hget⟩ := exists_of_setLiveness h
  obtain ⟨block, -, -, -, heq⟩ := hget hb
  have hdefs : block'.defs = (block'.summary n).defs := heq ▸ rfl
  have huses : block'.uses = (block'.summary n).uses := heq ▸ rfl
  rw [liveIn_of_setLiveness h hb, mem_transfer, hdefs, huses]

/-- What the equations of a block speak about, apart from its neighbours. -/
def Block.liveFacts (b : Block n) :
    Terminator × TempSet n × TempSet n × TempSet n × TempSet n :=
  (b.terminator, b.defs, b.uses, b.liveIn, b.liveOut)

/-- The equations stay true while terminators and sets stay. -/
theorem LivenessEquations.of_map_eq (h : LivenessEquations blocks)
    (heq : blocks'.map Block.liveFacts = blocks.map Block.liveFacts) :
    LivenessEquations blocks' := by
  have hget : ∀ {bs bs' : List (Block n)}, bs'.map Block.liveFacts = bs.map Block.liveFacts →
      ∀ {b : Nat} {block' : Block n}, bs'[b]? = some block' →
        ∃ block, bs[b]? = some block ∧ block.successors = block'.successors ∧
          block.defs = block'.defs ∧ block.uses = block'.uses ∧ block.liveIn = block'.liveIn ∧
          block.liveOut = block'.liveOut := by
    intro bs bs' heq b block' hb'
    obtain ⟨block, hb, hfacts⟩ := exists_of_map_eq_map heq hb'
    simp only [Block.liveFacts, Prod.mk.injEq] at hfacts
    exact ⟨block, hb, congrArg Terminator.successors hfacts.1, hfacts.2⟩
  constructor
  · intro b block' t hb'
    obtain ⟨block, hb, hsucc, -, -, -, hout⟩ := hget heq hb'
    rw [← hout, h.mem_liveOut_iff hb, hsucc]
    refine exists_congr fun s => and_congr_right fun _ => ?_
    constructor
    · rintro ⟨next, hnext, ht⟩
      obtain ⟨next', hnext', -, -, -, hin, -⟩ := hget heq.symm hnext
      exact ⟨next', hnext', hin ▸ ht⟩
    · rintro ⟨next', hnext', ht⟩
      obtain ⟨next, hnext, -, -, -, hin, -⟩ := hget heq hnext'
      exact ⟨next, hnext, hin ▸ ht⟩
  · intro b block' t hb'
    obtain ⟨block, hb, -, hdefs, huses, hin, hout⟩ := hget heq hb'
    rw [← hdefs, ← huses, ← hin, ← hout]
    exact h.mem_liveIn_iff hb

/-! ### Histories -/

namespace Graph

theorem livenessEquations_bare {r : Routine} {g : Graph} (h : bare r = .ok g) :
    LivenessEquations g.blocks := by
  obtain ⟨blocks, pruned, hblocks, hpruned, rfl⟩ := bare_eq_ok_iff.mp h
  refine livenessEquations_of_empty fun b' hb' => ?_
  obtain ⟨b, hb, hsets⟩ := exists_origin_of_pruned
    (f := fun b => (b.uses, b.liveIn, b.liveOut)) (fun _ _ _ _ _ => rfl) hpruned hb'
  obtain ⟨k, hk⟩ := List.getElem?_of_mem hb
  obtain ⟨_, _, rfl⟩ := r.exists_blank_of_provisional hblocks hk
  simp only [Prod.mk.injEq] at hsets
  exact hsets

/-- No command makes the equations false. -/
theorem Step.livenessEquations {g g' : Graph} {c : Command} (h : g.Step c g')
    (hg : LivenessEquations g.blocks) : LivenessEquations g'.blocks := by
  cases h with
  | liveness hset => exact livenessEquations_setLiveness hset
  | lineLiveness => exact hg.of_map_eq List.map_map
  | chains hset =>
    exact hg.of_map_eq (map_eq_of_setChains (f := fun _ b => b.liveFacts) (e := Line.op) hset
      (fun _ _ _ => rfl) fun _ _ => rfl)
  | insertion _ _ hb => exact hg.of_map_eq (map_eq_of_insertion hb rfl)
  | append => exact hg.of_map_eq (g.map_eq_of_append _ _ fun _ _ => rfl)

/-- **Stored liveness satisfies its equations.** After every history of commands, some of which may
fail, the check of the stored sets succeeds, and they satisfy the equations. -/
theorem verifyLiveness_applyAll {r : Routine} {p : Plan} {g : Graph} (h : build r p = .ok g)
    (cs : List Command) :
    (g.applyAll cs).verifyLiveness = true ∧ LivenessEquations (g.applyAll cs).blocks := by
  have hstep : ∀ {g g' : Graph} {c : Command},
      Structured g.blocks ∧ LivenessEquations g.blocks → g.Step c g' →
        Structured g'.blocks ∧ LivenessEquations g'.blocks :=
    fun hg hs => ⟨hg.1.of_map_eq hs.map_frame, hs.livenessEquations hg.2⟩
  have hbuilt : Structured g.blocks ∧ LivenessEquations g.blocks :=
    build_induction h (P := fun g => Structured g.blocks ∧ LivenessEquations g.blocks)
      (fun hbare => ⟨structured_bare hbare, livenessEquations_bare hbare⟩) fun hg _ => hstep hg
  obtain ⟨hstructured, heqs⟩ : Structured (g.applyAll cs).blocks ∧
      LivenessEquations (g.applyAll cs).blocks :=
    applyAll_induction (P := fun g => Structured g.blocks ∧ LivenessEquations g.blocks)
      (fun _ => hstep) hbuilt
  exact ⟨satisfiesEquations_iff.mpr ⟨hstructured.targetsExist, heqs⟩, heqs⟩

end Graph

/-- Commands that leave the sets of `Routine.loop` stale: what is inserted makes a temp dead, and
the second solve is cut off. -/
def Command.stale : List Command := [
  .liveness none,
  .insertBefore 0 0 (.op (.const ⟨1⟩ (.int 1))),
  .liveness (some 2)]

theorem Graph.verifyLiveness_applyAll_loop :
    ∃ g, Graph.build .loop .structureOnly = .ok g ∧
      ((g.applyAll Command.stale).perform (.liveness (some 2))).isOk = false ∧
      (g.applyAll Command.stale).verifyLiveness = true ∧
      LivenessEquations (g.applyAll Command.stale).blocks := by
  have hloop : (fun g : Graph =>
      ((g.applyAll Command.stale).perform (.liveness (some 2))).isOk) <$>
        Graph.build .loop .structureOnly = .ok false := by
    decide +kernel
  obtain ⟨g, hg, hstale⟩ := map_eq_ok_iff.mp hloop
  exact ⟨g, hg, hstale, verifyLiveness_applyAll hg Command.stale⟩

end FlowFacts
