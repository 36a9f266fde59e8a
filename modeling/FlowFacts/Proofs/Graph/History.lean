import FlowFacts.Graph.Build
import FlowFacts.Proofs.Block.Shape

/-!
# Histories of a graph

A graph comes from a build and is then changed by commands. `Graph.Step` says once what each command
that succeeds does to the graph, and all that holds of every graph is shown along it.

Stored facts are not kept up to date, so a history also tells which of them are about the graph as
it is: an insertion makes all facts stale, and facts about lines are fresh if they were derived from
fresh facts about blocks. `Graph.Reachable g fresh` is the relation between a graph and its fresh
analyses.

## Main results

* `Graph.step_of_perform` — what a command does
* `Graph.Step.sameShape` — only insertions change what the blocks do
* `Graph.applyAll_induction` — what commands keep holds after a history of them
* `Graph.Reachable.induction` — what bare graphs have and commands keep holds of every graph
-/

namespace FlowFacts

theorem Analyses.contains_union_of_disjoint {a x y : Analyses} (h : y.bits &&& x.bits = 0) :
    (a.union y).contains x = a.contains x := by
  have hbits : (a.bits ||| y.bits) &&& x.bits = a.bits &&& x.bits := by
    rw [UInt8.eq_iff_toBitVec_eq] at h ⊢
    simp only [UInt8.toBitVec_and, UInt8.toBitVec_or] at h ⊢
    rw [BitVec.and_comm, BitVec.and_or_distrib_left, BitVec.and_comm _ y.bits.toBitVec, h,
      BitVec.and_comm]
    exact BitVec.or_zero
  rw [contains, contains, union, hbits]

theorem Analyses.contains_union_self (a x : Analyses) : (a.union x).contains x = true := by
  have hbits : (a.bits ||| x.bits) &&& x.bits = x.bits := by
    rw [UInt8.eq_iff_toBitVec_eq]
    ext i
    simp only [UInt8.toBitVec_and, UInt8.toBitVec_or, BitVec.getElem_and, BitVec.getElem_or]
    cases x.bits.toBitVec[i] <;> simp
  rw [contains, union, hbits, beq_self_eq_true]

/-- Does the command edit a body? -/
def Command.isInsertion : Command → Bool
  | .insertBefore .. => true
  | .insertAfter .. => true
  | _ => false

/-- The instruction that the command is to insert. -/
def Command.inserted? : Command → Option Instr
  | .insertBefore _ _ i => some i
  | .insertAfter _ _ i => some i
  | _ => none

/-- The analyses whose results are about the graph as it is after a command, given those of before.
Facts about lines are derived from the stored facts about blocks. -/
def Command.refresh (fresh : Analyses) : Command → Analyses
  | .liveness _ => fresh.union .liveness
  | .lineLiveness => if fresh.contains .liveness then fresh.union .lineLiveness else fresh
  | .chains => fresh.union .chains
  | .append .. => fresh
  | .insertBefore .. => .none
  | .insertAfter .. => .none

theorem Command.isInsertion_of_inserted? {c : Command} {i : Instr} (h : c.inserted? = some i) :
    c.isInsertion = true := by
  cases c with
  | insertBefore => rfl
  | insertAfter => rfl
  | _ => cases h

theorem Command.refresh_of_isInsertion {c : Command} (h : c.isInsertion = true)
    (fresh : Analyses) : c.refresh fresh = .none := by
  cases c with
  | insertBefore => rfl
  | insertAfter => rfl
  | _ => cases h

namespace Graph

/-- What a command that succeeds does to a graph. -/
inductive Step (g : Graph) : Command → Graph → Prop
  | liveness {limit : Option Nat} {visits : Nat} {blocks : List (Block g.tempCount)}
      (h : FlowFacts.setLiveness g.blocks limit = .ok (visits, blocks)) :
      Step g (.liveness limit) { g with blocks, computed := g.computed.union .liveness }
  | lineLiveness (h : g.computed.contains .liveness = true) :
      Step g .lineLiveness { g with
        blocks := g.blocks.map Block.setLineLiveness
        computed := g.computed.union .lineLiveness }
  | chains {definitions : Nat} {blocks : List (Block g.tempCount)}
      (h : FlowFacts.setChains g.blocks = .ok (definitions, blocks)) :
      Step g .chains { g with blocks, computed := g.computed.union .chains }
  | insertion {c : Command} {b place : Nat} {o : Op} {block : Block g.tempCount}
      (hc : c.isInsertion = true) (ho : ∀ t ∈ o.temps, t.slot < g.tempCount)
      (hb : g.blocks[b]? = some block) (hi : c.inserted? = some (.op o)) :
      Step g c { g with
        blocks := g.blocks.set b { block with
          body := block.body.take place ++ Line.blank _ o :: block.body.drop place } }
  | append {b : Nat} {text : String} : Step g (.append b text) (g.append b text)

theorem insertable_eq_ok {g : Graph} {i : Instr} {o : Op} (h : g.insertable i = .ok o) :
    i = .op o ∧ ∀ t ∈ o.temps, t.slot < g.tempCount := by
  unfold insertable at h
  split at h
  · cases h
  · next hop =>
    split at h
    · cases h
    · next hfind =>
      cases h
      refine ⟨?_, fun t ht => by simpa using List.find?_eq_none.mp hfind t ht⟩
      cases i with
      | op o' => exact congrArg Instr.op (Option.some.inj hop)
      | _ => cases hop

theorem step_of_insertAt {g g' : Graph} {c : Command} {b position place : Nat} {i : Instr}
    (hc : c.isInsertion = true) (hi : c.inserted? = some i)
    (h : g.insertAt b position place i = .ok g') : g.Step c g' := by
  obtain ⟨o, ho, h⟩ := bind_eq_ok_iff.mp h
  obtain ⟨hop, htemps⟩ := insertable_eq_ok ho
  split at h
  · cases h
  · next hb =>
    split at h
    · cases h
      exact .insertion hc htemps hb (hop ▸ hi)
    · cases h

theorem step_of_perform {g g' : Graph} {c : Command} {reply : Reply}
    (h : g.perform c = .ok (reply, g')) : g.Step c g' := by
  cases c with
  | liveness limit =>
    obtain ⟨⟨_, _⟩, hset, heq⟩ := map_eq_ok_iff.mp h
    obtain ⟨⟨_, _⟩, hblocks, hset⟩ := bind_eq_ok_iff.mp hset
    cases hset
    cases heq
    exact .liveness hblocks
  | lineLiveness =>
    obtain ⟨_, hset, heq⟩ := map_eq_ok_iff.mp h
    cases heq
    unfold setLineLiveness at hset
    split at hset
    · next hcomputed =>
      cases hset
      exact .lineLiveness hcomputed
    · cases hset
  | chains =>
    obtain ⟨⟨_, _⟩, hset, heq⟩ := map_eq_ok_iff.mp h
    obtain ⟨⟨_, _⟩, hblocks, hset⟩ := bind_eq_ok_iff.mp hset
    cases hset
    cases heq
    exact .chains hblocks
  | insertBefore b p i =>
    obtain ⟨_, hset, heq⟩ := map_eq_ok_iff.mp h
    cases heq
    exact step_of_insertAt rfl rfl hset
  | insertAfter b p i =>
    obtain ⟨_, hset, heq⟩ := map_eq_ok_iff.mp h
    cases heq
    exact step_of_insertAt rfl rfl hset
  | append b text =>
    cases h
    exact .append

theorem perform_liveness {g : Graph} {limit : Option Nat} {v : Nat}
    {blocks : List (Block g.tempCount)}
    (h : FlowFacts.setLiveness g.blocks limit = .ok (v, blocks)) :
    g.perform (.liveness limit) =
      .ok (.count v, { g with blocks, computed := g.computed.union .liveness }) :=
  map_eq_ok_iff.mpr ⟨_, bind_eq_ok_iff.mpr ⟨_, h, rfl⟩, rfl⟩

theorem perform_lineLiveness {g : Graph} (h : g.computed.contains .liveness = true) :
    g.perform .lineLiveness = .ok (.done, { g with
      blocks := g.blocks.map Block.setLineLiveness
      computed := g.computed.union .lineLiveness }) :=
  map_eq_ok_iff.mpr ⟨_, if_pos h, rfl⟩

theorem perform_chains {g : Graph} {d : Nat} {blocks : List (Block g.tempCount)}
    (h : FlowFacts.setChains g.blocks = .ok (d, blocks)) :
    g.perform .chains = .ok (.count d, { g with blocks, computed := g.computed.union .chains }) :=
  map_eq_ok_iff.mpr ⟨_, bind_eq_ok_iff.mpr ⟨_, h, rfl⟩, rfl⟩

/-- Appending output changes nothing else. -/
theorem map_eq_of_append {α : Type} (g : Graph) (b : Nat) (text : String)
    {f : Block g.tempCount → α} (hf : ∀ block output, f { block with output } = f block) :
    (g.append b text).blocks.map f = g.blocks.map f := by
  refine map_eq_map_of_getElem? (List.length_modify ..) fun {c block'} hc => ?_
  have happend : (g.blocks.modify b fun block => block.append text)[c]? = some block' := hc
  rw [List.getElem?_modify] at happend
  obtain ⟨block, hblock, rfl⟩ := Option.map_eq_some_iff.mp happend
  refine ⟨block, hblock, ?_⟩
  split
  · exact (hf ..).symm
  · rfl

/-- Inserting into a body changes nothing else. -/
theorem map_eq_of_insertion {α : Type} {g : Graph} {b : Nat} {block : Block g.tempCount}
    (hb : g.blocks[b]? = some block) {f : Block g.tempCount → α} {body : List (Line g.tempCount)}
    (hf : f { block with body } = f block) :
    (g.blocks.set b { block with body }).map f = g.blocks.map f := by
  obtain ⟨hlt, rfl⟩ := List.getElem?_eq_some_iff.mp hb
  rw [List.map_set, hf, ← List.map_set, List.set_getElem_self]

theorem sameShape_append (g : Graph) (b : Nat) (text : String) :
    SameShape (g.append b text).blocks g.blocks :=
  g.map_eq_of_append b text fun _ _ => rfl

/-- Only an insertion changes what the blocks do. -/
theorem Step.sameShape {g g' : Graph} {c : Command} (h : g.Step c g')
    (hc : c.isInsertion = false) : SameShape g'.blocks g.blocks := by
  cases h with
  | liveness hset => exact sameShape_setLiveness hset
  | lineLiveness => exact sameShape_setLineLiveness g.blocks
  | chains hset => exact sameShape_setChains hset
  | insertion hins => rw [hins] at hc; cases hc
  | append => exact sameShape_append ..

/-- Until there is an insertion, what was computed is fresh. -/
theorem Step.computed {g g' : Graph} {c : Command} (h : g.Step c g')
    (hc : c.isInsertion = false) : g'.computed = c.refresh g.computed := by
  cases h with
  | lineLiveness hcomputed => simp only [Command.refresh, hcomputed, if_true]
  | insertion hins => rw [hins] at hc; cases hc
  | _ => rfl

/-! ### Builds -/

end Graph

/-- The graph of a routine whose blocks have been pruned. -/
def Routine.prunedGraph (r : Routine) (pruned : Pruned r.tempCount) : Graph where
  name := r.name
  labels := r.placedLabels fun b => pruned.forward.getD b none
  tempCount := r.tempCount
  blocks := pruned.blocks
  computed := .none

namespace Graph

/-- What a bare graph comes from. -/
theorem bare_eq_ok_iff {r : Routine} {g : Graph} :
    bare r = .ok g ↔ ∃ blocks pruned, r.provisional = .ok blocks ∧ prune blocks = .ok pruned ∧
      r.prunedGraph pruned = g := by
  constructor
  · intro h
    obtain ⟨blocks, hblocks, h⟩ := bind_eq_ok_iff.mp h
    obtain ⟨pruned, hpruned, h⟩ := bind_eq_ok_iff.mp h
    exact ⟨blocks, pruned, hblocks, hpruned, Except.ok.inj h⟩
  · rintro ⟨blocks, pruned, hblocks, hpruned, rfl⟩
    exact bind_eq_ok_iff.mpr ⟨blocks, hblocks, bind_eq_ok_iff.mpr ⟨pruned, hpruned, rfl⟩⟩

theorem isInsertion_of_mem_commands {p : Plan} {c : Command} (h : c ∈ p.commands) :
    c.isInsertion = false := by
  simp only [Plan.commands, List.mem_append] at h
  rcases h with (h | h) | h <;> split at h <;> simp at h <;> rw [h] <;> rfl

/-- What commands without insertions keep holds after all of them. -/
theorem performAll_induction {P : Graph → Prop}
    (hstep : ∀ {g g' : Graph} {c : Command}, P g → c.isInsertion = false → g.Step c g' → P g')
    {cs : List Command} (hcs : ∀ c ∈ cs, c.isInsertion = false) {g g' : Graph} (hg : P g)
    (h : g.performAll cs = .ok g') : P g' := by
  induction cs generalizing g with
  | nil =>
    cases h
    exact hg
  | cons c cs ih =>
    obtain ⟨⟨_, _⟩, hc, h⟩ := bind_eq_ok_iff.mp h
    refine ih (fun c hc => hcs c (List.mem_cons_of_mem _ hc)) ?_ h
    exact hstep hg (hcs c List.mem_cons_self) (step_of_perform hc)

/-- What a bare graph has and analyses keep holds of the graph that is built. -/
theorem build_induction {r : Routine} {p : Plan} {g : Graph} (h : build r p = .ok g)
    {P : Graph → Prop} (hbare : ∀ {g : Graph}, bare r = .ok g → P g)
    (hstep : ∀ {g g' : Graph} {c : Command}, P g → c.isInsertion = false → g.Step c g' → P g') :
    P g := by
  obtain ⟨g₀, hg₀, h⟩ := bind_eq_ok_iff.mp h
  exact performAll_induction hstep (fun _ => isInsertion_of_mem_commands) (hbare hg₀) h

/-! ### Everything after -/

/-- The graph comes from a build by commands, and the results of the analyses in `fresh` are about
the graph as it is. -/
inductive Reachable : Graph → Analyses → Prop
  | built {r : Routine} {p : Plan} {g : Graph} (h : build r p = .ok g) : Reachable g g.computed
  | performed {g g' : Graph} {fresh : Analyses} {c : Command} {reply : Reply}
      (hg : Reachable g fresh) (hc : g.perform c = .ok (reply, g')) :
      Reachable g' (c.refresh fresh)

theorem Reachable.performAll {g g' : Graph} {fresh : Analyses} {cs : List Command}
    (hg : g.Reachable fresh) (h : g.performAll cs = .ok g') :
    g'.Reachable (cs.foldl Command.refresh fresh) := by
  induction cs generalizing g fresh with
  | nil =>
    cases h
    exact hg
  | cons c cs ih =>
    obtain ⟨⟨_, _⟩, hc, h⟩ := bind_eq_ok_iff.mp h
    exact ih (.performed hg hc) h

/-- What commands keep holds after a history of them, failed ones among them. -/
theorem applyAll_induction {P : Graph → Prop} {cs : List Command}
    (hstep : ∀ {g g' : Graph} {c : Command}, c ∈ cs → P g → g.Step c g' → P g') {g : Graph}
    (hg : P g) : P (g.applyAll cs) := by
  induction cs generalizing g with
  | nil => exact hg
  | cons c cs ih =>
    refine ih (fun hc => hstep (List.mem_cons_of_mem _ hc)) ?_
    unfold apply
    split
    · rename_i hc
      exact hstep List.mem_cons_self hg (step_of_perform hc)
    · exact hg

/-- What bare graphs have and commands keep holds of every graph. -/
theorem Reachable.induction {P : Graph → Analyses → Prop}
    (hbare : ∀ {r : Routine} {g : Graph}, bare r = .ok g → P g .none)
    (hstep : ∀ {g g' : Graph} {fresh : Analyses} {c : Command}, P g fresh → g.Step c g' →
      P g' (c.refresh fresh))
    {g : Graph} {fresh : Analyses} (h : g.Reachable fresh) : P g fresh := by
  induction h with
  | built h =>
    refine build_induction h (P := fun g => P g g.computed) (fun {g₀} hg₀ => ?_)
      fun hg hc hg' => hg'.computed hc ▸ hstep hg hg'
    have hnone : g₀.computed = .none := by
      obtain ⟨_, _, -, -, rfl⟩ := bare_eq_ok_iff.mp hg₀
      rfl
    exact hnone ▸ hbare hg₀
  | performed _ hc ih => exact hstep ih (step_of_perform hc)

end Graph

end FlowFacts
