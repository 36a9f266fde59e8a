import FlowFacts.Proofs.Dataflow.Related
import FlowFacts.Proofs.Liveness.Exact

/-!
# Liveness depends on the shape

Stored facts play no part in a liveness solve, and neither does the capacity of the sets as long as
all temps of the blocks fit. Two solves over blocks of one shape visit the same blocks and find the
same temps, whatever is stored and whatever the capacities are.

## Main definitions

* `TempSet.SameMembers` — two sets have the same members, and maybe different capacities
* `Block.SameSets` — two blocks store the same liveness

## Main results

* `SameShape.related_liveVariables` — liveness keeps to sets with the same members
* `SameShape.exists_setLiveness` — blocks of one shape get the same liveness
-/

namespace FlowFacts

variable {n n' : Nat} {blocks : List (Block n)} {blocks' : List (Block n')}

/-- The sets have the same members. -/
def TempSet.SameMembers (s : TempSet n) (s' : TempSet n') : Prop := ∀ t, t ∈ s ↔ t ∈ s'

namespace TempSet

theorem biUnique_sameMembers : Relator.BiUnique (@SameMembers n n') :=
  ⟨fun _ _ _ h h' => TempSet.ext fun t => (h t).trans (h' t).symm,
    fun _ _ _ h h' => TempSet.ext fun t => (h t).symm.trans (h' t)⟩

theorem SameMembers.eq {s s' : TempSet n} (h : s.SameMembers s') : s = s' := TempSet.ext h

theorem sameMembers_empty : (TempSet.empty n).SameMembers (TempSet.empty n') := fun t =>
  iff_of_false (not_mem_empty t) (not_mem_empty t)

theorem SameMembers.union {s u : TempSet n} {s' u' : TempSet n'} (hs : s.SameMembers s')
    (hu : u.SameMembers u') : (s.union u).SameMembers (s'.union u') := fun t => by
  rw [mem_union, mem_union, hs t, hu t]

end TempSet

/-- The summaries have the same members. -/
structure Summary.SameMembers (s : Summary n) (s' : Summary n') : Prop where
  defs : s.defs.SameMembers s'.defs
  uses : s.uses.SameMembers s'.uses

theorem Summary.SameMembers.transfer {s : Summary n} {s' : Summary n'} (h : s.SameMembers s')
    {out : TempSet n} {out' : TempSet n'} (hout : out.SameMembers out') :
    (s.transfer out).SameMembers (s'.transfer out') := fun t => by
  rw [mem_transfer, mem_transfer, h.uses t, h.defs t, hout t]

/-- The occurrences of temps in a block are a matter of its shape. -/
theorem accesses_eq {block : Block n} {block' : Block n'} (hops : block'.ops = block.ops)
    (hterm : block'.terminator = block.terminator) : block'.accesses = block.accesses := by
  rw [Block.accesses, Block.accesses, Block.operand, Block.operand, hops, hterm]

/-- The capacity of a summary does not matter if all temps of the block fit. -/
theorem sameMembers_summary {block : Block n} {block' : Block n'} (hops : block'.ops = block.ops)
    (hterm : block'.terminator = block.terminator)
    (hfit : ∀ a ∈ block.accesses, a.temp.slot < n ↔ a.temp.slot < n') :
    (block.summary n).SameMembers (block'.summary n') := by
  have hsorts := block.sorts_summary n
  have hsorts' := block'.sorts_summary n'
  have hrecords : ∀ x, (block.summary n).Records x ↔ (block'.summary n').Records x := by
    intro x
    rw [hsorts x, hsorts' x, accesses_eq hops hterm]
    exact and_congr_left fun hx => hfit x (List.mem_of_find?_eq_some hx)
  exact ⟨fun t => hrecords (.write t), fun t => hrecords (.read t)⟩

/-- All temps of the blocks fit into sets of the one capacity just if they fit into sets of the
other. -/
def FitAlike (n' : Nat) (blocks : List (Block n)) : Prop :=
  ∀ block ∈ blocks, ∀ a ∈ block.accesses, a.temp.slot < n ↔ a.temp.slot < n'

theorem FitAlike.symm (hfit : FitAlike n' blocks) (h : SameShape blocks blocks') :
    FitAlike n blocks' := by
  intro block' hmem a ha
  obtain ⟨k, hk⟩ := List.getElem?_of_mem hmem
  obtain ⟨block, hb, hops, hterm⟩ := h.symm.exists_getElem? hk
  rw [← accesses_eq hops hterm] at ha
  exact (hfit block (List.mem_of_getElem? hb) a ha).symm

namespace SameShape

theorem defaultLimit_eq (h : SameShape blocks blocks') (m : Nat) :
    defaultLimit blocks m = defaultLimit blocks' m := by
  have hedges : ∀ {m : Nat} (bs : List (Block m)),
      edgeCount bs = ((bs.map Block.successors).flatMap id).length := by
    intro m bs
    rw [List.flatMap_map]
    rfl
  rw [defaultLimit, defaultLimit, hedges, hedges, h.map_successors, h.length_eq]

/-- Liveness keeps to sets with the same members. -/
theorem related_liveVariables (h : SameShape blocks blocks') (hfit : FitAlike n' blocks) :
    Problem.Related TempSet.SameMembers (liveVariables n (blocks.map (Block.summary n))) blocks
      (liveVariables n' (blocks'.map (Block.summary n'))) blocks' where
  biUnique := TempSet.biUnique_sameMembers
  successors := h.map_successors
  boundary := TempSet.sameMembers_empty
  initial := TempSet.sameMembers_empty
  meet := TempSet.SameMembers.union
  transfer {b block block' x y} hb hb' hxy := by
    obtain ⟨_, hget, hops, hterm⟩ := h.exists_getElem? hb
    obtain rfl := Option.some.inj (hb'.symm.trans hget)
    rw [transfer_liveVariables hb, transfer_liveVariables hb']
    exact (sameMembers_summary hops hterm (hfit block (List.mem_of_getElem? hb))).transfer hxy

end SameShape

/-- The blocks store the same liveness. -/
structure Block.SameSets (block : Block n) (block' : Block n') : Prop where
  defs : block.defs.SameMembers block'.defs
  uses : block.uses.SameMembers block'.uses
  liveIn : block.liveIn.SameMembers block'.liveIn
  liveOut : block.liveOut.SameMembers block'.liveOut

/-- A solve that ends has its liveness stored. -/
theorem exists_setLiveness_of_solve (limit : Option Nat) {solution : Solution (TempSet n)}
    (h : solveLiveness blocks limit = .ok solution) :
    ∃ v found, setLiveness blocks limit = .ok (v, found) := by
  unfold setLiveness
  rw [h]
  exact ⟨_, _, rfl⟩

/-- Blocks of one shape get the same liveness, whatever facts were stored before. -/
theorem SameShape.exists_setLiveness (h : SameShape blocks blocks') (hfit : FitAlike n' blocks)
    {limit v : Nat} {found : List (Block n)}
    (hset : setLiveness blocks (some limit) = .ok (v, found)) :
    ∃ v' found', setLiveness blocks' (some limit) = .ok (v', found') ∧
      List.Forall₂ Block.SameSets found found' := by
  obtain ⟨solution, hsolve, hlen, hget⟩ := exists_of_setLiveness hset
  obtain ⟨solution', hsolve', hin, hout, -⟩ :=
    exists_solve_of_related (h.related_liveVariables hfit) hsolve
  obtain ⟨v', found', hset'⟩ := exists_setLiveness_of_solve (some limit) hsolve'
  obtain ⟨_, hsolve'', hlen', hget'⟩ := exists_of_setLiveness hset'
  obtain rfl := Except.ok.inj (hsolve'.symm.trans hsolve'')
  refine ⟨v', found', hset', forall₂_of_getElem? ?_ fun {b x y} hx hy => ?_⟩
  · rw [hlen, hlen', h.length_eq]
  obtain ⟨block, hb, hliveIn, hliveOut, hx⟩ := hget hx
  obtain ⟨block', hb', hliveIn', hliveOut', hy⟩ := hget' hy
  obtain ⟨_, hb'', hops, hterm⟩ := h.exists_getElem? hb
  obtain rfl := Option.some.inj (hb'.symm.trans hb'')
  have hsummary := sameMembers_summary hops hterm (hfit block (List.mem_of_getElem? hb))
  refine ⟨?_, ?_, rel_of_getElem? hin hliveIn hliveIn', rel_of_getElem? hout hliveOut hliveOut'⟩
  · rw [← hx, ← hy]
    exact hsummary.defs
  · rw [← hx, ← hy]
    exact hsummary.uses

end FlowFacts
