import FlowFacts.Liveness.Block
import FlowFacts.Proofs.Path

/-!
# Summaries of blocks

A block treats a temp by its first occurrence. If that is a read the temp is live at the beginning
of the block; if it is a write the temp is not; and if there is none, the temp is live at the
beginning just if it is live at the end. The summary of a block sorts the temps in this way, and its
transfer is what the block does to liveness.

The same can be said of the rest of a block from any line on, which is what lets liveness be
followed along a path.

## Main results

* `Block.sorts_summary` — the sets of a summary, by first occurrence
* `Block.mem_transfer_summary` — transfer of a summary
* `Block.liveFrom_of_op`, `Block.liveFrom_of_end` — the rest of a block, line by line
-/

namespace FlowFacts

variable {n m : Nat} {t : Temp}

/-- The temp that occurs. -/
def Access.temp : Access → Temp
  | read t => t
  | write t => t

/-- The first occurrence of a temp. -/
def firstAccess (t : Temp) (accesses : List Access) : Option Access :=
  accesses.find? fun a => a.temp = t

theorem temp_of_firstAccess {accesses : List Access} {a : Access}
    (h : firstAccess t accesses = some a) : a.temp = t := by
  simpa using List.find?_some h

theorem firstAccess_concat_eq_some {accesses : List Access} {a x : Access} :
    firstAccess t (accesses ++ [a]) = some x ↔
      firstAccess t accesses = some x ∨ firstAccess t accesses = none ∧ a = x ∧ a.temp = t := by
  simp only [firstAccess, List.find?_append, List.find?_singleton, Option.or_eq_some_iff]
  by_cases ha : a.temp = t <;> simp [ha]

/-! ### Sorting by first occurrence -/

namespace Summary

variable {s : Summary m} {accesses : List Access}

/-- The occurrence is recorded: its temp is in the set for occurrences of its kind. -/
def Records (s : Summary m) : Access → Prop
  | .read t => t ∈ s.uses
  | .write t => t ∈ s.defs

/-- Noting an occurrence records it, if its temp has not occurred before and is not too large. -/
theorem records_note {a x : Access} :
    (s.note a).Records x ↔
      s.Records x ∨ a = x ∧ x.temp.slot < m ∧ ¬(x.temp ∈ s.defs ∨ x.temp ∈ s.uses) := by
  by_cases hold : a.temp ∈ s.defs ∨ a.temp ∈ s.uses
  · have hnote : s.note a = s := by cases a <;> exact if_pos hold
    rw [hnote]
    refine (or_iff_left ?_).symm
    rintro ⟨rfl, -, hnew⟩
    exact hnew hold
  · cases a with
    | read u =>
      have hnote : s.note (.read u) = { s with uses := s.uses.insert u } := if_neg hold
      rw [hnote]
      cases x with
      | write t => simp [Records]
      | read t =>
        simp only [Records, TempSet.mem_insert, Access.read.injEq, Access.temp] at hold ⊢
        grind
    | write u =>
      have hnote : s.note (.write u) = { s with defs := s.defs.insert u } := if_neg hold
      rw [hnote]
      cases x with
      | read t => simp [Records]
      | write t =>
        simp only [Records, TempSet.mem_insert, Access.write.injEq, Access.temp] at hold ⊢
        grind

/-- The occurrences that are recorded are the first ones of their temps. -/
def Sorts (s : Summary m) (accesses : List Access) : Prop :=
  ∀ x : Access, s.Records x ↔ x.temp.slot < m ∧ firstAccess x.temp accesses = some x

theorem sorts_empty (m : Nat) : (Summary.empty m).Sorts [] := by
  intro x
  cases x <;> simp [Summary.empty, Records, firstAccess]

/-- A temp has occurred if it is in one of the sets. -/
theorem Sorts.occurred_iff (h : s.Sorts accesses) (ht : t.slot < m) :
    t ∈ s.defs ∨ t ∈ s.uses ↔ firstAccess t accesses ≠ none := by
  rw [show t ∈ s.defs ↔ _ from h (.write t), show t ∈ s.uses ↔ _ from h (.read t)]
  cases hfirst : firstAccess t accesses with
  | none => simp [Access.temp, hfirst]
  | some a =>
    have htemp : a.temp = t := temp_of_firstAccess hfirst
    cases a <;> simpa [Access.temp, ht, hfirst] using htemp

theorem Sorts.note (h : s.Sorts accesses) (a : Access) : (s.note a).Sorts (accesses ++ [a]) := by
  intro x
  rw [records_note, h x, firstAccess_concat_eq_some, and_or_left]
  refine or_congr_right ?_
  constructor
  · rintro ⟨rfl, ht, hnew⟩
    rw [h.occurred_iff ht, not_not] at hnew
    exact ⟨ht, hnew, rfl, rfl⟩
  · rintro ⟨ht, hnew, rfl, -⟩
    rw [← not_not (a := _ = none), ← ne_eq, ← h.occurred_iff ht] at hnew
    exact ⟨rfl, ht, hnew⟩

theorem Sorts.foldl_note (h : s.Sorts accesses) (more : List Access) :
    (more.foldl Summary.note s).Sorts (accesses ++ more) := by
  induction more generalizing s accesses with
  | nil => simpa using h
  | cons a more ih => simpa using ih (h.note a)

end Summary

theorem mem_transfer {s : Summary m} {out : TempSet m} :
    t ∈ s.transfer out ↔ t ∈ s.uses ∨ t ∈ out ∧ t ∉ s.defs := by
  rw [Summary.transfer, TempSet.mem_union, TempSet.mem_diff, or_comm]

/-- The summary of a block sorts the temps by their first occurrence in it. -/
theorem Block.sorts_summary (m : Nat) (b : Block n) : (b.summary m).Sorts b.accesses :=
  (Summary.sorts_empty m).foldl_note b.accesses

/-! ### The rest of a block -/

namespace Block

variable {block : Block n} {i : Nat} {o : Op} {out : Prop}

/-- The occurrences of temps behind the first `i` lines of a block. -/
def accessesFrom (block : Block n) (i : Nat) : List Access :=
  (block.ops.drop i).flatMap Op.accesses ++ block.operand.toList.map .read

/-- The temp is live behind the first `i` lines of a block, if `out` says whether it is live at its
end. -/
def LiveFrom (block : Block n) (t : Temp) (i : Nat) (out : Prop) : Prop :=
  firstAccess t (block.accessesFrom i) = some (.read t) ∨
    firstAccess t (block.accessesFrom i) ≠ some (.write t) ∧ out

theorem LiveFrom.imp {out' : Prop} (h : block.LiveFrom t i out) (himp : out → out') :
    block.LiveFrom t i out' := h.imp_right (And.imp_right himp)

theorem accessesFrom_of_op (ho : block.ops[i]? = some o) :
    block.accessesFrom i = o.accesses ++ block.accessesFrom (i + 1) := by
  obtain ⟨hi, rfl⟩ := List.getElem?_eq_some_iff.mp ho
  rw [accessesFrom, List.drop_eq_getElem_cons hi, List.flatMap_cons, List.append_assoc]
  rfl

theorem accessesFrom_of_end (hi : block.ops[i]? = none) :
    block.accessesFrom i = block.operand.toList.map .read := by
  rw [accessesFrom, List.drop_eq_nil_of_le (List.getElem?_eq_none_iff.mp hi)]
  rfl

theorem firstAccess_reads (t : Temp) (ts : List Temp) :
    firstAccess t (ts.map .read) = if t ∈ ts then some (.read t) else none := by
  induction ts with
  | nil => rfl
  | cons u ts ih =>
    have hcons : firstAccess t (.read u :: ts.map .read) =
        if u = t then some (.read u) else firstAccess t (ts.map .read) := by
      by_cases hu : u = t <;> simp only [firstAccess, List.find?_cons, Access.temp, hu] <;> rfl
    rw [List.map_cons, hcons, ih]
    by_cases hu : u = t
    · simp [hu]
    · simp [hu, Ne.symm hu]

theorem firstAccess_op_append (t : Temp) (o : Op) (rest : List Access) :
    firstAccess t (o.accesses ++ rest) =
      if t ∈ o.sources then some (.read t)
      else if o.dest = some t then some (.write t) else firstAccess t rest := by
  rw [Op.accesses, firstAccess, List.find?_append, List.find?_append]
  rw [show (o.sources.map Access.read).find? _ = _ from firstAccess_reads t o.sources]
  by_cases ht : t ∈ o.sources
  · simp [ht]
  · cases hd : o.dest with
    | none => simp [ht, firstAccess]
    | some d => by_cases hdt : d = t <;> simp [ht, hdt, Access.temp, firstAccess]

/-- Through an operation: what it reads is live, what it writes is not. -/
theorem liveFrom_of_op (ho : block.ops[i]? = some o) :
    block.LiveFrom t i out ↔
      t ∈ o.sources ∨ o.dest ≠ some t ∧ block.LiveFrom t (i + 1) out := by
  rw [LiveFrom, LiveFrom, accessesFrom_of_op ho, firstAccess_op_append]
  by_cases ht : t ∈ o.sources
  · simp [ht]
  · by_cases hd : o.dest = some t <;> simp [ht, hd]

theorem liveFrom_of_end (hi : block.ops[i]? = none) :
    block.LiveFrom t i out ↔ block.operand = some t ∨ out := by
  rw [LiveFrom, accessesFrom_of_end hi, firstAccess_reads]
  by_cases ht : block.operand = some t <;> simp [ht]

/-- What a block does to liveness. -/
theorem mem_transfer_summary {live : TempSet m} :
    t ∈ (block.summary m).transfer live ↔ t.slot < m ∧ block.LiveFrom t 0 (t ∈ live) := by
  have hsorts := block.sorts_summary m
  have hfrom : block.accessesFrom 0 = block.accesses := rfl
  rw [Summary.transfer, TempSet.mem_union, TempSet.mem_diff,
    show t ∈ (block.summary m).uses ↔ _ from hsorts (.read t),
    show t ∈ (block.summary m).defs ↔ _ from hsorts (.write t), LiveFrom, hfrom]
  constructor
  · rintro (⟨hlive, hdef⟩ | ⟨ht, hread⟩)
    · have ht := TempSet.slot_lt_of_mem hlive
      exact ⟨ht, .inr ⟨fun hwrite => hdef ⟨ht, hwrite⟩, hlive⟩⟩
    · exact ⟨ht, .inl hread⟩
  · rintro ⟨ht, hread | ⟨hwrite, hlive⟩⟩
    · exact .inr ⟨ht, hread⟩
    · exact .inl ⟨hlive, fun h => hwrite h.2⟩

end Block

end FlowFacts
