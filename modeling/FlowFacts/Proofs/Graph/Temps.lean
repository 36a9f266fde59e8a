import FlowFacts.Proofs.Graph.Execution

/-!
# The temps of a graph

All sets of a graph have the number of temps of its routine as their capacity. That is enough: the
temps that a graph reads or writes are temps of the routine, because cutting and pruning bring in
none and an insertion is refused if it does. So a set of the graph never fails to hold a temp that
matters.

## Main results

* `Graph.Step.exists_origin` — operations come from a block of before or are inserted
* `Graph.Reachable.tempsFit` — all temps that are read or written fit into the sets of the graph
-/

namespace FlowFacts

variable {n : Nat}

/-- The temps that a block reads or writes. -/
def Block.temps (b : Block n) : List Temp := b.ops.flatMap Op.temps ++ b.operand.toList

theorem Block.mem_temps {b : Block n} {t : Temp} :
    t ∈ b.temps ↔ (∃ o ∈ b.ops, t ∈ o.temps) ∨ b.operand = some t := by
  simp [Block.temps]

theorem exists_of_reads_mem {blocks : List (Block n)} {t : Temp} {p : Point}
    (h : Reads blocks t p) : ∃ b ∈ blocks, t ∈ b.temps := by
  cases h with
  | line hb ho ht =>
    refine ⟨_, List.mem_of_getElem? hb, Block.mem_temps.mpr (.inl ?_)⟩
    exact ⟨_, List.mem_of_getElem? ho, List.mem_append_right _ ht⟩
  | terminator hb ht => exact ⟨_, List.mem_of_getElem? hb, Block.mem_temps.mpr (.inr ht)⟩

/-! ### Routines -/

theorem Routine.slot_lt_tempCount {r : Routine} {i : Instr} {t : Temp} (hi : i ∈ r.code)
    (ht : t ∈ i.temps) : t.slot < r.tempCount :=
  lt_supremum (List.mem_flatMap.mpr ⟨i, hi, List.mem_map_of_mem ht⟩)

/-- The work of a segment comes from the stream. -/
theorem Routine.mem_code_of_work {r : Routine} {s : Segment} {i : Instr} (hs : s ∈ r.segments)
    (hi : i ∈ s.work) : i ∈ r.code :=
  mem_of_mem_code hs (List.mem_append_right _ hi)

theorem Segment.operand_of_terminator {segments : List Segment} {k : Nat} {s : Segment}
    {x : Terminator} {t : Temp} (h : s.terminator segments k = .ok x) (ht : x.operand = some t) :
    ∃ y, s.exit = some y ∧ y.operand = some t := by
  unfold Segment.terminator at h
  split at h
  · cases h
    split at ht <;> cases ht
  · next hexit =>
    cases h
    exact ⟨_, hexit, ht⟩
  · obtain ⟨_, -, rfl⟩ := map_eq_ok_iff.mp h
    cases ht
  · next hexit =>
    obtain ⟨_, -, rfl⟩ := map_eq_ok_iff.mp h
    exact ⟨_, hexit, ht⟩

/-- The operations of the blocks come from the stream. -/
theorem Routine.mem_code_of_provisional {r : Routine} {blocks : List (Block r.tempCount)}
    (h : r.provisional = .ok blocks) {k : Nat} {b : Block r.tempCount} (hb : blocks[k]? = some b)
    {o : Op} (ho : o ∈ b.ops) : Instr.op o ∈ r.code := by
  have hcut := r.cutInto_provisional h
  cases hs : r.segments[k]? with
  | none =>
    rw [(hcut.beyond hs hb).1] at ho
    cases ho
  | some s =>
    obtain ⟨b', hb', hops, -⟩ := hcut.block hs
    obtain rfl := Option.some.inj (hb'.symm.trans hb)
    have hi : Instr.op o ∈ s.work := List.mem_append_left _ (List.mem_map_of_mem (hops ▸ ho))
    exact mem_code_of_work (List.mem_of_getElem? hs) hi

theorem Routine.slot_lt_of_provisional {r : Routine} {blocks : List (Block r.tempCount)}
    (h : r.provisional = .ok blocks) {k : Nat} {b : Block r.tempCount} (hb : blocks[k]? = some b)
    {t : Temp} (ht : t ∈ b.temps) : t.slot < r.tempCount := by
  rcases Block.mem_temps.mp ht with ⟨o, ho, ht⟩ | ht
  · exact slot_lt_tempCount (mem_code_of_provisional h hb ho) ht
  · have hcut := r.cutInto_provisional h
    cases hs : r.segments[k]? with
    | none =>
      rw [Block.operand, (hcut.beyond hs hb).2] at ht
      cases ht
    | some s =>
      obtain ⟨b', hb', -, hterm⟩ := hcut.block hs
      obtain rfl := Option.some.inj (hb'.symm.trans hb)
      obtain ⟨y, hy, hty⟩ := Segment.operand_of_terminator hterm ht
      have hi : Instr.transfer y ∈ s.work := by simp [Segment.work, hy]
      refine slot_lt_tempCount (mem_code_of_work (List.mem_of_getElem? hs) hi) ?_
      simp [Instr.temps, Instr.sources, hty]

/-! ### Graphs -/

theorem Terminator.Threads.operand_eq {L : Nat → Nat → Prop} {x y : Terminator} {t : Temp}
    (h : x.Threads L y) (ht : y.operand = some t) : x.operand = some t := by
  cases h with
  | jump _ => cases ht
  | branch _ _ => exact ht
  | merged _ _ => cases ht
  | ret => exact ht

namespace Graph

/-- The blocks name no temp that does not fit into the sets of the graph. -/
def TempsFit (g : Graph) : Prop := ∀ b ∈ g.blocks, ∀ t ∈ b.temps, t.slot < g.tempCount

theorem TempsFit.slot_lt {g : Graph} (h : g.TempsFit) {t : Temp} {p : Point}
    (hr : Reads g.blocks t p) : t.slot < g.tempCount := by
  obtain ⟨b, hb, ht⟩ := exists_of_reads_mem hr
  exact h b hb t ht

theorem tempsFit_bare {r : Routine} {g : Graph} (h : bare r = .ok g) : g.TempsFit := by
  obtain ⟨blocks, pruned, hblocks, hpruned, htemps, hshape⟩ := exists_of_bare h
  intro b' hb' t ht
  obtain ⟨k, hk⟩ := List.getElem?_of_mem hb'
  obtain ⟨b, hb, hops, hterm⟩ := hshape.exists_getElem? hk
  obtain ⟨i, b₀, hb₀, hops₀, hthreads⟩ := exists_of_pruned hpruned hb
  rw [htemps]
  refine r.slot_lt_of_provisional hblocks hb₀ ?_
  rw [Block.mem_temps] at ht ⊢
  rw [← hops₀, hops]
  refine ht.imp_right fun ht => hthreads.operand_eq ?_
  rw [hterm]
  exact ht

theorem Step.tempCount_eq {g g' : Graph} {c : Command} (h : g.Step c g') :
    g'.tempCount = g.tempCount := by
  cases h <;> rfl

/-- Every block comes from one of before. What its body has in addition is inserted by the command,
and names only temps that fit. -/
theorem Step.exists_origin {g g' : Graph} {c : Command} (h : g.Step c g')
    {b' : Block g'.tempCount} (hb' : b' ∈ g'.blocks) :
    ∃ b ∈ g.blocks, b'.operand = b.operand ∧
      ∀ o ∈ b'.ops, o ∈ b.ops ∨
        c.inserted? = some (.op o) ∧ ∀ t ∈ o.temps, t.slot < g.tempCount := by
  cases hc : c.isInsertion with
  | false =>
    obtain ⟨k, hk⟩ := List.getElem?_of_mem hb'
    obtain ⟨b, hb, hops, hterm⟩ := (h.sameShape hc).exists_getElem? hk
    refine ⟨b, List.mem_of_getElem? hb, ?_, fun o ho => .inl (hops ▸ ho)⟩
    rw [Block.operand, Block.operand, hterm]
  | true =>
    cases h with
    | @insertion _ b place o block _ ho hb hi =>
      rcases List.mem_or_eq_of_mem_set hb' with hold | rfl
      · exact ⟨b', hold, rfl, fun _ ho' => .inl ho'⟩
      · refine ⟨block, List.mem_of_getElem? hb, rfl, fun o' ho' => ?_⟩
        have hops : block.ops = (block.body.take place).map Line.op ++
            (block.body.drop place).map Line.op := by
          rw [← List.map_append, List.take_append_drop, Block.ops]
        simp only [Block.ops, List.map_append, List.map_cons, List.mem_append,
          List.mem_cons] at ho'
        rw [hops, List.mem_append]
        rcases ho' with h | rfl | h
        · exact .inl (.inl h)
        · exact .inr ⟨hi, ho⟩
        · exact .inl (.inr h)
    | _ => cases hc

theorem Step.tempsFit {g g' : Graph} {c : Command} (h : g.Step c g') (hg : g.TempsFit) :
    g'.TempsFit := by
  intro b' hb' t ht
  obtain ⟨b, hb, hoperand, hops⟩ := h.exists_origin hb'
  rw [h.tempCount_eq]
  rcases Block.mem_temps.mp ht with ⟨o, ho, ht⟩ | ht
  · rcases hops o ho with hold | ⟨-, hfit⟩
    · exact hg b hb t (Block.mem_temps.mpr (.inl ⟨o, hold, ht⟩))
    · exact hfit t ht
  · exact hg b hb t (Block.mem_temps.mpr (.inr (hoperand ▸ ht)))

/-- Every temp that a graph names fits into its sets. -/
theorem Reachable.tempsFit {g : Graph} {fresh : Analyses} (hg : g.Reachable fresh) :
    g.TempsFit :=
  hg.induction (P := fun g _ => g.TempsFit) tempsFit_bare fun hg h => h.tempsFit hg

theorem Reachable.slot_lt_of_reads {g : Graph} {fresh : Analyses} (hg : g.Reachable fresh)
    {t : Temp} {p : Point} (h : Reads g.blocks t p) : t.slot < g.tempCount :=
  hg.tempsFit.slot_lt h

end Graph

end FlowFacts
