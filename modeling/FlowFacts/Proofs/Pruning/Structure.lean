import FlowFacts.Proofs.Block.Structure
import FlowFacts.Proofs.Pruning.Outcome

/-!
# Pruned blocks are structured

The blocks that stay are numbered by their position, and every new number is that of one of them.
Different blocks get different numbers, so targets that differ still do after numbering anew, and
those that coincide have been merged before.

That every block but the entry has a predecessor needs an argument. The blocks that led to it may
have been removed. One that stays leads to it through redirects (`Stays.exists_feeder`), and its
jump is threaded past them.

## Main results

* `structured_setInDegrees` — what makes blocks structured once their degrees are stored
* `structured_of_prune` — pruned blocks are structured
-/

namespace FlowFacts

variable {n : Nat} {blocks : List (Block n)}

/-! ### Storing degrees -/

@[simp] theorem length_setInDegrees (blocks : List (Block n)) :
    (setInDegrees blocks).length = blocks.length := by
  simp [setInDegrees, entryCounts]

theorem exists_of_setInDegrees {k : Nat} {b' : Block n}
    (hk : (setInDegrees blocks)[k]? = some b') :
    ∃ b, blocks[k]? = some b ∧ b'.number = b.number ∧ b'.cancelled = b.cancelled ∧
      b'.terminator = b.terminator ∧ b'.inDegree = (entryCounts blocks).getD k 0 := by
  rw [getElem?_setInDegrees] at hk
  obtain ⟨b, hb, rfl⟩ := Option.map_eq_some_iff.mp hk
  exact ⟨b, hb, rfl, rfl, rfl, rfl⟩

theorem map_terminator_setInDegrees (blocks : List (Block n)) :
    (setInDegrees blocks).map Block.terminator = blocks.map Block.terminator := by
  refine map_eq_map_of_getElem? (length_setInDegrees blocks) fun {k b'} hk => ?_
  obtain ⟨b, hb, -, -, hterm, -⟩ := exists_of_setInDegrees hk
  exact ⟨b, hb, hterm.symm⟩

theorem map_inDegree_setInDegrees (blocks : List (Block n)) :
    (setInDegrees blocks).map Block.inDegree = entryCounts blocks := by
  have hlen : (entryCounts blocks).length ≤ blocks.length := by simp [entryCounts]
  rw [setInDegrees, List.map_map]
  exact List.map_snd_zip hlen

/-- If no block leads to another one twice, the degree of a block counts its predecessors. -/
theorem inDegree_of_setInDegrees (hnodup : ∀ b ∈ blocks, b.successors.Nodup) {k : Nat}
    {b' : Block n} (hk : (setInDegrees blocks)[k]? = some b') :
    b'.inDegree = (predecessors blocks k).length + if k = 0 then 1 else 0 := by
  obtain ⟨b, hb, -, -, -, hdegree⟩ := exists_of_setInDegrees hk
  have hlt := (List.getElem?_eq_some_iff.mp hb).1
  simp [hdegree, entryCounts, hlt, count_successors hnodup, Nat.add_comm]

/-- Blocks that are numbered by their position, lead to different blocks and are led to are
structured once their degrees are stored. -/
theorem structured_setInDegrees
    (hnumber : ∀ {k : Nat} {b : Block n}, blocks[k]? = some b → b.number = k)
    (hstays : ∀ b ∈ blocks, b.cancelled = false) (htargets : TargetsExist blocks)
    (hnodup : ∀ b ∈ blocks, b.successors.Nodup)
    (hfed : ∀ {k : Nat}, k < blocks.length → k ≠ 0 → ∃ b ∈ blocks, k ∈ b.successors) :
    Structured (setInDegrees blocks) := by
  have hterms := map_terminator_setInDegrees blocks
  have hmem : ∀ b' ∈ setInDegrees blocks, ∃ b ∈ blocks, b'.cancelled = b.cancelled ∧
      b'.terminator = b.terminator := by
    intro b' hb'
    obtain ⟨k, hk⟩ := List.getElem?_of_mem hb'
    obtain ⟨b, hb, -, hcancelled, hterm, -⟩ := exists_of_setInDegrees hk
    exact ⟨b, List.mem_of_getElem? hb, hcancelled, hterm⟩
  refine ⟨?_, ?_, ?_, ?_, ?_, ?_, ?_⟩
  · intro k b' hk
    obtain ⟨b, hb, heq, -⟩ := exists_of_setInDegrees hk
    exact heq.trans (hnumber hb)
  · intro b' hb'
    obtain ⟨b, hb, hcancelled, -⟩ := hmem b' hb'
    exact hcancelled.trans (hstays b hb)
  · intro b' hb' s hs
    obtain ⟨b, hb, -, hterm⟩ := hmem b' hb'
    rw [Block.successors, hterm] at hs
    rw [length_setInDegrees]
    exact htargets b hb s hs
  · intro b' hb' test c t f hbranch
    obtain ⟨b, hb, -, hterm⟩ := hmem b' hb'
    have htf := hnodup b hb
    rw [Block.successors, ← hterm, hbranch] at htf
    simpa [Terminator.successors] using htf
  · intro k b' hk
    rw [inDegree_of_setInDegrees hnodup hk, length_predecessors_congr hterms]
  · intro b' hb'
    obtain ⟨k, hk⟩ := List.getElem?_of_mem hb'
    rw [inDegree_of_setInDegrees hnodup hk]
    by_cases hzero : k = 0
    · simp [hzero]
    · have hlt := (List.getElem?_eq_some_iff.mp hk).1
      rw [length_setInDegrees] at hlt
      obtain ⟨b, hb, hkb⟩ := hfed hlt hzero
      have hpos : 0 < (predecessors blocks k).length := by
        rw [length_predecessors]
        exact List.countP_pos_iff.mpr ⟨b, hb, by simpa using hkb⟩
      exact Nat.le_add_right_of_le hpos
  · intro hne
    have hne' : blocks ≠ [] := by
      rintro rfl
      exact hne rfl
    rw [map_inDegree_setInDegrees, sum_entryCounts htargets hne', length_edges_congr hterms,
      length_edges]

/-! ### Different targets -/

namespace Terminator

theorem nodup_successors_merge (x : Terminator) : x.merge.successors.Nodup := by
  cases x with
  | jump t => exact List.nodup_singleton t
  | branch test c t f =>
    by_cases h : t = f
    · rw [merge, if_pos h]
      exact List.nodup_singleton t
    · rw [merge, if_neg h]
      simpa [successors] using h
  | ret v => exact List.nodup_nil

/-- Targets that differ still do if different ones are replaced by different ones. -/
theorem nodup_successors_of_retarget {ε : Type} {f : Nat → Except ε Nat} {x y : Terminator}
    (h : x.retarget f = .ok y) (hf : ∀ {s s' t : Nat}, f s = .ok t → f s' = .ok t → s = s')
    (hx : x.successors.Nodup) : y.successors.Nodup := by
  cases x with
  | jump t =>
    obtain ⟨t', -, rfl⟩ := map_eq_ok_iff.mp h
    exact List.nodup_singleton t'
  | branch test c t u =>
    obtain ⟨_, u', hy, hu, rfl⟩ := seq_eq_ok_iff.mp h
    obtain ⟨t', ht, rfl⟩ := map_eq_ok_iff.mp hy
    have hne : t ≠ u := by simpa [successors] using hx
    have hne' : t' ≠ u' := fun heq => hne (hf ht (heq ▸ hu))
    simpa [successors] using hne'
  | ret v =>
    cases h
    exact List.nodup_nil

/-- A target that can only be replaced by one block is replaced by that block. -/
theorem Threads.mem_successors {L : Nat → Nat → Prop} {x y : Terminator} (h : x.Threads L y)
    {s k : Nat} (hs : s ∈ x.successors) (hk : ∀ k', L s k' → k' = k) : k ∈ y.successors := by
  cases h with
  | ret v => cases hs
  | jump h =>
    obtain rfl := List.mem_singleton.mp hs
    simp [successors, hk _ h]
  | branch ht hf =>
    rcases List.mem_pair.mp hs with rfl | rfl
    · simp [successors, hk _ ht]
    · simp [successors, hk _ hf]
  | merged ht hf =>
    rcases List.mem_pair.mp hs with rfl | rfl
    · simp [successors, hk _ ht]
    · simp [successors, hk _ hf]

end Terminator

theorem Lands.unique {s k k' : Nat} (h : Lands blocks s k) (h' : Lands blocks s k') : k = k' := by
  obtain ⟨c, hc, hk⟩ := h
  obtain ⟨c', hc', hk'⟩ := h'
  obtain rfl := Except.ok.inj (hc.symm.trans hc')
  exact Option.some.inj (hk.symm.trans hk')

/-! ### Survivors -/

namespace PruningPasses

variable {threaded survivors : List (Block n)}

/-- The targets of a survivor are numbers of survivors, and no two of them are the same. -/
theorem targets (h : PruningPasses blocks threaded survivors) {k : Nat} {b₂ : Block n}
    (hk : survivors[k]? = some b₂) :
    (∀ t ∈ b₂.successors, t < survivors.length) ∧ b₂.successors.Nodup := by
  obtain ⟨i, b, b₁, -, hb, -, hb₁, hb₂⟩ := h.exists_of_survivor hk
  obtain ⟨x, -, hmerge⟩ := (Block.thread_eq_ok hb₁).2.2 hb
  obtain ⟨-, -, -, hretarget⟩ := Block.renumber_eq_ok hb₂
  constructor
  · intro t ht
    obtain ⟨s, -, hst⟩ := (Terminator.mem_successors_of_retarget hretarget).mp ht
    obtain ⟨b', hkept⟩ := newNumber?_eq_some_iff.mp (newNumber?_eq_some_of_ok hst)
    rw [length_of_mapM h.renumber]
    exact (List.getElem?_eq_some_iff.mp hkept).1
  · refine Terminator.nodup_successors_of_retarget hretarget (fun hs hs' =>
      newNumber?_inj (newNumber?_eq_some_of_ok hs) (newNumber?_eq_some_of_ok hs')) ?_
    rw [hmerge]
    exact x.nodup_successors_merge

/-- Every survivor but the entry is a target of a survivor. -/
theorem exists_feeder (h : PruningPasses blocks threaded survivors)
    (hblocks : TargetsExist blocks) {k : Nat} (hk : k < survivors.length) (hne : k ≠ 0) :
    ∃ b ∈ survivors, k ∈ b.successors := by
  obtain ⟨i, b, _, hi, hb, hnew, -, -⟩ :=
    h.exists_of_survivor (List.getElem?_eq_getElem hk)
  have hi₀ : i ≠ 0 := by
    rintro rfl
    rw [newNumber?, hi] at hnew
    simp only [hb, Bool.false_eq_true, if_false, List.take_zero, List.countP_nil] at hnew
    exact hne (Option.some.inj hnew).symm
  obtain ⟨j, block, s, m, ⟨bj, hj, hstays⟩, hblock, hs, hlead⟩ :=
    Stays.exists_feeder ⟨b, hi, hb⟩ hi₀
  have hbj := hj
  rw [getElem?_marked, hblock, Option.map_some] at hbj
  replace hs : s ∈ bj.successors := Option.some.inj hbj ▸ hs
  obtain ⟨hrun, hlt⟩ := mayRun_successor hblocks hj hstays hs
  have hlands : Lands blocks s k :=
    ⟨i, chase_of_leads hblocks hlead hrun hlt hlead.le_length, hnew⟩
  obtain ⟨l, b₁, b₂, -, hb₁, hb₂, hl⟩ := h.exists_survivor hj hstays
  obtain ⟨-, hthreads⟩ := h.threads hstays hb₁ hb₂
  exact ⟨b₂, List.mem_of_getElem? hl,
    hthreads.mem_successors hs fun k' hk' => hk'.unique hlands⟩

end PruningPasses

/-- **Pruned blocks are structured.** -/
theorem structured_of_prune (hblocks : TargetsExist blocks) {pruned : Pruned n}
    (h : prune blocks = .ok pruned) : Structured pruned.blocks := by
  obtain ⟨threaded, survivors, hpass, hpruned⟩ := exists_passes h
  rw [hpruned]
  refine structured_setInDegrees ?_ ?_ ?_ ?_ (hpass.exists_feeder hblocks)
  · intro k b₂ hk
    obtain ⟨i, b, b₁, -, -, hnew, -, hb₂⟩ := hpass.exists_of_survivor hk
    obtain ⟨-, -, hnumber, -⟩ := Block.renumber_eq_ok hb₂
    rw [hnumber, newNumber?_congr (map_cancelled_of_thread hpass.thread), hnew]
    rfl
  · intro b₂ hb₂
    obtain ⟨k, hk⟩ := List.getElem?_of_mem hb₂
    obtain ⟨i, b, b₁, -, hb, -, hb₁, hb₂⟩ := hpass.exists_of_survivor hk
    obtain ⟨-, hcancelled, -, -⟩ := Block.renumber_eq_ok hb₂
    rw [hcancelled, (Block.thread_eq_ok hb₁).2.1, hb]
  · intro b₂ hb₂
    obtain ⟨k, hk⟩ := List.getElem?_of_mem hb₂
    exact (hpass.targets hk).1
  · intro b₂ hb₂
    obtain ⟨k, hk⟩ := List.getElem?_of_mem hb₂
    exact (hpass.targets hk).2

end FlowFacts
