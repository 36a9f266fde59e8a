import FlowFacts.Chain
import FlowFacts.Proofs.Attempts
import FlowFacts.Proofs.Path
import Mathlib.Data.List.Basic

/-!
# What the search for uses finds

A scan goes through the rest of a block. What it finds and whether it goes on unfolds operation by
operation, which is how paths unfold too.

The search never enters a block twice. It is specified by `Found`: the uses that can be found from a
block without entering the blocks of a list. Once a block has been scanned and is in the list, what
could be found through it is found through its successors instead (`Found.through`): the last time
that a way comes by the block, it goes on from there.

## Main results

* `Block.mem_scan_of_op`, `Block.survives_of_op` — a scan, operation by operation
* `mem_search_iff` — the search finds exactly what can be found
* `nodup_search` — and finds nothing twice
-/

namespace FlowFacts

variable {n : Nat} {t : Temp} {u : Use}

/-! ### Scanning -/

namespace Block

variable {block : Block n} {b i : Nat} {o : Op}

theorem scan_of_op (ho : block.ops[i]? = some o) :
    block.scan b t i =
      if o.dest = some t then (if o.reads t then [⟨b, .line (i + 1)⟩] else [], true)
      else ((if o.reads t then [⟨b, .line (i + 1)⟩] else []) ++ (block.scan b t (i + 1)).1,
        (block.scan b t (i + 1)).2) := by
  obtain ⟨hi, rfl⟩ := List.getElem?_eq_some_iff.mp ho
  rw [scan, List.drop_eq_getElem_cons hi]
  rfl

theorem scan_of_end (hi : block.ops[i]? = none) :
    block.scan b t i = (if block.operand = some t then [⟨b, .blockEnd⟩] else [], false) := by
  rw [scan, List.drop_eq_nil_of_le (List.getElem?_eq_none_iff.mp hi)]
  rfl

theorem mem_scan_of_op (ho : block.ops[i]? = some o) :
    u ∈ (block.scan b t i).1 ↔ t ∈ o.sources ∧ ⟨b, .line (i + 1)⟩ = u ∨
      o.dest ≠ some t ∧ u ∈ (block.scan b t (i + 1)).1 := by
  have hhere : u ∈ (if o.reads t then [(⟨b, .line (i + 1)⟩ : Use)] else []) ↔
      t ∈ o.sources ∧ ⟨b, .line (i + 1)⟩ = u := by
    rw [← Op.reads_iff]
    by_cases h : o.reads t = true <;> simp [h, eq_comm]
  rw [scan_of_op ho]
  by_cases hd : o.dest = some t
  · simp only [hd, if_true, ne_eq, not_true_eq_false, false_and, or_false]
    exact hhere
  · simp only [hd, if_false, List.mem_append, ne_eq, not_false_eq_true, true_and]
    rw [hhere]

theorem mem_scan_of_end (hi : block.ops[i]? = none) :
    u ∈ (block.scan b t i).1 ↔ block.operand = some t ∧ ⟨b, .blockEnd⟩ = u := by
  rw [scan_of_end hi]
  by_cases h : block.operand = some t <;> simp [h, eq_comm]

/-- A value survives the rest of a block if no operation writes it. -/
theorem survives_of_op (ho : block.ops[i]? = some o) :
    (block.scan b t i).2 = false ↔ o.dest ≠ some t ∧ (block.scan b t (i + 1)).2 = false := by
  rw [scan_of_op ho]
  by_cases hd : o.dest = some t <;> simp [hd]

theorem survives_of_end (hi : block.ops[i]? = none) : (block.scan b t i).2 = false := by
  rw [scan_of_end hi]

/-- A scan finds uses of its block that it has not passed yet. -/
theorem of_mem_scan (h : u ∈ (block.scan b t i).1) :
    u.block = b ∧ ∀ k, u.position = .line k → i < k := by
  revert h
  refine block.backward_induction (P := fun i => u ∈ (block.scan b t i).1 →
    u.block = b ∧ ∀ k, u.position = .line k → i < k) ?_ ?_ i
  · intro i hi h
    obtain ⟨-, rfl⟩ := (mem_scan_of_end hi).mp h
    exact ⟨rfl, fun k hk => nomatch hk⟩
  · intro i o ho ih h
    rcases (mem_scan_of_op ho).mp h with ⟨-, rfl⟩ | ⟨-, h⟩
    · refine ⟨rfl, fun k hk => ?_⟩
      cases hk
      exact Nat.lt_succ_self i
    · exact ⟨(ih h).1, fun k hk => Nat.lt_of_succ_lt ((ih h).2 k hk)⟩

/-- A scan does not go past a line that writes the temp. -/
theorem line_le_of_mem_scan {j : Nat} (ho : block.ops[j]? = some o) (hd : o.dest = some t)
    (hij : i ≤ j) (h : u ∈ (block.scan b t i).1) : ∃ k, u.position = .line k ∧ k ≤ j + 1 := by
  induction hk : j - i generalizing i with
  | zero =>
    obtain rfl : i = j := by omega
    rcases (mem_scan_of_op ho).mp h with ⟨-, rfl⟩ | ⟨hne, -⟩
    · exact ⟨i + 1, rfl, Nat.le_refl _⟩
    · exact absurd hd hne
  | succ k ih =>
    have hlt : i < block.ops.length := by
      have := (List.getElem?_eq_some_iff.mp ho).1
      omega
    rcases (mem_scan_of_op (List.getElem?_eq_getElem hlt)).mp h with ⟨-, rfl⟩ | ⟨-, h⟩
    · exact ⟨i + 1, rfl, by omega⟩
    · exact ih (by omega) h (by omega)

theorem nodup_scan (block : Block n) (b : Nat) (t : Temp) (i : Nat) :
    (block.scan b t i).1.Nodup := by
  refine block.backward_induction (P := fun i => (block.scan b t i).1.Nodup) ?_ ?_ i
  · intro i hi
    rw [scan_of_end hi]
    by_cases h : block.operand = some t <;> simp [h]
  · intro i o ho ih
    have hnew : (⟨b, .line (i + 1)⟩ : Use) ∉ (block.scan b t (i + 1)).1 := fun h =>
      absurd ((of_mem_scan h).2 _ rfl) (Nat.lt_irrefl _)
    rw [scan_of_op ho]
    by_cases hd : o.dest = some t <;> by_cases hr : o.reads t = true <;> simp [hd, hr, hnew, ih]

end Block

/-! ### Searching -/

/-- The use can be found from block `c` without entering the blocks of the list. -/
inductive Found (blocks : List (Block n)) (t : Temp) (scanned : List Nat) (u : Use) : Nat → Prop
  | here {c : Nat} {block : Block n} (hc : blocks[c]? = some block) (hs : c ∉ scanned)
      (hu : u ∈ (block.scan c t 0).1) : Found blocks t scanned u c
  | onward {c d : Nat} {block : Block n} (hc : blocks[c]? = some block) (hs : c ∉ scanned)
      (hk : (block.scan c t 0).2 = false) (hd : d ∈ block.successors)
      (h : Found blocks t scanned u d) : Found blocks t scanned u c

namespace Found

variable {blocks : List (Block n)} {scanned : List Nat} {b c : Nat} {block : Block n}

theorem not_mem (h : Found blocks t scanned u c) : c ∉ scanned := by
  cases h with
  | here _ hs _ => exact hs
  | onward _ hs _ _ _ => exact hs

theorem lt_length (h : Found blocks t scanned u c) : c < blocks.length := by
  cases h with
  | here hc _ _ => exact (List.getElem?_eq_some_iff.mp hc).1
  | onward hc _ _ _ _ => exact (List.getElem?_eq_some_iff.mp hc).1

theorem block_not_mem (h : Found blocks t scanned u c) : u.block ∉ scanned := by
  induction h with
  | here _ hs hu => exact (Block.of_mem_scan hu).1 ▸ hs
  | onward _ _ _ _ _ ih => exact ih

theorem of_cons (h : Found blocks t (b :: scanned) u c) : Found blocks t scanned u c := by
  induction h with
  | here hc hs hu => exact .here hc (fun h => hs (List.mem_cons_of_mem b h)) hu
  | onward hc hs hk hd _ ih => exact .onward hc (fun h => hs (List.mem_cons_of_mem b h)) hk hd ih

/-- What can be found can be found past block `b`, or in it, or from one of its successors without
coming back to it. -/
theorem through (h : Found blocks t scanned u c) (hb : blocks[b]? = some block) :
    Found blocks t (b :: scanned) u c ∨ u ∈ (block.scan b t 0).1 ∨
      (block.scan b t 0).2 = false ∧ ∃ d ∈ block.successors, Found blocks t (b :: scanned) u d := by
  induction h with
  | @here c block' hc hs hu =>
    by_cases hcb : c = b
    · subst hcb
      obtain rfl := Option.some.inj (hc.symm.trans hb)
      exact .inr (.inl hu)
    · exact .inl (.here hc (by simp [hcb, hs]) hu)
  | @onward c d block' hc hs hk hd _ ih =>
    rcases ih with h | h
    · by_cases hcb : c = b
      · subst hcb
        obtain rfl := Option.some.inj (hc.symm.trans hb)
        exact .inr (.inr ⟨hk, d, hd, h⟩)
      · exact .inl (.onward hc (by simp [hcb, hs]) hk hd h)
    · exact .inr h

end Found

theorem Block.mem_onward {block : Block n} {killed : Bool} {depth : Nat} {p : Nat × Nat} :
    p ∈ block.onward killed depth ↔
      killed = false ∧ ∃ s ∈ block.successors, (s, depth + 1) = p := by
  cases killed <;> simp [Block.onward]

/-- The search finds what can be found from the stack. -/
theorem mem_search_iff {blocks : List (Block n)} {limit : Nat} {stack : List (Nat × Nat)}
    {scanned : List Nat} {uses : List Use} (h : search blocks t limit stack scanned = .ok uses) :
    u ∈ uses ↔ ∃ p ∈ stack, Found blocks t scanned u p.1 := by
  fun_induction search blocks t limit stack scanned generalizing uses with
  | case1 =>
    cases h
    simp
  | case2 => cases h
  | case3 scanned b depth rest _ hs ih =>
    rw [ih h, List.exists_mem_cons_iff]
    exact (or_iff_right fun hf => hf.not_mem hs).symm
  | case4 scanned b depth rest _ hs hb found killed hscan ih =>
    obtain ⟨more, hmore, rfl⟩ := map_eq_ok_iff.mp h
    have hget : blocks[b]? = some blocks[b] := List.getElem?_eq_getElem hb
    rw [List.mem_append, ih hmore, List.exists_mem_cons_iff]
    constructor
    · rintro (hu | ⟨p, hp, hf⟩)
      · exact .inl (.here hget hs (hscan ▸ hu))
      · rcases List.mem_append.mp hp with hp | hp
        · obtain ⟨hk, s, hmem, rfl⟩ := Block.mem_onward.mp hp
          exact .inl (.onward hget hs (hscan ▸ hk) hmem hf.of_cons)
        · exact .inr ⟨p, hp, hf.of_cons⟩
    · -- what was found through block `b` is found behind it
      have hthrough : ∀ {c}, Found blocks t scanned u c → (c = b ∨ ∃ p ∈ rest, p.1 = c) →
          u ∈ found ∨ ∃ p ∈ blocks[b].onward killed depth ++ rest,
            Found blocks t (b :: scanned) u p.1 := by
        intro c hf hc
        rcases hf.through hget with hf | hu | ⟨hk, s, hmem, hf⟩
        · rcases hc with rfl | ⟨p, hp, rfl⟩
          · exact absurd List.mem_cons_self hf.not_mem
          · exact .inr ⟨p, List.mem_append_right _ hp, hf⟩
        · exact .inl (by rwa [hscan] at hu)
        · rw [hscan] at hk
          exact .inr ⟨(s, depth + 1),
            List.mem_append_left _ (Block.mem_onward.mpr ⟨hk, s, hmem, rfl⟩), hf⟩
      rintro (hf | ⟨p, hp, hf⟩)
      · exact hthrough hf (.inl rfl)
      · exact hthrough hf (.inr ⟨p, hp, rfl⟩)
  | case5 scanned b depth rest _ hs hb ih =>
    rw [ih h, List.exists_mem_cons_iff]
    exact (or_iff_right fun hf => hb hf.lt_length).symm

/-- The search finds nothing twice. -/
theorem nodup_search {blocks : List (Block n)} {limit : Nat} {stack : List (Nat × Nat)}
    {scanned : List Nat} {uses : List Use} (h : search blocks t limit stack scanned = .ok uses) :
    uses.Nodup := by
  fun_induction search blocks t limit stack scanned generalizing uses with
  | case1 =>
    cases h
    exact List.nodup_nil
  | case2 => cases h
  | case3 _ _ _ _ _ _ ih => exact ih h
  | case4 scanned b depth rest _ hs hb found killed hscan ih =>
    obtain ⟨more, hmore, rfl⟩ := map_eq_ok_iff.mp h
    have hfound : found = (blocks[b].scan b t 0).1 := by rw [hscan]
    refine List.nodup_append.mpr ⟨hfound ▸ Block.nodup_scan .., ih hmore, ?_⟩
    rintro v hv _ hw rfl
    obtain ⟨p, -, hf⟩ := (mem_search_iff hmore).mp hw
    refine hf.block_not_mem ?_
    rw [hfound] at hv
    rw [(Block.of_mem_scan hv).1]
    exact List.mem_cons_self
  | case5 _ _ _ _ _ _ _ ih => exact ih h

end FlowFacts
