import FlowFacts.BitSet.Basic

/-!
# Bit sets, bit by bit

A set is well-formed if it has just as many words as its capacity needs and no bit beyond the
capacity. Every operation keeps this, given sets of one capacity where it takes two, and changes the
bits as a set operation should.

## Main results

* `bit_insert`, `bit_erase`, `bit_union`, `bit_diff` — what the operations do to single bits
* `WellFormed.insert`, `WellFormed.erase`, `WellFormed.union`, `WellFormed.diff` — they keep a set
  well-formed
* `changes_eq_bne` — some word changes just if the words as a whole do
* `WellFormed.ext` — well-formed sets of one capacity with the same bits are equal
-/

namespace FlowFacts

namespace BitSet

/-- Just as many words as the capacity needs, and no bit beyond it. -/
structure WellFormed (s : BitSet) : Prop where
  length_words : s.words.length = (s.capacity + 63) / 64
  lt_capacity : ∀ i, s.bit i = true → i < s.capacity

@[simp] theorem capacity_empty (n : Nat) : (empty n).capacity = n := rfl

@[simp] theorem capacity_insert (s : BitSet) (i : Nat) : (s.insert i).capacity = s.capacity := by
  unfold insert; split <;> rfl

@[simp] theorem capacity_erase (s : BitSet) (i : Nat) : (s.erase i).capacity = s.capacity := by
  unfold erase; split <;> rfl

@[simp] theorem capacity_union (s t : BitSet) : (s.union t).capacity = s.capacity := rfl

@[simp] theorem capacity_diff (s t : BitSet) : (s.diff t).capacity = s.capacity := rfl

@[simp] theorem bit_empty (n i : Nat) : (empty n).bit i = false := by
  simp [bit, empty, List.getD_eq_getElem?_getD, List.getElem?_replicate]
  split <;> simp

theorem wellFormed_empty (n : Nat) : (empty n).WellFormed where
  length_words := by simp [empty]
  lt_capacity := by simp

/-- Sets of one capacity have equally many words. -/
theorem WellFormed.length_words_eq {s t : BitSet} (hs : s.WellFormed) (ht : t.WellFormed)
    (h : s.capacity = t.capacity) : s.words.length = t.words.length := by
  rw [hs.length_words, ht.length_words, h]

/-- The word that holds a number below the capacity exists. -/
theorem WellFormed.div_lt {s : BitSet} (hs : s.WellFormed) {i : Nat} (hi : i < s.capacity) :
    i / 64 < s.words.length := by
  rw [hs.length_words]
  omega

/-- Changing the bits of one word changes the bits at its positions only. -/
private theorem bit_modify (s : BitSet) {k : Nat} (hk : k < s.words.length) (f : Word → Word)
    (j : Nat) :
    bit { s with words := s.words.modify k f } j =
      if k = j / 64 then (f (s.words.getD k 0#64)).getLsbD (j % 64) else s.bit j := by
  by_cases h : k = j / 64
  · subst h
    simp [bit, List.getD_eq_getElem?_getD, List.getElem?_eq_getElem hk]
  · simp [bit, List.getD_eq_getElem?_getD, h]

theorem bit_insert {s : BitSet} (hs : s.WellFormed) (i j : Nat) :
    (s.insert i).bit j = (s.bit j || (decide (i < s.capacity) && decide (i = j))) := by
  by_cases hi : i < s.capacity
  · simp only [insert, hi, if_true, decide_true, Bool.true_and]
    rw [bit_modify s (hs.div_lt hi)]
    by_cases h : i / 64 = j / 64
    · have hmod : (i % 64 = j % 64) = (i = j) := by
        apply propext
        constructor <;> intro <;> omega
      have hlt : i % 64 < 64 := Nat.mod_lt _ (by decide)
      simp [h, bit, hmod, hlt]
    · have hne : i ≠ j := fun e => h (by rw [e])
      simp [h, hne]
  · simp [insert, hi]

theorem bit_erase {s : BitSet} (hs : s.WellFormed) (i j : Nat) :
    (s.erase i).bit j = (s.bit j && !(decide (i < s.capacity) && decide (i = j))) := by
  by_cases hi : i < s.capacity
  · simp only [erase, hi, if_true, decide_true, Bool.true_and]
    rw [bit_modify s (hs.div_lt hi)]
    by_cases h : i / 64 = j / 64
    · have hmod : (j % 64 = i % 64) = (i = j) := by
        apply propext
        constructor <;> intro <;> omega
      have hlt : j % 64 < 64 := Nat.mod_lt _ (by decide)
      simp [h, bit, hmod, hlt]
    · have hne : i ≠ j := fun e => h (by rw [e])
      simp [h, hne]
  · simp [erase, hi]

/-- A word-by-word combination, read bit by bit, where both sets have a word. -/
private theorem bit_zipWith {s t : BitSet} (hs : s.WellFormed) (ht : t.WellFormed)
    (h : s.capacity = t.capacity) (f : Word → Word → Word) (hf : f 0#64 0#64 = 0#64) (j : Nat) :
    bit { s with words := s.words.zipWith f t.words } j =
      (f (s.words.getD (j / 64) 0#64) (t.words.getD (j / 64) 0#64)).getLsbD (j % 64) := by
  have hlen := hs.length_words_eq ht h
  simp only [bit, List.getD_eq_getElem?_getD, List.getElem?_zipWith]
  by_cases hj : j / 64 < s.words.length
  · have hj' : j / 64 < t.words.length := hlen ▸ hj
    simp [List.getElem?_eq_getElem hj, List.getElem?_eq_getElem hj']
  · have hj' : ¬j / 64 < t.words.length := hlen ▸ hj
    simp [List.getElem?_eq_none (Nat.le_of_not_lt hj), List.getElem?_eq_none (Nat.le_of_not_lt hj'),
      hf]

theorem bit_union {s t : BitSet} (hs : s.WellFormed) (ht : t.WellFormed)
    (h : s.capacity = t.capacity) (j : Nat) : (s.union t).bit j = (s.bit j || t.bit j) := by
  rw [union, bit_zipWith hs ht h _ (by simp)]
  simp [bit]

theorem bit_diff {s t : BitSet} (hs : s.WellFormed) (ht : t.WellFormed)
    (h : s.capacity = t.capacity) (j : Nat) : (s.diff t).bit j = (s.bit j && !t.bit j) := by
  rw [diff, bit_zipWith hs ht h _ (by simp)]
  have hlt : j % 64 < 64 := Nat.mod_lt _ (by decide)
  simp [bit, hlt]

theorem WellFormed.insert {s : BitSet} (hs : s.WellFormed) (i : Nat) : (s.insert i).WellFormed where
  length_words := by
    unfold BitSet.insert
    split
    · simpa using hs.length_words
    · exact hs.length_words
  lt_capacity j hj := by
    rw [bit_insert hs] at hj
    rw [capacity_insert]
    simp only [Bool.or_eq_true, Bool.and_eq_true, decide_eq_true_eq] at hj
    rcases hj with h | ⟨h, rfl⟩
    · exact hs.lt_capacity j h
    · exact h

theorem WellFormed.erase {s : BitSet} (hs : s.WellFormed) (i : Nat) : (s.erase i).WellFormed where
  length_words := by
    unfold BitSet.erase
    split
    · simpa using hs.length_words
    · exact hs.length_words
  lt_capacity j hj := by
    rw [bit_erase hs] at hj
    rw [capacity_erase]
    exact hs.lt_capacity j (Bool.and_eq_true _ _ ▸ hj).1

theorem WellFormed.union {s t : BitSet} (hs : s.WellFormed) (ht : t.WellFormed)
    (h : s.capacity = t.capacity) : (s.union t).WellFormed where
  length_words := by
    simp [BitSet.union, ← hs.length_words_eq ht h, hs.length_words]
  lt_capacity j hj := by
    rw [bit_union hs ht h, Bool.or_eq_true] at hj
    rcases hj with hj | hj
    · exact hs.lt_capacity j hj
    · exact h ▸ ht.lt_capacity j hj

theorem WellFormed.diff {s t : BitSet} (hs : s.WellFormed) (ht : t.WellFormed)
    (h : s.capacity = t.capacity) : (s.diff t).WellFormed where
  length_words := by
    simp [BitSet.diff, ← hs.length_words_eq ht h, hs.length_words]
  lt_capacity j hj := by
    rw [bit_diff hs ht h, Bool.and_eq_true] at hj
    exact hs.lt_capacity j hj.1

/-- Words are compared one by one, and if there are as many on both sides, no change is missed. -/
theorem changes_eq_bne {s t : BitSet} (hlen : s.words.length = t.words.length)
    (f : Word → Word → Word) : s.changes t f = (s.words.zipWith f t.words != s.words) := by
  obtain ⟨_, ws⟩ := s
  obtain ⟨_, us⟩ := t
  simp only [changes] at hlen ⊢
  induction ws generalizing us with
  | nil => rfl
  | cons w ws ih =>
    cases us with
    | nil => cases hlen
    | cons u us =>
      rw [List.zip_cons_cons, List.any_cons, ih us (Nat.succ.inj hlen), List.zipWith_cons_cons, bne,
        bne, bne, List.cons_beq_cons, Bool.not_and, BEq.comm]

/-- Well-formed sets of one capacity with the same bits are equal. -/
theorem WellFormed.ext {s t : BitSet} (hs : s.WellFormed) (ht : t.WellFormed)
    (h : s.capacity = t.capacity) (hbit : ∀ i, s.bit i = t.bit i) : s = t := by
  obtain ⟨n, ws⟩ := s
  obtain ⟨m, us⟩ := t
  have hlen : ws.length = us.length := hs.length_words_eq ht h
  obtain rfl : n = m := h
  suffices ws = us by rw [this]
  refine List.ext_getElem hlen fun k hk hk' => ?_
  refine BitVec.eq_of_getLsbD_eq fun b hb => ?_
  have hdiv : (64 * k + b) / 64 = k := by omega
  have hmod : (64 * k + b) % 64 = b := by omega
  have := hbit (64 * k + b)
  simpa [bit, hdiv, hmod, List.getD_eq_getElem?_getD, List.getElem?_eq_getElem hk,
    List.getElem?_eq_getElem hk'] using this

end BitSet

end FlowFacts
