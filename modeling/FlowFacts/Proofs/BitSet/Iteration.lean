import Mathlib.Algebra.Ring.Nat
import Mathlib.Data.List.Sort
import FlowFacts.Proofs.BitSet.Refinement

/-!
# Walks over bit sets

A walk lists the members of a set. Each call of `next` clears the lowest bit of the current word, or
goes on to a later word if there is no bit left. `Ahead` says what a walk has still to meet. A call
that answers with a number answers with the least of these and leaves the others; one that answers
with nothing leaves nothing, now and at every later call. So a whole walk meets exactly the members,
in ascending order, and their number is the number of bits that are set in the words.

## Main results

* `Word.getLsbD_and_pred` — `w &&& (w - 1)` clears the lowest bit of a word and no other
* `BitSet.ahead_of_next_some`, `BitSet.not_ahead_of_next_none` — what a call does to what is ahead
* `BitSet.mem_walk`, `BitSet.pairwise_walk`, `BitSet.calls_eq` — what a whole walk does
* `BitSet.length_toList` — the walk is as long as the count of bits says
* `walks_exact` — sets made by edits are walked through exactly
-/

namespace FlowFacts

/-! ### Words -/

namespace Word

variable {w : Word}

theorem ctz_lt (h : w ≠ 0#64) : w.ctz.toNat < 64 := by
  simpa [BitVec.lt_def] using BitVec.ctz_lt_iff_ne_zero.mpr h

/-- Of the bits up to the lowest one that is set, this one is the only one. -/
theorem toNat_mod_two_pow (h : w ≠ 0#64) :
    w.toNat % 2 ^ (w.ctz.toNat + 1) = 2 ^ w.ctz.toNat := by
  refine Nat.eq_of_testBit_eq fun j => ?_
  rw [Nat.testBit_mod_two_pow, Nat.testBit_two_pow, BitVec.testBit_toNat]
  rcases Nat.lt_trichotomy j w.ctz.toNat with hlt | heq | hgt
  · simp [BitVec.getLsbD_false_of_lt_ctz hlt, Nat.ne_of_gt hlt]
  · simp [heq, BitVec.getLsbD_true_ctz_of_ne_zero h]
  · have hge : ¬j < w.ctz.toNat + 1 := by omega
    simp [hge, Nat.ne_of_lt hgt]

/-- Subtracting one turns the lowest bit that is set and the clear ones below it, so that only the
bits above it are left in common. -/
theorem getLsbD_and_pred (h : w ≠ 0#64) (j : Nat) :
    (w &&& (w - 1#64)).getLsbD j = (w.getLsbD j && decide (j ≠ w.ctz.toNat)) := by
  obtain ⟨k, hk⟩ : ∃ k, k = w.ctz.toNat := ⟨_, rfl⟩
  obtain ⟨q, hq⟩ : ∃ q, q = w.toNat / 2 ^ (k + 1) := ⟨_, rfl⟩
  -- The bits above `k` make up `q`, and subtracting one leaves them alone.
  have hpos : 0 < 2 ^ k := Nat.two_pow_pos k
  have hlt : 2 ^ k < 2 ^ (k + 1) := Nat.pow_lt_pow_right (by decide) (by omega)
  have hw : w.toNat = 2 ^ (k + 1) * q + 2 ^ k := by
    have hmod := toNat_mod_two_pow h
    rw [← hk] at hmod
    rw [hq, ← hmod, Nat.div_add_mod]
  have hpred : (w - 1#64).toNat = 2 ^ (k + 1) * q + (2 ^ k - 1) := by
    have hle : 1#64 ≤ w := by
      show 1 ≤ w.toNat
      omega
    rw [BitVec.toNat_sub_of_le hle, hw]
    show 2 ^ (k + 1) * q + 2 ^ k - 1 = _
    omega
  rw [← hk, BitVec.getLsbD_and, ← BitVec.testBit_toNat, ← BitVec.testBit_toNat, hpred, hw,
    Nat.testBit_two_pow_mul_add _ hlt, Nat.testBit_two_pow_mul_add _ (by omega)]
  by_cases hj : j < k + 1
  · rw [if_pos hj, if_pos hj, Nat.testBit_two_pow, Nat.testBit_two_pow_sub_one]
    by_cases hjk : j = k
    · simp [hjk]
    · simp [Ne.symm hjk]
  · have hjk : j ≠ k := by omega
    simp [hj, hjk]

/-- The population count goes over the bits one by one. -/
theorem toNat_cpop (w : Word) : w.cpop.toNat = (List.range 64).countP w.getLsbD := by
  have hrec : ∀ k, w.cpopNatRec k 0 = (List.range k).countP w.getLsbD := by
    intro k
    induction k with
    | zero => rfl
    | succ k ih =>
      rw [BitVec.cpopNatRec_succ, BitVec.cpopNatRec_add, ih, List.range_succ, List.countP_append,
        List.countP_singleton]
      cases w.getLsbD k <;> rfl
  rw [BitVec.toNat_cpop, hrec]

end Word

namespace BitSet

variable {s : BitSet} {c c' : Cursor} {i : Nat}

/-! ### Calls -/

/-- A walk that stands at `c` has still to meet `i`. -/
def Ahead (s : BitSet) (c : Cursor) (i : Nat) : Prop :=
  c.index = i / 64 ∧ c.rest.getLsbD (i % 64) = true ∨ c.index < i / 64 ∧ s.bit i = true

theorem bit_of_getElem? {w : Word} (h : s.words[i / 64]? = some w) :
    s.bit i = w.getLsbD (i % 64) := by
  rw [bit, List.getD_eq_getElem?_getD, h, Option.getD_some]

theorem ahead_start_iff : s.Ahead s.start i ↔ s.bit i = true := by
  rcases Nat.eq_zero_or_pos (i / 64) with hzero | hpos
  · have hhead : s.start.rest = s.words.getD (i / 64) 0#64 := by
      rw [hzero, List.getD_eq_getElem?_getD, ← List.head?_eq_getElem?, ← List.headD_eq_head?_getD]
      rfl
    rw [Ahead, hhead, hzero]
    simp [start, bit, hzero]
  · simp [Ahead, start, Nat.ne_of_lt hpos, hpos]

/-- A walk that goes on from a word without bits has the same numbers ahead. -/
theorem ahead_next_word_iff {w : Word} (hrest : c.rest = 0#64)
    (hw : s.words[c.index + 1]? = some w) :
    s.Ahead ⟨c.index + 1, w⟩ i ↔ s.Ahead c i := by
  have hnot : ¬(c.index = i / 64 ∧ c.rest.getLsbD (i % 64) = true) := by simp [hrest]
  rw [Ahead, Ahead, or_iff_right hnot]
  constructor
  · rintro (⟨hindex, hbit⟩ | ⟨hlt, hbit⟩)
    · have hindex : c.index + 1 = i / 64 := hindex
      rw [hindex] at hw
      exact ⟨by omega, by rw [bit_of_getElem? hw, hbit]⟩
    · exact ⟨Nat.lt_of_succ_lt hlt, hbit⟩
  · rintro ⟨hlt, hbit⟩
    rcases Nat.eq_or_lt_of_le (Nat.succ_le_of_lt hlt) with heq | hgt
    · rw [← Nat.succ_eq_add_one, heq] at hw
      exact .inl ⟨heq, by rw [← bit_of_getElem? hw, hbit]⟩
    · exact .inr ⟨hgt, hbit⟩

/-- Nothing is ahead of a walk that stands behind the last word, or has no bit of it left. -/
theorem not_ahead_of_none (hrest : c.rest = 0#64) (hw : s.words[c.index + 1]? = none) (i : Nat) :
    ¬s.Ahead c i := by
  rintro (⟨-, hbit⟩ | ⟨hlt, hbit⟩)
  · rw [hrest] at hbit
    simp at hbit
  · have hlen : s.words.length ≤ i / 64 :=
      Nat.le_trans (List.getElem?_eq_none_iff.mp hw) (Nat.succ_le_of_lt hlt)
    rw [bit, List.getD_eq_getElem?_getD, List.getElem?_eq_none hlen] at hbit
    simp at hbit

/-- Clearing the lowest bit of a word takes one number out of those that are ahead. -/
theorem ahead_iff_cleared (hrest : c.rest ≠ 0#64) {j : Nat} :
    s.Ahead c j ↔ j = 64 * c.index + c.rest.ctz.toNat ∨
      s.Ahead ⟨c.index, c.rest &&& (c.rest - 1#64)⟩ j := by
  have hctz := Word.ctz_lt hrest
  simp only [Ahead, Word.getLsbD_and_pred hrest, Bool.and_eq_true, decide_eq_true_eq]
  constructor
  · rintro (⟨hindex, hbit⟩ | ⟨hlt, hbit⟩)
    · by_cases hj : j % 64 = c.rest.ctz.toNat
      · exact .inl (by omega)
      · exact .inr (.inl ⟨hindex, hbit, hj⟩)
    · exact .inr (.inr ⟨hlt, hbit⟩)
  · rintro (rfl | ⟨hindex, hbit, -⟩ | ⟨hlt, hbit⟩)
    · have hdiv : (64 * c.index + c.rest.ctz.toNat) / 64 = c.index := by omega
      have hmod : (64 * c.index + c.rest.ctz.toNat) % 64 = c.rest.ctz.toNat := by omega
      rw [hdiv, hmod]
      exact .inl ⟨rfl, BitVec.getLsbD_true_ctz_of_ne_zero hrest⟩
    · exact .inl ⟨hindex, hbit⟩
    · exact .inr ⟨hlt, hbit⟩

/-- What is ahead once the lowest bit is cleared lies behind it. -/
theorem lt_of_ahead_cleared (hrest : c.rest ≠ 0#64) {j : Nat}
    (h : s.Ahead ⟨c.index, c.rest &&& (c.rest - 1#64)⟩ j) :
    64 * c.index + c.rest.ctz.toNat < j := by
  have hctz := Word.ctz_lt hrest
  simp only [Ahead, Word.getLsbD_and_pred hrest, Bool.and_eq_true, decide_eq_true_eq] at h
  rcases h with ⟨hindex, hbit, hne⟩ | ⟨hlt, -⟩
  · have hge : ¬j % 64 < c.rest.ctz.toNat := fun hlt => by
      rw [BitVec.getLsbD_false_of_lt_ctz hlt] at hbit
      cases hbit
    omega
  · omega

/-- A call without an answer leaves nothing to meet, now or later. -/
theorem not_ahead_of_next_none (h : s.next c = (none, c')) (i : Nat) :
    ¬s.Ahead c i ∧ ¬s.Ahead c' i := by
  fun_induction next s c with
  | case1 c hrest w hw ih => exact ⟨(ahead_next_word_iff hrest hw).not.mp (ih h).1, (ih h).2⟩
  | case2 c hrest hw =>
    cases h
    have hlen := List.getElem?_eq_none_iff.mp hw
    have hw' : s.words[c.index + 1 + 1]? = none := List.getElem?_eq_none (Nat.le_succ_of_le hlen)
    exact ⟨not_ahead_of_none hrest hw i,
      not_ahead_of_none (c := ⟨c.index + 1, c.rest⟩) hrest hw' i⟩
  | case3 c hrest => cases h

/-- A call answers with the least number that is ahead, and leaves the others ahead. -/
theorem ahead_of_next_some (h : s.next c = (some i, c')) (j : Nat) :
    (s.Ahead c j ↔ j = i ∨ s.Ahead c' j) ∧ (s.Ahead c' j → i < j) := by
  fun_induction next s c with
  | case1 c hrest w hw ih => exact ⟨(ahead_next_word_iff hrest hw).symm.trans (ih h).1, (ih h).2⟩
  | case2 c hrest hw => cases h
  | case3 c hrest =>
    cases h
    exact ⟨ahead_iff_cleared hrest, lt_of_ahead_cleared hrest⟩

/-! ### Whole walks -/

theorem mem_walk : i ∈ s.walk c ↔ s.Ahead c i := by
  fun_induction walk s c with
  | case1 c j c' hnext ih => rw [List.mem_cons, ih, (ahead_of_next_some hnext i).1]
  | case2 c c' hnext => simp [(not_ahead_of_next_none hnext i).1]

theorem pairwise_walk (s : BitSet) (c : Cursor) : (s.walk c).Pairwise (· < ·) := by
  fun_induction walk s c with
  | case1 c j c' hnext ih =>
    exact List.pairwise_cons.mpr ⟨fun k hk => (ahead_of_next_some hnext k).2 (mem_walk.mp hk), ih⟩
  | case2 c c' hnext => exact .nil

theorem walk_of_some (h : s.next c = (some i, c')) : s.walk c = i :: s.walk c' := by
  rw [walk, h]

theorem walk_of_none (h : s.next c = (none, c')) : s.walk c = [] ∧ s.walk c' = [] := by
  constructor <;> refine List.eq_nil_iff_forall_not_mem.mpr fun i hi => ?_
  · exact (not_ahead_of_next_none h i).1 (mem_walk.mp hi)
  · exact (not_ahead_of_next_none h i).2 (mem_walk.mp hi)

/-- Calls answer with what the walk meets, one by one, and then with nothing. -/
theorem calls_eq (s : BitSet) (c : Cursor) (k : Nat) :
    s.calls c k = (List.range k).map fun i => (s.walk c)[i]? := by
  induction k generalizing c with
  | zero => rfl
  | succ k ih =>
    rw [calls, ih, List.range_succ_eq_map, List.map_cons, List.map_map]
    cases hnext : s.next c with
    | mk answer c' =>
      cases answer with
      | none =>
        obtain ⟨hc, hc'⟩ := walk_of_none hnext
        simp [hc, hc', Function.comp_def]
      | some i => simp [walk_of_some hnext, Function.comp_def]

/-! ### Members -/

theorem mem_toList_iff_bit : i ∈ s.toList ↔ s.bit i = true := mem_walk.trans ahead_start_iff

theorem WellFormed.mem_toList (hs : s.WellFormed) : i ∈ s.toList ↔ s.contains i = true := by
  rw [mem_toList_iff_bit, contains, Bool.and_eq_true, decide_eq_true_eq]
  exact (and_iff_right_of_imp (hs.lt_capacity i)).symm

/-- The words are counted one by one, and so are the positions in them. -/
theorem count_eq_countP (s : BitSet) :
    s.count = (List.range (64 * s.words.length)).countP s.bit := by
  obtain ⟨n, ws⟩ := s
  induction ws using List.reverseRecOn with
  | nil => rfl
  | append_singleton ws w ih =>
    have hinit : (List.range (64 * ws.length)).countP (bit ⟨n, ws ++ [w]⟩) = count ⟨n, ws⟩ := by
      rw [ih]
      refine List.countP_congr fun i hi => ?_
      have hlt : i / 64 < ws.length := by have := List.mem_range.mp hi; omega
      simp [bit, List.getD_eq_getElem?_getD, List.getElem?_append_left hlt]
    -- The last word holds the positions from `64 * ws.length` on.
    have hlast : (List.range 64).countP (bit ⟨n, ws ++ [w]⟩ ∘ (64 * ws.length + ·)) =
        w.cpop.toNat := by
      rw [Word.toNat_cpop]
      refine List.countP_congr fun j hj => ?_
      have hlt := List.mem_range.mp hj
      have hdiv : (64 * ws.length + j) / 64 = ws.length := by omega
      have hmod : (64 * ws.length + j) % 64 = j := by omega
      rw [Function.comp_apply, bit_of_getElem? (w := w) (by simp [hdiv]), hmod]
    rw [List.length_append, List.length_singleton, Nat.mul_succ, List.range_add,
      List.countP_append, List.countP_map, hinit, hlast]
    simp [count]

theorem toList_eq_filter (s : BitSet) :
    s.toList = (List.range (64 * s.words.length)).filter s.bit := by
  refine (pairwise_walk s s.start).eq_of_mem_iff (List.pairwise_lt_range.filter _) fun i => ?_
  rw [List.mem_filter, List.mem_range]
  refine mem_toList_iff_bit.trans (and_iff_right_of_imp fun hbit => ?_).symm
  -- A bit that is set is a bit of some word.
  by_contra hge
  rw [bit, List.getD_eq_getElem?_getD, List.getElem?_eq_none (by omega)] at hbit
  simp at hbit

theorem length_toList (s : BitSet) : s.toList.length = s.count := by
  rw [count_eq_countP, toList_eq_filter, List.countP_eq_length_filter]

end BitSet

/-! ### Sets of temps -/

namespace TempSet

variable {n : Nat}

/-- Every number that is stored is the slot of a temp, so no number is cut off. -/
theorem map_slot_toList (s : TempSet n) : s.toList.map Temp.slot = s.bits.toList := by
  have hslot : ∀ i ∈ s.bits.toList, (Temp.ofSlot i).slot = i := fun i hi =>
    Temp.slot_ofSlot (s.lt_slots i (BitSet.mem_toList_iff_bit.mp hi))
  rw [toList, List.map_map]
  exact (List.map_congr_left hslot).trans (List.map_id _)

theorem mem_toList {s : TempSet n} {t : Temp} : t ∈ s.toList ↔ t ∈ s := by
  have hinj : Function.Injective Temp.slot := fun _ _ h => Temp.slot_inj.mp h
  rw [← List.mem_map_of_injective hinj, map_slot_toList, BitSet.mem_toList_iff_bit, mem_iff_bit]

theorem pairwise_toList (s : TempSet n) : s.toList.Pairwise fun t u => t.slot < u.slot := by
  rw [← List.pairwise_map, map_slot_toList]
  exact BitSet.pairwise_walk s.bits s.bits.start

theorem length_toList (s : TempSet n) : s.toList.length = s.size := by
  rw [toList, List.length_map, BitSet.length_toList, size]

end TempSet

/-- **Walks are exact.** Whatever edits make a bit set, the calls of a walk answer with its list of
members from first to last and with nothing from then on. The list is strictly ascending, holds just
the numbers that the set contains, and is as long as its count. The same holds of the temps of a set
of temps, and the number of each is the slot of its temp. -/
theorem walks_exact :
    (∀ {n : Nat} (e : Edits (Fin n)), ∃ changed s, (BitSet.editor n).run e = .ok (changed, s) ∧
      (∀ k, s.calls s.start k = (List.range k).map fun i => s.toList[i]?) ∧
      s.toList.Pairwise (· < ·) ∧ (∀ i, i ∈ s.toList ↔ s.contains i = true) ∧
      s.toList.length = s.count) ∧
    ∀ (n : Nat) (e : Edits Temp), ∃ changed s, (TempSet.editor n).run e = .ok (changed, s) ∧
      s.toList.map Temp.slot = s.bits.toList ∧
      (s.toList.Pairwise fun t u => t.slot < u.slot) ∧
      (∀ t, t ∈ s.toList ↔ s.contains t = true) ∧ s.toList.length = s.size := by
  constructor
  · intro n e
    obtain ⟨changed, s, hrun, hs, -⟩ := (BitSet.faithful_editor n).run e
    exact ⟨changed, s, hrun, s.calls_eq s.start, s.pairwise_walk s.start,
      fun i => hs.wellFormed.mem_toList, s.length_toList⟩
  · intro n e
    obtain ⟨changed, s, hrun, -, -⟩ := (TempSet.faithful_editor n).run e
    exact ⟨changed, s, hrun, s.map_slot_toList, s.pairwise_toList, fun t => TempSet.mem_toList,
      s.length_toList⟩

end FlowFacts
