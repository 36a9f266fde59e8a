import Mathlib.Data.Finset.Option
import Mathlib.Data.Finset.SDiff
import FlowFacts.TempSet

/-!
# Bit sets refine finite sets

A set is made from an empty one by edits: adding or removing an element, and adding or removing the
elements of another set that was made in the same way. `Edits` is the tree of such edits. It is
carried out twice: by the checked operations of some kind of set (`Editor.run`), and on finite sets
of numbers (`Edits.members`). No edit fails, both results have the same members, and an edit reports
a change just when the finite set changes.

What has to be shown for one kind of set is a lemma for each operation (`Editor.Faithful`). Bit sets
take numbers below the capacity only. Sets of temps take every temp, and one that does not fit goes
nowhere (`TempSet.place`).

## Main definitions

* `Edits`, `Edits.members`, `Edits.before` — how a set was made, and the members it should have
* `Editor`, `Editor.run` — the operations of a kind of set, and what they make
* `BitSet.Refines`, `TempSet.Refines` — a stored set against a finite set

## Main results

* `BitSet.isEmpty_iff_bit`, `BitSet.WellFormed.subset_iff` — what the tests on words say bit by bit
* `Editor.Faithful.run` — edits that are faithful one by one are faithful as a whole
* `BitSet.faithful_editor`, `TempSet.faithful_editor`
* `refines_finset` — stored sets refine finite sets
-/

namespace FlowFacts

/-! ### Edits -/

/-- How a set is made from elements of `ι`. -/
inductive Edits (ι : Type) where
  | new
  | insert (e : Edits ι) (x : ι)
  | erase (e : Edits ι) (x : ι)
  | union (e f : Edits ι)
  | diff (e f : Edits ι)

namespace Edits

variable {ι : Type} (place : ι → Option Nat)

/-- The finite set that the edits make, if `place` says as which number an element is kept. -/
def members : Edits ι → Finset Nat
  | new => ∅
  | insert e x => e.members ∪ (place x).toFinset
  | erase e x => e.members \ (place x).toFinset
  | union e f => e.members ∪ f.members
  | diff e f => e.members \ f.members

/-- The finite set in front of the last edit. -/
def before : Edits ι → Finset Nat
  | new => ∅
  | insert e _ | erase e _ | union e _ | diff e _ => e.members place

end Edits

/-- The operations of a kind of set `σ` with elements of `ι`. Each of them reports whether the set
changed. -/
structure Editor (ι σ : Type) where
  new : σ
  insert : σ → ι → Except SetFault (Bool × σ)
  erase : σ → ι → Except SetFault (Bool × σ)
  union : σ → σ → Except SetFault (Bool × σ)
  diff : σ → σ → Except SetFault (Bool × σ)

/-- The operation succeeds with a set that stands for `S'`, and reports whether this differs from
`S`. -/
def Reports {σ : Type} (R : σ → Finset Nat → Prop) (result : Except SetFault (Bool × σ))
    (S S' : Finset Nat) : Prop :=
  ∃ changed s, result = .ok (changed, s) ∧ R s S' ∧ (changed = true ↔ S' ≠ S)

namespace Editor

variable {ι σ : Type}

/-- Carries out edits. The report is that of the last one. -/
def run (ops : Editor ι σ) : Edits ι → Except SetFault (Bool × σ)
  | .new => .ok (false, ops.new)
  | .insert e x => do ops.insert (← ops.run e).2 x
  | .erase e x => do ops.erase (← ops.run e).2 x
  | .union e f => do ops.union (← ops.run e).2 (← ops.run f).2
  | .diff e f => do ops.diff (← ops.run e).2 (← ops.run f).2

/-- Every operation does to the set what it should do to the finite set that it stands for. -/
structure Faithful (ops : Editor ι σ) (place : ι → Option Nat) (R : σ → Finset Nat → Prop) :
    Prop where
  new : R ops.new ∅
  insert {s S} (hs : R s S) (x : ι) : Reports R (ops.insert s x) S (S ∪ (place x).toFinset)
  erase {s S} (hs : R s S) (x : ι) : Reports R (ops.erase s x) S (S \ (place x).toFinset)
  union {s t S T} (hs : R s S) (ht : R t T) : Reports R (ops.union s t) S (S ∪ T)
  diff {s t S T} (hs : R s S) (ht : R t T) : Reports R (ops.diff s t) S (S \ T)

/-- Edits that are faithful one by one are faithful as a whole. -/
theorem Faithful.run {ops : Editor ι σ} {place : ι → Option Nat} {R : σ → Finset Nat → Prop}
    (h : ops.Faithful place R) (e : Edits ι) :
    Reports R (ops.run e) (e.before place) (e.members place) := by
  induction e with
  | new => exact ⟨false, ops.new, rfl, h.new, by simp [Edits.members, Edits.before]⟩
  | insert e x ih =>
    obtain ⟨c, s, hrun, hs, -⟩ := ih
    rw [Editor.run, hrun]
    exact h.insert hs x
  | erase e x ih =>
    obtain ⟨c, s, hrun, hs, -⟩ := ih
    rw [Editor.run, hrun]
    exact h.erase hs x
  | union e f ihe ihf =>
    obtain ⟨c, s, hrun, hs, -⟩ := ihe
    obtain ⟨d, t, hrun', ht, -⟩ := ihf
    rw [Editor.run, hrun, hrun']
    exact h.union hs ht
  | diff e f ihe ihf =>
    obtain ⟨c, s, hrun, hs, -⟩ := ihe
    obtain ⟨d, t, hrun', ht, -⟩ := ihf
    rw [Editor.run, hrun, hrun']
    exact h.diff hs ht

/-- What the edits made stands for their finite set. -/
theorem Faithful.of_run_eq {ops : Editor ι σ} {place : ι → Option Nat} {R : σ → Finset Nat → Prop}
    (h : ops.Faithful place R) {e : Edits ι} {c : Bool} {s : σ} (hrun : ops.run e = .ok (c, s)) :
    R s (e.members place) := by
  obtain ⟨c', s', hrun', hs, -⟩ := h.run e
  rw [hrun] at hrun'
  cases hrun'
  exact hs

end Editor

/-! ### Bit sets -/

namespace BitSet

variable {s t : BitSet}

/-- All words are zero just when all bits are clear. -/
theorem isEmpty_iff_bit : s.isEmpty = true ↔ ∀ i, s.bit i = false := by
  simp only [isEmpty, List.all_eq_true, beq_iff_eq]
  constructor
  · intro h i
    rw [bit, List.getD_eq_getElem?_getD]
    cases hw : s.words[i / 64]? with
    | none => simp
    | some w => simp [h w (List.mem_of_getElem? hw)]
  · intro h w hw
    obtain ⟨k, hk⟩ := List.getElem?_of_mem hw
    refine BitVec.eq_of_getLsbD_eq fun j hj => ?_
    -- Bit `j` of word `k` is the bit of the number `64 * k + j`.
    have hdiv : (64 * k + j) / 64 = k := by omega
    have hmod : (64 * k + j) % 64 = j := by omega
    have hbit := h (64 * k + j)
    rw [bit, hdiv, hmod, List.getD_eq_getElem?_getD, hk] at hbit
    simpa using hbit

/-- The test for subsets compares capacities, and then looks for a bit that is set in `s` only. -/
theorem WellFormed.subset_iff (hs : s.WellFormed) (ht : t.WellFormed) :
    s.subset t = true ↔
      s.capacity = t.capacity ∧ ∀ i, s.bit i = true → t.bit i = true := by
  have hsubset : s.subset t = (s.capacity == t.capacity && (s.diff t).isEmpty) := rfl
  rw [hsubset, Bool.and_eq_true, beq_iff_eq, isEmpty_iff_bit]
  refine and_congr_right fun hcap => forall_congr' fun i => ?_
  rw [bit_diff hs ht hcap]
  cases s.bit i <;> simp

/-- The set has capacity `n`, its words are just those that are needed, and its members are those of
`S`. -/
structure Refines (n : Nat) (s : BitSet) (S : Finset Nat) : Prop where
  capacity_eq : s.capacity = n
  length_words : s.words.length = (n + 63) / 64
  bit_of_le : ∀ i, n ≤ i → s.bit i = false
  contains_iff : ∀ i, s.contains i = true ↔ i ∈ S
  isEmpty_iff : s.isEmpty = true ↔ S = ∅

/-- A well-formed set refines a finite set if they agree bit by bit. -/
theorem WellFormed.refines {S : Finset Nat} (hs : s.WellFormed)
    (hbit : ∀ i, s.bit i = true ↔ i ∈ S) : s.Refines s.capacity S where
  capacity_eq := rfl
  length_words := hs.length_words
  bit_of_le i hi := by
    by_contra hne
    have hlt := hs.lt_capacity i (by simpa using hne)
    omega
  contains_iff i := by
    rw [contains, Bool.and_eq_true, decide_eq_true_eq, ← hbit i]
    exact and_iff_right_of_imp (hs.lt_capacity i)
  isEmpty_iff := by
    rw [isEmpty_iff_bit, Finset.eq_empty_iff_forall_notMem]
    refine forall_congr' fun i => ?_
    rw [← hbit i, Bool.not_eq_true]

namespace Refines

variable {n m : Nat} {S T : Finset Nat}

theorem wellFormed (h : s.Refines n S) : s.WellFormed where
  length_words := by rw [h.length_words, h.capacity_eq]
  lt_capacity i hi := by
    by_contra hge
    rw [h.bit_of_le i (by rw [h.capacity_eq] at hge; omega)] at hi
    cases hi

theorem bit_iff (h : s.Refines n S) (i : Nat) : s.bit i = true ↔ i ∈ S := by
  rw [← h.contains_iff i, contains, Bool.and_eq_true, decide_eq_true_eq]
  exact (and_iff_right_of_imp (h.wellFormed.lt_capacity i)).symm

theorem subset_iff (hs : s.Refines n S) (ht : t.Refines m T) :
    s.subset t = true ↔ n = m ∧ S ⊆ T := by
  rw [hs.wellFormed.subset_iff ht.wellFormed, hs.capacity_eq, ht.capacity_eq]
  refine and_congr_right fun _ => forall_congr' fun i => ?_
  rw [hs.bit_iff i, ht.bit_iff i]

theorem eq_iff (hs : s.Refines n S) (ht : t.Refines m T) : s = t ↔ n = m ∧ S = T := by
  constructor
  · rintro rfl
    refine ⟨hs.capacity_eq.symm.trans ht.capacity_eq, Finset.ext fun i => ?_⟩
    rw [← hs.bit_iff i, ht.bit_iff i]
  · rintro ⟨rfl, rfl⟩
    refine hs.wellFormed.ext ht.wellFormed (hs.capacity_eq.trans ht.capacity_eq.symm) fun i => ?_
    rw [Bool.eq_iff_iff, hs.bit_iff i, ht.bit_iff i]

/-- Combining the words of two sets changes one of them just when it changes the finite set. -/
theorem changes_iff (hs : s.Refines n S) (ht : t.Refines n T) {f : Word → Word → Word}
    {U : Finset Nat} (hu : Refines n { s with words := s.words.zipWith f t.words } U) :
    s.changes t f = true ↔ U ≠ S := by
  have hlen : s.words.length = t.words.length := hs.length_words.trans ht.length_words.symm
  have heq : s.words.zipWith f t.words = s.words ↔
      { s with words := s.words.zipWith f t.words } = s := by
    cases s
    simp
  rw [changes_eq_bne hlen, bne_iff_ne, ne_eq, heq, hu.eq_iff hs, and_iff_right rfl]

theorem empty (n : Nat) : (BitSet.empty n).Refines n ∅ :=
  (wellFormed_empty n).refines (by simp)

theorem insert (h : s.Refines n S) {i : Nat} (hi : i < n) :
    (s.insert i).Refines n (S ∪ {i}) := by
  have hins := (h.wellFormed.insert i).refines (S := S ∪ {i}) fun j => by
    rw [bit_insert h.wellFormed, h.capacity_eq]
    simp [hi, h.bit_iff j, @eq_comm _ i j, or_comm]
  rwa [capacity_insert, h.capacity_eq] at hins

theorem erase (h : s.Refines n S) {i : Nat} (hi : i < n) :
    (s.erase i).Refines n (S \ {i}) := by
  have hdel := (h.wellFormed.erase i).refines (S := S \ {i}) fun j => by
    rw [bit_erase h.wellFormed, h.capacity_eq]
    simp [hi, h.bit_iff j, @eq_comm _ i j]
  rwa [capacity_erase, h.capacity_eq] at hdel

theorem union (hs : s.Refines n S) (ht : t.Refines n T) : (s.union t).Refines n (S ∪ T) := by
  have hcap : s.capacity = t.capacity := hs.capacity_eq.trans ht.capacity_eq.symm
  have hunion := (hs.wellFormed.union ht.wellFormed hcap).refines (S := S ∪ T) fun i => by
    rw [bit_union hs.wellFormed ht.wellFormed hcap, Bool.or_eq_true, hs.bit_iff i, ht.bit_iff i,
      Finset.mem_union]
  rwa [capacity_union, hs.capacity_eq] at hunion

theorem diff (hs : s.Refines n S) (ht : t.Refines n T) : (s.diff t).Refines n (S \ T) := by
  have hcap : s.capacity = t.capacity := hs.capacity_eq.trans ht.capacity_eq.symm
  have hdiff := (hs.wellFormed.diff ht.wellFormed hcap).refines (S := S \ T) fun i => by
    rw [bit_diff hs.wellFormed ht.wellFormed hcap, Bool.and_eq_true, Bool.not_eq_true',
      hs.bit_iff i, ← Bool.not_eq_true, ht.bit_iff i, Finset.mem_sdiff]
  rwa [capacity_diff, hs.capacity_eq] at hdiff

end Refines

/-- A number below the capacity is kept as itself. -/
def place {n : Nat} (i : Fin n) : Option Nat := some i

/-- The checked operations on bit sets of capacity `n`. -/
def editor (n : Nat) : Editor (Fin n) BitSet where
  new := empty n
  insert s i := s.insert? i
  erase s i := s.erase? i
  union := union?
  diff := diff?

theorem faithful_editor (n : Nat) : (editor n).Faithful place (Refines n) where
  new := .empty n
  insert {s S} hs i := by
    refine ⟨!s.bit i, s.insert i, if_pos (hs.capacity_eq ▸ i.isLt), hs.insert i.isLt, ?_⟩
    rw [Bool.not_eq_true', ← Bool.not_eq_true, hs.bit_iff i]
    simp [place]
  erase {s S} hs i := by
    refine ⟨s.bit i, s.erase i, if_pos (hs.capacity_eq ▸ i.isLt), hs.erase i.isLt, ?_⟩
    rw [hs.bit_iff i]
    simp [place]
  union {s t S T} hs ht :=
    ⟨_, s.union t, if_pos (hs.capacity_eq.trans ht.capacity_eq.symm), hs.union ht,
      hs.changes_iff ht (hs.union ht)⟩
  diff {s t S T} hs ht :=
    ⟨_, s.diff t, if_pos (hs.capacity_eq.trans ht.capacity_eq.symm), hs.diff ht,
      hs.changes_iff ht (hs.diff ht)⟩

end BitSet

/-! ### Sets of temps -/

namespace TempSet

variable {n m : Nat}

/-- The set is kept as a bit set that refines `S`, and answers for temps by their slots. -/
structure Refines (s : TempSet n) (S : Finset Nat) : Prop where
  bits : s.bits.Refines n S
  contains_iff : ∀ t, s.contains t = true ↔ t.slot ∈ S
  isEmpty_iff : s.isEmpty = true ↔ S = ∅

/-- A set of temps inherits what its bits refine. -/
theorem refines_of_bits {s : TempSet n} {S : Finset Nat} (h : s.bits.Refines n S) : s.Refines S :=
  ⟨h, fun t => h.contains_iff t.slot, h.isEmpty_iff⟩

/-- Adding a temp that does not fit changes nothing. -/
theorem insert?_of_le (s : TempSet n) {t : Temp} (h : n ≤ t.slot) : s.insert? t = (false, s) := by
  have hnot : ¬t.slot < n := by omega
  have hsame : s.insert t = s := ext fun u => by simp [hnot]
  simp [insert?, hnot, hsame]

/-- Removing a temp that does not fit changes nothing. -/
theorem erase?_of_le (s : TempSet n) {t : Temp} (h : n ≤ t.slot) : s.erase? t = (false, s) := by
  have hnot : t ∉ s := fun hmem => absurd (slot_lt_of_mem hmem) (by omega)
  have hsame : s.erase t = s := ext fun u => by
    rw [mem_erase]
    exact and_iff_left_of_imp fun hu => fun e => hnot (e ▸ hu)
  rw [erase?, hsame, Bool.eq_false_iff.mpr hnot]

/-- Where a temp is kept, if it fits. -/
def place (n : Nat) (t : Temp) : Option Nat := if t.slot < n then some t.slot else none

/-- The operations on sets of temps of capacity `n`. -/
def editor (n : Nat) : Editor Temp (TempSet n) where
  new := empty n
  insert s t := .ok (s.insert? t)
  erase s t := .ok (s.erase? t)
  union := union?
  diff := diff?

theorem faithful_editor (n : Nat) : (editor n).Faithful (place n) Refines where
  new := refines_of_bits (.empty n)
  insert {s S} hs t := by
    by_cases ht : t.slot < n
    · rw [place, if_pos ht, Option.toFinset_some]
      refine ⟨_, s.insert t, rfl, refines_of_bits (hs.bits.insert ht), ?_⟩
      simp [ht, ← hs.contains_iff t]
    · rw [place, if_neg ht, Option.toFinset_none, Finset.union_empty]
      exact ⟨false, s, congrArg Except.ok (s.insert?_of_le (Nat.le_of_not_lt ht)), hs, by simp⟩
  erase {s S} hs t := by
    by_cases ht : t.slot < n
    · rw [place, if_pos ht, Option.toFinset_some]
      refine ⟨_, s.erase t, rfl, refines_of_bits (hs.bits.erase ht), ?_⟩
      simp [← hs.contains_iff t]
    · rw [place, if_neg ht, Option.toFinset_none, Finset.sdiff_empty]
      exact ⟨false, s, congrArg Except.ok (s.erase?_of_le (Nat.le_of_not_lt ht)), hs, by simp⟩
  union {s t S T} hs ht := by
    have hunion := hs.bits.union ht.bits
    exact ⟨_, s.union t, dif_pos rfl, refines_of_bits hunion, hs.bits.changes_iff ht.bits hunion⟩
  diff {s t S T} hs ht := by
    have hdiff := hs.bits.diff ht.bits
    exact ⟨_, s.diff t, dif_pos rfl, refines_of_bits hdiff, hs.bits.changes_iff ht.bits hdiff⟩

end TempSet

/-- **Stored sets refine finite sets.** Whatever edits make a bit set, none of them fails, the words
and the members are those of the finite set that the same edits make, and each edit reports a change
just when the finite set changes. Tests for subsets and equality of two such sets compare capacities
and members. The same holds of sets of temps, where adding and removing a temp that does not fit
changes nothing and reports so. -/
theorem refines_finset :
    (∀ {n : Nat} (e : Edits (Fin n)),
      Reports (BitSet.Refines n) ((BitSet.editor n).run e)
        (e.before BitSet.place) (e.members BitSet.place)) ∧
    (∀ {n m : Nat} {e : Edits (Fin n)} {f : Edits (Fin m)} {c d : Bool} {s t : BitSet},
      (BitSet.editor n).run e = .ok (c, s) → (BitSet.editor m).run f = .ok (d, t) →
        (s.subset t = true ↔ n = m ∧ e.members BitSet.place ⊆ f.members BitSet.place) ∧
        ((s == t) = true ↔ n = m ∧ e.members BitSet.place = f.members BitSet.place)) ∧
    (∀ (n : Nat) (e : Edits Temp),
      Reports TempSet.Refines ((TempSet.editor n).run e)
        (e.before (TempSet.place n)) (e.members (TempSet.place n))) ∧
    (∀ {n m : Nat} {e f : Edits Temp} {c d : Bool} {s : TempSet n} {t : TempSet m},
      (TempSet.editor n).run e = .ok (c, s) → (TempSet.editor m).run f = .ok (d, t) →
        (s.subset t = true ↔
          n = m ∧ e.members (TempSet.place n) ⊆ f.members (TempSet.place m)) ∧
        (s.same t = true ↔
          n = m ∧ e.members (TempSet.place n) = f.members (TempSet.place m))) ∧
    ∀ {n : Nat} (s : TempSet n) {t : Temp}, n ≤ t.slot →
      s.insert? t = (false, s) ∧ s.erase? t = (false, s) := by
  refine ⟨fun {n} e => (BitSet.faithful_editor n).run e, fun {n m e f c d s t} hs ht => ?_,
    fun n e => (TempSet.faithful_editor n).run e, fun {n m e f c d s t} hs ht => ?_,
    fun {n} s {t} h => ⟨s.insert?_of_le h, s.erase?_of_le h⟩⟩
  · have hs' := (BitSet.faithful_editor n).of_run_eq hs
    have ht' := (BitSet.faithful_editor m).of_run_eq ht
    exact ⟨hs'.subset_iff ht', beq_iff_eq.trans (hs'.eq_iff ht')⟩
  · have hs' := ((TempSet.faithful_editor n).of_run_eq hs).bits
    have ht' := ((TempSet.faithful_editor m).of_run_eq ht).bits
    exact ⟨hs'.subset_iff ht', beq_iff_eq.trans (hs'.eq_iff ht')⟩

/-- A set with two elements. -/
def Edits.pair {ι : Type} (x y : ι) : Edits ι := (Edits.new.insert x).insert y

/-- With capacity 65 the last number has a word of its own, and temp 65 does not fit. -/
theorem refines_finset_boundary :
    (∃ s t, (BitSet.editor 65).run ((Edits.pair 3 64).erase 3) = .ok (true, s) ∧
      (BitSet.editor 65).run (Edits.pair 3 64) = .ok (true, t) ∧
      s.subset t = true ∧ (s == t) = false) ∧
    (∃ s t, (TempSet.editor 65).run (Edits.pair ⟨3⟩ ⟨65⟩) = .ok (false, s) ∧
      (TempSet.editor 65).run (Edits.new.insert ⟨3⟩) = .ok (true, t) ∧ s.same t = true) ∧
    (TempSet.empty 65).insert? ⟨65⟩ = (false, .empty 65) := by
  obtain ⟨-, hbits, -, htemps, hnot⟩ := refines_finset
  refine ⟨?_, ?_, (hnot _ (by decide)).1⟩
  · have hs : (BitSet.editor 65).run ((Edits.pair 3 64).erase 3) =
        .ok (true, ⟨65, [0, 1]⟩) := by rfl
    have ht : (BitSet.editor 65).run (Edits.pair 3 64) = .ok (true, ⟨65, [8, 1]⟩) := by rfl
    obtain ⟨hsubset, heq⟩ := hbits hs ht
    refine ⟨_, _, hs, ht, hsubset.mpr ⟨rfl, by decide⟩, Bool.eq_false_iff.mpr fun h => ?_⟩
    exact absurd (heq.mp h).2 (by decide)
  · have hs : (TempSet.editor 65).run (Edits.pair ⟨3⟩ ⟨65⟩) =
        .ok (false, (TempSet.empty 65).insert ⟨3⟩) := by rfl
    have ht : (TempSet.editor 65).run (Edits.new.insert ⟨3⟩) =
        .ok (true, (TempSet.empty 65).insert ⟨3⟩) := by rfl
    exact ⟨_, _, hs, ht, (htemps hs ht).2.mpr ⟨rfl, by decide⟩⟩

end FlowFacts
