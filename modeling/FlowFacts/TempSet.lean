import FlowFacts.BitSet.Lemmas
import FlowFacts.Names

/-!
# Sets of temps

`TempSet n` is a set of temps whose slots are below `n`, stored as a bit set of capacity `n`.
Temps with a slot at or beyond `n` are never members, and adding or removing one changes nothing.

Membership is the view of a set: each operation has one lemma that says what it does to membership,
and two sets with the same members are equal (`TempSet.ext`).
-/

namespace FlowFacts

/-- A set of temps with slots below `n`. Every bit that is set is the slot of a temp. -/
structure TempSet (n : Nat) where
  bits : BitSet
  capacity_eq : bits.capacity = n
  wellFormed : bits.WellFormed
  lt_slots : ∀ i, bits.bit i = true → i < UInt32.size
deriving DecidableEq

namespace TempSet

variable {n : Nat}

/-- The capacity of the set. -/
def capacity (_ : TempSet n) : Nat := n

def empty (n : Nat) : TempSet n :=
  ⟨.empty n, rfl, BitSet.wellFormed_empty n, by simp⟩

def contains (s : TempSet n) (t : Temp) : Bool := s.bits.contains t.slot

instance : Membership Temp (TempSet n) := ⟨fun s t => s.contains t = true⟩

instance (t : Temp) (s : TempSet n) : Decidable (t ∈ s) :=
  inferInstanceAs (Decidable (s.contains t = true))

theorem mem_iff_bit {s : TempSet n} {t : Temp} : t ∈ s ↔ s.bits.bit t.slot = true := by
  show s.bits.contains t.slot = true ↔ _
  simp only [BitSet.contains, Bool.and_eq_true, decide_eq_true_eq]
  exact ⟨fun h => h.2, fun h => ⟨s.wellFormed.lt_capacity _ h, h⟩⟩

theorem slot_lt_of_mem {s : TempSet n} {t : Temp} (h : t ∈ s) : t.slot < n :=
  s.capacity_eq ▸ s.wellFormed.lt_capacity _ (mem_iff_bit.mp h)

def isEmpty (s : TempSet n) : Bool := s.bits.isEmpty

/-- The number of members. -/
def size (s : TempSet n) : Nat := s.bits.count

/-- The members in ascending order. -/
def toList (s : TempSet n) : List Temp := s.bits.toList.map Temp.ofSlot

def insert (s : TempSet n) (t : Temp) : TempSet n where
  bits := s.bits.insert t.slot
  capacity_eq := by rw [BitSet.capacity_insert, s.capacity_eq]
  wellFormed := s.wellFormed.insert t.slot
  lt_slots i hi := by
    rw [BitSet.bit_insert s.wellFormed] at hi
    simp only [Bool.or_eq_true, Bool.and_eq_true, decide_eq_true_eq] at hi
    rcases hi with h | ⟨-, rfl⟩
    · exact s.lt_slots i h
    · exact t.slot_lt

def erase (s : TempSet n) (t : Temp) : TempSet n where
  bits := s.bits.erase t.slot
  capacity_eq := by rw [BitSet.capacity_erase, s.capacity_eq]
  wellFormed := s.wellFormed.erase t.slot
  lt_slots i hi := by
    rw [BitSet.bit_erase s.wellFormed, Bool.and_eq_true] at hi
    exact s.lt_slots i hi.1

def union (s t : TempSet n) : TempSet n where
  bits := s.bits.union t.bits
  capacity_eq := s.capacity_eq
  wellFormed := s.wellFormed.union t.wellFormed (by rw [s.capacity_eq, t.capacity_eq])
  lt_slots i hi := by
    rw [BitSet.bit_union s.wellFormed t.wellFormed (by rw [s.capacity_eq, t.capacity_eq]),
      Bool.or_eq_true] at hi
    exact hi.elim (s.lt_slots i) (t.lt_slots i)

def diff (s t : TempSet n) : TempSet n where
  bits := s.bits.diff t.bits
  capacity_eq := s.capacity_eq
  wellFormed := s.wellFormed.diff t.wellFormed (by rw [s.capacity_eq, t.capacity_eq])
  lt_slots i hi := by
    rw [BitSet.bit_diff s.wellFormed t.wellFormed (by rw [s.capacity_eq, t.capacity_eq]),
      Bool.and_eq_true] at hi
    exact s.lt_slots i hi.1

/-- Adds every temp of a list. -/
def insertAll (s : TempSet n) (ts : List Temp) : TempSet n := ts.foldl insert s

/-- Does `t` have the capacity of `s` and all its members? -/
def subset {m : Nat} (s : TempSet n) (t : TempSet m) : Bool := s.bits.subset t.bits

/-- Do the sets have the same capacity and members? -/
def same {m : Nat} (s : TempSet n) (t : TempSet m) : Bool := s.bits == t.bits

/-- The members between brackets, each followed by a blank. -/
def text (s : TempSet n) : String :=
  "[ " ++ String.join (s.toList.map fun t => t.text ++ " ") ++ "]"

/-- The members between braces. -/
def braced (s : TempSet n) : String :=
  "\x7b" ++ ", ".intercalate (s.toList.map Temp.text) ++ "\x7d"

/-! ### Checked operations -/

/-- Adds a temp and reports whether it is new. A temp beyond the capacity is not added. -/
def insert? (s : TempSet n) (t : Temp) : Bool × TempSet n :=
  (t.slot < n && !s.contains t, s.insert t)

/-- Removes a temp and reports whether it was there. -/
def erase? (s : TempSet n) (t : Temp) : Bool × TempSet n :=
  (s.contains t, s.erase t)

/-- Adds the members of a set of the same capacity and reports whether the set grew. -/
def union? {m : Nat} (s : TempSet n) (t : TempSet m) : Except SetFault (Bool × TempSet n) :=
  if h : m = n then .ok (s.bits.changes t.bits (· ||| ·), s.union (h ▸ t))
  else .error (.capacityMismatch n m)

/-- Removes the members of a set of the same capacity and reports whether the set shrank. -/
def diff? {m : Nat} (s : TempSet n) (t : TempSet m) : Except SetFault (Bool × TempSet n) :=
  if h : m = n then .ok (s.bits.changes t.bits fun a b => a &&& ~~~b, s.diff (h ▸ t))
  else .error (.capacityMismatch n m)

/-! ### Membership -/

@[simp] theorem not_mem_empty (t : Temp) : t ∉ empty n := by
  simp [mem_iff_bit, empty]

@[simp] theorem mem_insert {s : TempSet n} {t u : Temp} :
    u ∈ s.insert t ↔ u ∈ s ∨ t.slot < n ∧ u = t := by
  simp [mem_iff_bit, insert, BitSet.bit_insert s.wellFormed, s.capacity_eq, Temp.slot_inj,
    @eq_comm _ t u]

@[simp] theorem mem_erase {s : TempSet n} {t u : Temp} : u ∈ s.erase t ↔ u ∈ s ∧ u ≠ t := by
  simp only [mem_iff_bit, erase, BitSet.bit_erase s.wellFormed, Bool.and_eq_true,
    Bool.not_eq_true', Bool.and_eq_false_imp, decide_eq_true_eq, decide_eq_false_iff_not,
    Temp.slot_inj, s.capacity_eq, ne_eq]
  constructor
  · rintro ⟨h, hne⟩
    refine ⟨h, fun e => hne ?_ e.symm⟩
    exact e ▸ slot_lt_of_mem (mem_iff_bit.mpr h)
  · rintro ⟨h, hne⟩
    exact ⟨h, fun _ e => hne e.symm⟩

@[simp] theorem mem_union {s t : TempSet n} {u : Temp} : u ∈ s.union t ↔ u ∈ s ∨ u ∈ t := by
  simp [mem_iff_bit, union, BitSet.bit_union s.wellFormed t.wellFormed, s.capacity_eq,
    t.capacity_eq]

@[simp] theorem mem_diff {s t : TempSet n} {u : Temp} : u ∈ s.diff t ↔ u ∈ s ∧ u ∉ t := by
  simp [mem_iff_bit, diff, BitSet.bit_diff s.wellFormed t.wellFormed, s.capacity_eq, t.capacity_eq]

@[simp] theorem mem_insertAll {s : TempSet n} {ts : List Temp} {u : Temp} :
    u ∈ s.insertAll ts ↔ u ∈ s ∨ u ∈ ts ∧ u.slot < n := by
  induction ts generalizing s with
  | nil => simp [insertAll]
  | cons t ts ih =>
    have hcons : s.insertAll (t :: ts) = (s.insert t).insertAll ts := rfl
    rw [hcons, ih, mem_insert, List.mem_cons]
    constructor
    · rintro ((h | ⟨h, rfl⟩) | h)
      · exact .inl h
      · exact .inr ⟨.inl rfl, h⟩
      · exact .inr ⟨.inr h.1, h.2⟩
    · rintro (h | ⟨rfl | h, hlt⟩)
      · exact .inl (.inl h)
      · exact .inl (.inr ⟨hlt, rfl⟩)
      · exact .inr ⟨h, hlt⟩

theorem ext {s t : TempSet n} (h : ∀ u, u ∈ s ↔ u ∈ t) : s = t := by
  have hbits : s.bits = t.bits := by
    refine s.wellFormed.ext t.wellFormed (by rw [s.capacity_eq, t.capacity_eq]) fun i => ?_
    rw [Bool.eq_iff_iff]
    by_cases hi : i < UInt32.size
    · have := h (Temp.ofSlot i)
      rwa [mem_iff_bit, mem_iff_bit, Temp.slot_ofSlot hi] at this
    · exact ⟨fun hs => absurd (s.lt_slots i hs) hi, fun ht => absurd (t.lt_slots i ht) hi⟩
  cases s
  cases t
  cases hbits
  rfl

end TempSet

end FlowFacts
