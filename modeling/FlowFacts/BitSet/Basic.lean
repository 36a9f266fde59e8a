/-!
# Bit sets

A set of numbers below a fixed capacity, kept as a list of 64-bit words: number `i` is a member if
bit `i % 64` of word `i / 64` is set.

`insert`, `erase`, `union` and `diff` are total; the two of them that need an index in range leave
the set alone otherwise, and the two that need sets of one capacity are meant for those. The checked
forms `insert?`, `erase?`, `union?` and `diff?` refuse such arguments and report whether the set
changed.

The members are listed by a walk over the words (`next`). It takes the lowest bit of the current
word as long as there is one, and then goes on to the next word.
-/

namespace FlowFacts

/-- A machine word, the unit in which a bit set is stored. -/
abbrev Word := BitVec 64

/-- Clearing the lowest set bit makes a word smaller. -/
theorem Word.and_pred_lt {w : Word} (h : ¬w = 0#64) : (w &&& (w - 1#64)).toNat < w.toNat := by
  have hw : w.toNat ≠ 0 := fun e => h (BitVec.eq_of_toNat_eq (by simpa using e))
  have hle : (w &&& (w - 1#64)).toNat ≤ (w - 1#64).toNat := by
    rw [BitVec.toNat_and]
    exact Nat.and_le_right
  have hsub : (w - 1#64).toNat = w.toNat - 1 := by
    rw [BitVec.toNat_sub_of_le] <;> simp [BitVec.le_def]
    omega
  omega

/-- Why a checked operation on sets refuses its arguments. -/
inductive SetFault where
  | outOfRange
  | capacityMismatch (left right : Nat)
deriving DecidableEq

/-- The fault in words. -/
def SetFault.message : SetFault → String
  | outOfRange => "index out of bounds"
  | capacityMismatch l r =>
    "assertion `left == right` failed: bit sets must have same length\n  left: " ++ toString l ++
      "\n right: " ++ toString r

/-- A set of numbers below `capacity`. -/
structure BitSet where
  capacity : Nat
  words : List Word
deriving DecidableEq

namespace BitSet

/-- The empty set. -/
def empty (capacity : Nat) : BitSet :=
  ⟨capacity, List.replicate ((capacity + 63) / 64) 0#64⟩

/-- The bit at a position, clear where there is no word. -/
def bit (s : BitSet) (i : Nat) : Bool := (s.words.getD (i / 64) 0#64).getLsbD (i % 64)

def contains (s : BitSet) (i : Nat) : Bool := i < s.capacity && s.bit i

def isEmpty (s : BitSet) : Bool := s.words.all (· == 0#64)

/-- The number of members. -/
def count (s : BitSet) : Nat := s.words.foldl (fun k w => k + w.cpop.toNat) 0

def insert (s : BitSet) (i : Nat) : BitSet :=
  if i < s.capacity then
    { s with words := s.words.modify (i / 64) (· ||| BitVec.twoPow 64 (i % 64)) }
  else s

def erase (s : BitSet) (i : Nat) : BitSet :=
  if i < s.capacity then
    { s with words := s.words.modify (i / 64) (· &&& ~~~BitVec.twoPow 64 (i % 64)) }
  else s

def union (s t : BitSet) : BitSet :=
  { s with words := s.words.zipWith (· ||| ·) t.words }

def diff (s t : BitSet) : BitSet :=
  { s with words := s.words.zipWith (fun a b => a &&& ~~~b) t.words }

/-- Does `t` have the capacity of `s` and all its members? -/
def subset (s t : BitSet) : Bool :=
  s.capacity == t.capacity && (s.words.zipWith (fun a b => a &&& ~~~b) t.words).all (· == 0#64)

/-! ### Walks -/

/-- Where a walk over a set stands: at a word, with those of its bits that are still to be met. -/
structure Cursor where
  index : Nat
  rest : Word
deriving DecidableEq

/-- A walk that has met nothing yet. -/
def start (s : BitSet) : Cursor := ⟨0, s.words.headD 0#64⟩

/-- The next member that a walk meets, if there is one, and where the walk stands then. Members of a
word are met by clearing its lowest bit. -/
def next (s : BitSet) (c : Cursor) : Option Nat × Cursor :=
  if c.rest = 0#64 then
    match h : s.words[c.index + 1]? with
    | some w => s.next ⟨c.index + 1, w⟩
    | none => (none, { c with index := c.index + 1 })
  else
    (some (64 * c.index + c.rest.ctz.toNat), { c with rest := c.rest &&& (c.rest - 1#64) })
termination_by s.words.length - c.index
decreasing_by
  obtain ⟨hlt, -⟩ := List.getElem?_eq_some_iff.mp h
  omega

/-- A walk that meets a member has gone on to a later word, or has less of its word left. -/
theorem progress_of_next {s : BitSet} {c c' : Cursor} {i : Nat} (h : s.next c = (some i, c')) :
    c.index < c'.index ∧ c'.index < s.words.length ∨
      c'.index = c.index ∧ c'.rest.toNat < c.rest.toNat := by
  fun_induction next s c with
  | case1 c hrest w hw ih =>
    obtain ⟨hlt, -⟩ := List.getElem?_eq_some_iff.mp hw
    have hstep := ih h
    simp only at hstep
    omega
  | case2 c hrest hw => cases h
  | case3 c hrest =>
    cases h
    exact .inr ⟨rfl, Word.and_pred_lt hrest⟩

/-- The members that a walk meets from where it stands. -/
def walk (s : BitSet) (c : Cursor) : List Nat :=
  match _hnext : s.next c with
  | (some i, c') => i :: s.walk c'
  | (none, _) => []
termination_by (s.words.length - c.index, c.rest.toNat)
decreasing_by
  rcases progress_of_next ‹_› with ⟨hlt, hlen⟩ | ⟨heq, hlt⟩
  · exact .left _ _ (by omega)
  · exact heq ▸ .right _ hlt

/-- What the first calls of `next` answer. -/
def calls (s : BitSet) (c : Cursor) : Nat → List (Option Nat)
  | 0 => []
  | k + 1 => (s.next c).1 :: s.calls (s.next c).2 k

/-- The members in ascending order. -/
def toList (s : BitSet) : List Nat := s.walk s.start

/-! ### Checked operations -/

/-- Adds a number below the capacity, and reports whether it is new. -/
def insert? (s : BitSet) (i : Nat) : Except SetFault (Bool × BitSet) :=
  if i < s.capacity then .ok (!s.bit i, s.insert i) else .error .outOfRange

/-- Removes a number below the capacity, and reports whether it was there. -/
def erase? (s : BitSet) (i : Nat) : Except SetFault (Bool × BitSet) :=
  if i < s.capacity then .ok (s.bit i, s.erase i) else .error .outOfRange

/-- Does any word of `s` change when it is combined with the one of `t` at its place? -/
def changes (s t : BitSet) (f : Word → Word → Word) : Bool :=
  (s.words.zip t.words).any fun p => p.1 != f p.1 p.2

/-- Adds the members of a set of the same capacity, and reports whether any word changed. -/
def union? (s t : BitSet) : Except SetFault (Bool × BitSet) :=
  if s.capacity = t.capacity then .ok (s.changes t (· ||| ·), s.union t)
  else .error (.capacityMismatch s.capacity t.capacity)

/-- Removes the members of a set of the same capacity, and reports whether any word changed. -/
def diff? (s t : BitSet) : Except SetFault (Bool × BitSet) :=
  if s.capacity = t.capacity then .ok (s.changes t fun a b => a &&& ~~~b, s.diff t)
  else .error (.capacityMismatch s.capacity t.capacity)

/-- The members between braces. -/
def text (s : BitSet) : String :=
  "\x7b" ++ ", ".intercalate (s.toList.map toString) ++ "\x7d"

end BitSet

end FlowFacts
