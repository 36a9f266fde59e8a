/-!
# Temps and labels

The two kinds of names that occur in a stream of instructions. Both are 32-bit indices. A temp
names a value slot of a routine, a label names a place in its stream.

The position of a temp in a set of temps is its `slot`. Distinct temps have distinct slots, and
every number below `UInt32.size` is the slot of a temp.
-/

namespace FlowFacts

/-- A value slot of a routine. -/
structure Temp where
  index : UInt32
deriving DecidableEq

/-- A place in the stream of a routine. -/
structure Label where
  index : UInt32
deriving DecidableEq

namespace Temp

/-- The position of the temp in a set of temps. -/
def slot (t : Temp) : Nat := t.index.toNat

/-- The temp at a position. -/
def ofSlot (i : Nat) : Temp := ⟨i.toUInt32⟩

/-- The temp as it appears in text. -/
def text (t : Temp) : String := "_T" ++ toString t.slot

theorem slot_lt (t : Temp) : t.slot < UInt32.size := t.index.toNat_lt_size

@[simp] theorem ofSlot_slot (t : Temp) : ofSlot t.slot = t := by
  simp [ofSlot, slot]

theorem slot_ofSlot {i : Nat} (h : i < UInt32.size) : (ofSlot i).slot = i := by
  simpa [ofSlot, slot] using h

theorem slot_inj {t u : Temp} : t.slot = u.slot ↔ t = u := by
  constructor
  · intro h
    rw [← ofSlot_slot t, ← ofSlot_slot u, h]
  · intro h
    rw [h]

end Temp

namespace Label

/-- The position of the label in a table of labels. -/
def slot (l : Label) : Nat := l.index.toNat

/-- The label at a position. -/
def ofSlot (i : Nat) : Label := ⟨i.toUInt32⟩

/-- The label as it appears in text. -/
def text (l : Label) : String := "_L" ++ toString l.slot

@[simp] theorem ofSlot_slot (l : Label) : ofSlot l.slot = l := by
  simp [ofSlot, slot]

theorem slot_inj {l m : Label} : l.slot = m.slot ↔ l = m := by
  constructor
  · intro h
    rw [← ofSlot_slot l, ← ofSlot_slot m, h]
  · intro h
    rw [h]

end Label

end FlowFacts
