import FlowFacts.Instr.Basic

/-!
# Routines

A routine is a named stream of instructions. How many temps and labels it has is read off the
stream: one more than the largest index that occurs. A label is targeted if some branch of the
stream goes to it, reachable or not.
-/

namespace FlowFacts

/-- A named stream of instructions. -/
structure Routine where
  name : String
  code : List Instr
deriving DecidableEq

/-- What is known about a label. -/
structure LabelInfo where
  /-- Does some branch go to the label? -/
  targeted : Bool
  /-- The block that control reaches through the label. -/
  block : Option Nat
deriving DecidableEq

/-- One more than the largest number of a list. -/
def supremum (slots : List Nat) : Nat := slots.foldl (fun m i => max m (i + 1)) 0

theorem le_foldl_max (slots : List Nat) (m : Nat) :
    m ≤ slots.foldl (fun m i => max m (i + 1)) m := by
  induction slots generalizing m with
  | nil => exact Nat.le_refl m
  | cons j slots ih => exact Nat.le_trans (Nat.le_max_left ..) (ih _)

theorem supremum_le_append (slots slots' : List Nat) :
    supremum slots ≤ supremum (slots ++ slots') := by
  rw [supremum, supremum, List.foldl_append]
  exact le_foldl_max slots' _

theorem lt_supremum {slots : List Nat} {i : Nat} (h : i ∈ slots) : i < supremum slots := by
  obtain ⟨front, back, rfl⟩ := List.append_of_mem h
  rw [supremum, List.foldl_append, List.foldl_cons]
  exact Nat.lt_of_lt_of_le (Nat.lt_of_succ_le (Nat.le_max_right ..)) (le_foldl_max back _)

namespace Routine

/-- The number of temps, which bounds the slots of all temps that occur. -/
def tempCount (r : Routine) : Nat :=
  supremum (r.code.flatMap fun i => i.temps.map Temp.slot)

/-- The labels that branches go to, in stream order. -/
def targets (r : Routine) : List Label := r.code.filterMap Instr.target?

/-- The number of labels, which bounds the slots of all labels that are placed or branched to. -/
def labelCount (r : Routine) : Nat :=
  supremum ((r.code.filterMap Instr.placed? ++ r.targets).map Label.slot)

/-- What is known about each label before there are blocks. -/
def labels (r : Routine) : List LabelInfo :=
  let targets := r.targets
  (List.range r.labelCount).map fun i => ⟨targets.contains (.ofSlot i), none⟩

end Routine

end FlowFacts
