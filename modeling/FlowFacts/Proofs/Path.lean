import FlowFacts.Path
import Mathlib.Data.List.Basic

/-!
# Paths, one point at a time

What stands at a point decides what is read there and where control goes from there. An operation
reads its sources and passes on what it does not write; the terminator reads its operand and passes
everything on to the successors. So a path unfolds point by point, along a body and then into the
blocks that follow.

## Main results

* `reaches_of_op_iff`, `reaches_of_end_iff` — the uses that a value reaches
* `liveAt_of_op_iff`, `liveAt_of_end_iff` — liveness
-/

namespace FlowFacts

variable {n : Nat} {blocks : List (Block n)} {t : Temp} {b i : Nat} {block : Block n} {o : Op}

/-- Induction backwards through a body, from its end. -/
theorem Block.backward_induction (block : Block n) {P : Nat → Prop}
    (hend : ∀ {i}, block.ops[i]? = none → P i)
    (hop : ∀ {i o}, block.ops[i]? = some o → P (i + 1) → P i) (i : Nat) : P i := by
  induction hd : block.ops.length - i generalizing i with
  | zero => exact hend (List.getElem?_eq_none (by omega))
  | succ d ih => exact hop (List.getElem?_eq_getElem (by omega)) (ih (i + 1) (by omega))

/-- Induction backwards from the end of a body to a line of it. -/
theorem Block.backward_induction_le (block : Block n) {P : Nat → Prop}
    (hend : P block.ops.length) (hop : ∀ {i o}, block.ops[i]? = some o → P (i + 1) → P i)
    (hi : i ≤ block.ops.length) : P i := by
  revert hi
  refine block.backward_induction (P := fun i => i ≤ block.ops.length → P i) ?_ ?_ i
  · intro i hnone hi
    obtain rfl : i = block.ops.length :=
      Nat.le_antisymm hi (List.getElem?_eq_none_iff.mp hnone)
    exact hend
  · intro i o ho ih _
    exact hop ho (ih (List.getElem?_eq_some_iff.mp ho).1)

/-! ### What stands at a point -/

theorem use_of_op (hb : blocks[b]? = some block) (ho : block.ops[i]? = some o) :
    Point.use blocks ⟨b, i⟩ = ⟨b, .line (i + 1)⟩ := by
  simp only [Point.use, hb, Option.bind_some, ho]

theorem use_of_end (hb : blocks[b]? = some block) :
    Point.use blocks ⟨b, block.ops.length⟩ = ⟨b, .blockEnd⟩ := by
  simp only [Point.use, hb, Option.bind_some, List.getElem?_length]

theorem reads_of_op_iff (hb : blocks[b]? = some block) (ho : block.ops[i]? = some o) :
    Reads blocks t ⟨b, i⟩ ↔ t ∈ o.sources := by
  refine ⟨fun h => ?_, .line hb ho⟩
  cases h with
  | line hb' ho' ht =>
    obtain rfl := Option.some.inj (hb'.symm.trans hb)
    obtain rfl := Option.some.inj (ho'.symm.trans ho)
    exact ht
  | terminator hb' _ =>
    obtain rfl := Option.some.inj (hb'.symm.trans hb)
    rw [List.getElem?_length] at ho
    cases ho

theorem reads_of_end_iff (hb : blocks[b]? = some block) :
    Reads blocks t ⟨b, block.ops.length⟩ ↔ block.operand = some t := by
  refine ⟨fun h => ?_, .terminator hb⟩
  generalize hi : block.ops.length = i at h
  cases h with
  | line hb' ho _ =>
    obtain rfl := Option.some.inj (hb'.symm.trans hb)
    rw [List.getElem?_eq_none (Nat.le_of_eq hi)] at ho
    cases ho
  | terminator hb' ht =>
    obtain rfl := Option.some.inj (hb'.symm.trans hb)
    exact ht

theorem passes_of_op_iff {q : Point} (hb : blocks[b]? = some block)
    (ho : block.ops[i]? = some o) :
    Passes blocks t ⟨b, i⟩ q ↔ o.dest ≠ some t ∧ q = ⟨b, i + 1⟩ := by
  constructor
  · intro h
    cases h with
    | line hb' ho' ht =>
      obtain rfl := Option.some.inj (hb'.symm.trans hb)
      obtain rfl := Option.some.inj (ho'.symm.trans ho)
      exact ⟨ht, rfl⟩
    | edge hb' _ =>
      obtain rfl := Option.some.inj (hb'.symm.trans hb)
      rw [List.getElem?_length] at ho
      cases ho
  · rintro ⟨ht, rfl⟩
    exact .line hb ho ht

theorem passes_of_end_iff {q : Point} (hb : blocks[b]? = some block) :
    Passes blocks t ⟨b, block.ops.length⟩ q ↔ ∃ s ∈ block.successors, .start s = q := by
  constructor
  · intro h
    generalize hi : block.ops.length = i at h
    cases h with
    | line hb' ho _ =>
      obtain rfl := Option.some.inj (hb'.symm.trans hb)
      rw [List.getElem?_eq_none (Nat.le_of_eq hi)] at ho
      cases ho
    | edge hb' hs =>
      obtain rfl := Option.some.inj (hb'.symm.trans hb)
      exact ⟨_, hs, rfl⟩
  · rintro ⟨s, hs, rfl⟩
    exact .edge hb hs

/-! ### What a value reaches -/

theorem reaches_iff {p : Point} {u : Use} :
    Reaches blocks t p u ↔
      Reads blocks t p ∧ p.use blocks = u ∨ ∃ q, Passes blocks t p q ∧ Reaches blocks t q u := by
  constructor
  · rintro ⟨r, hc, hr, hu⟩
    cases hc with
    | refl _ => exact .inl ⟨hr, hu⟩
    | step hp hq => exact .inr ⟨_, hp, r, hq, hr, hu⟩
  · rintro (⟨hr, hu⟩ | ⟨q, hp, r, hq, hr, hu⟩)
    · exact ⟨p, .refl p, hr, hu⟩
    · exact ⟨r, .step hp hq, hr, hu⟩

theorem reaches_of_op_iff {u : Use} (hb : blocks[b]? = some block)
    (ho : block.ops[i]? = some o) :
    Reaches blocks t ⟨b, i⟩ u ↔ t ∈ o.sources ∧ ⟨b, .line (i + 1)⟩ = u ∨
      o.dest ≠ some t ∧ Reaches blocks t ⟨b, i + 1⟩ u := by
  rw [reaches_iff, reads_of_op_iff hb ho, use_of_op hb ho]
  simp only [passes_of_op_iff hb ho, and_assoc, exists_and_left, exists_eq_left]

theorem reaches_of_end_iff {u : Use} (hb : blocks[b]? = some block) :
    Reaches blocks t ⟨b, block.ops.length⟩ u ↔ block.operand = some t ∧ ⟨b, .blockEnd⟩ = u ∨
      ∃ s ∈ block.successors, Reaches blocks t (.start s) u := by
  rw [reaches_iff, reads_of_end_iff hb, use_of_end hb]
  simp only [passes_of_end_iff hb, exists_exists_and_eq_and]

theorem liveAt_of_op_iff (hb : blocks[b]? = some block) (ho : block.ops[i]? = some o) :
    LiveAt blocks t ⟨b, i⟩ ↔ t ∈ o.sources ∨ o.dest ≠ some t ∧ LiveAt blocks t ⟨b, i + 1⟩ := by
  rw [liveAt_iff, reads_of_op_iff hb ho]
  simp only [passes_of_op_iff hb ho, and_assoc, exists_and_left, exists_eq_left]

theorem liveAt_of_end_iff (hb : blocks[b]? = some block) :
    LiveAt blocks t ⟨b, block.ops.length⟩ ↔
      block.operand = some t ∨ ∃ s ∈ block.successors, LiveAt blocks t (.start s) := by
  rw [liveAt_iff, reads_of_end_iff hb]
  simp only [passes_of_end_iff hb, exists_exists_and_eq_and]

end FlowFacts
