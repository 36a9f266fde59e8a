import Mathlib.Order.Lattice
import FlowFacts.Proofs.BitSet.Refinement
import FlowFacts.Proofs.Liveness.Least

/-!
# Liveness is a lawful problem

The solver asks nothing of a problem, but that it ends, and ends with the least solution, rests on
laws: the meet makes the states a semilattice, and transfer is monotone. For liveness they hold of
the sets as they are stored. Inclusion is decided word by word (`TempSet.subset`), the meet is a
union of words, and equality is equality of capacities and words.

States of which the meet is the supremum, with a transfer that distributes over it, have all of the
laws (`Problem.lawful_of_sup`); that transfer is monotone follows from its distributing. What is
left for liveness is that sets of temps form such a semilattice and that the transfer of a block,
which takes out one set and adds another, distributes over unions.

## Main definitions

* `Problem.Lawful` — the laws, for an order that is given by a test
* `transfer?` — the transfer of a block by the checked operations

## Main results

* `TempSet.subset_iff_le` — the test for subsets decides inclusion
* `Summary.transfer_sup` — the transfer of a block distributes over unions
* `lawful_liveVariables` — the laws hold for liveness
* `liveness_lawful` — so they do for every list of analysed blocks, and no checked operation refuses
-/

namespace FlowFacts

variable {n m : Nat} {α : Type}

/-! ### Laws -/

/-- The test `le` is a partial order, the meet is the least upper bound for it, and the transfer of
every block, whatever its number, keeps the order and the meets. -/
structure Problem.Lawful (p : Problem n α) (le : α → α → Bool) : Prop where
  le_refl : ∀ x, le x x = true
  le_antisymm : ∀ {x y}, le x y = true → le y x = true → x = y
  le_trans : ∀ {x y z}, le x y = true → le y z = true → le x z = true
  meet_self : ∀ x, p.meet x x = x
  meet_comm : ∀ x y, p.meet x y = p.meet y x
  meet_assoc : ∀ x y z, p.meet x (p.meet y z) = p.meet (p.meet x y) z
  le_meet_left : ∀ x y, le x (p.meet x y) = true
  le_meet_right : ∀ x y, le y (p.meet x y) = true
  meet_le : ∀ {x y z}, le x z = true → le y z = true → le (p.meet x y) z = true
  transfer_le_transfer : ∀ (b : Nat) (block : Block n) {x y}, le x y = true →
    le (p.transfer b block x) (p.transfer b block y) = true
  transfer_meet : ∀ (b : Nat) (block : Block n) (x y : α),
    p.transfer b block (p.meet x y) = p.meet (p.transfer b block x) (p.transfer b block y)

/-- A problem is lawful if its meet is a supremum over which transfer distributes. -/
theorem Problem.lawful_of_sup [SemilatticeSup α] {p : Problem n α} {le : α → α → Bool}
    (hle : ∀ x y, le x y = true ↔ x ≤ y) (hmeet : ∀ x y, p.meet x y = x ⊔ y)
    (htransfer : ∀ b block x y,
      p.transfer b block (x ⊔ y) = p.transfer b block x ⊔ p.transfer b block y) :
    p.Lawful le := by
  constructor <;> simp only [hle, hmeet]
  · exact fun x => le_rfl
  · exact le_antisymm
  · exact le_trans
  · exact sup_idem
  · exact sup_comm
  · exact fun x y z => (sup_assoc x y z).symm
  · exact fun x y => le_sup_left
  · exact fun x y => le_sup_right
  · exact sup_le
  · intro b block x y hxy
    rw [← sup_eq_right, ← htransfer, sup_eq_right.mpr hxy]
  · exact htransfer

/-! ### Sets of temps -/

namespace TempSet

instance : SemilatticeSup (TempSet m) where
  sup := union
  le_sup_left _ _ _ ht := mem_union.mpr (.inl ht)
  le_sup_right _ _ _ ht := mem_union.mpr (.inr ht)
  sup_le _ _ _ hs ht t hmem := (mem_union.mp hmem).elim (hs t) (ht t)

theorem mem_sup {s s' : TempSet m} {t : Temp} : t ∈ s ⊔ s' ↔ t ∈ s ∨ t ∈ s' := mem_union

/-- The test on words compares members. Every bit that is set belongs to a temp. -/
theorem subset_iff_le {s s' : TempSet m} : s.subset s' = true ↔ s ≤ s' := by
  have hcap : s.bits.capacity = s'.bits.capacity := s.capacity_eq.trans s'.capacity_eq.symm
  rw [subset, s.wellFormed.subset_iff s'.wellFormed, and_iff_right hcap]
  constructor
  · exact fun h t ht => mem_iff_bit.mpr (h t.slot (mem_iff_bit.mp ht))
  · intro h i hi
    have hslot := Temp.slot_ofSlot (s.lt_slots i hi)
    rw [← hslot] at hi ⊢
    exact mem_iff_bit.mp (h _ (mem_iff_bit.mpr hi))

theorem same_iff_eq {s s' : TempSet m} : s.same s' = true ↔ s = s' := by
  cases s
  cases s'
  simp [same]

theorem union?_eq (s s' : TempSet m) :
    s.union? s' = .ok (s.bits.changes s'.bits (· ||| ·), s.union s') :=
  dif_pos rfl

theorem diff?_eq (s s' : TempSet m) :
    s.diff? s' = .ok (s.bits.changes s'.bits fun a b => a &&& ~~~b, s.diff s') :=
  dif_pos rfl

end TempSet

/-! ### Transfer -/

theorem Summary.transfer_sup (s : Summary m) (x y : TempSet m) :
    s.transfer (x ⊔ y) = s.transfer x ⊔ s.transfer y := by
  refine TempSet.ext fun t => ?_
  simp only [TempSet.mem_sup, mem_transfer]
  tauto

/-- Liveness is lawful whatever the summaries are. -/
theorem lawful_liveVariables (summaries : List (Summary m)) :
    (liveVariables n summaries).Lawful TempSet.subset := by
  refine Problem.lawful_of_sup (fun _ _ => TempSet.subset_iff_le) (fun _ _ => rfl) ?_
  intro b block x y
  simp only [liveVariables]
  cases summaries[b]? with
  | none => rfl
  | some s => exact s.transfer_sup x y

/-- The transfer of a block by the checked operations, each of which may refuse its arguments. A
block without a summary passes on what it is given. -/
def transfer? (summaries : List (Summary m)) (b : Nat) (out : TempSet m) :
    Except SetFault (TempSet m) :=
  match summaries[b]? with
  | none => .ok out
  | some s => do
    let kept ← out.diff? s.defs
    let input ← kept.2.union? s.uses
    return input.2

theorem transfer?_eq (summaries : List (Summary m)) (b : Nat) (block : Block n) (out : TempSet m) :
    transfer? summaries b out = .ok ((liveVariables n summaries).transfer b block out) := by
  simp only [transfer?, liveVariables]
  cases summaries[b]? with
  | none => rfl
  | some s =>
    simp only [TempSet.diff?_eq, TempSet.union?_eq]
    rfl

/-- **Liveness is lawful.** Whatever blocks are analysed and however many temps are kept, inclusion
of sets is a partial order, the meet is idempotent, commutative, associative and the least upper
bound, and the transfer of every block, analysed or not, is monotone and distributes over meets.
Equality of sets is what comparing the stored words decides, and the checked operations that compute
meet and transfer refuse nothing. -/
theorem liveness_lawful (analysed : List (Block n)) :
    (liveVariables n (analysed.map (Block.summary m))).Lawful TempSet.subset ∧
    (∀ x y : TempSet m, x.same y = true ↔ x = y) ∧
    (∀ x y : TempSet m, ∃ changed, x.union? y =
      .ok (changed, (liveVariables n (analysed.map (Block.summary m))).meet x y)) ∧
    ∀ (b : Nat) (block : Block n) (out : TempSet m),
      transfer? (analysed.map (Block.summary m)) b out =
        .ok ((liveVariables n (analysed.map (Block.summary m))).transfer b block out) :=
  ⟨lawful_liveVariables _, fun _ _ => TempSet.same_iff_eq, fun x y => ⟨_, x.union?_eq y⟩,
    transfer?_eq _⟩

end FlowFacts
