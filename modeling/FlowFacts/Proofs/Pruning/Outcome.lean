import FlowFacts.Proofs.Pruning.Redirects
import Mathlib.Order.Bounds.Defs

/-!
# When pruning fails

Threading the jumps of a block fails if one of them leads into a circle of redirects, and that is
the only way in which pruning can fail. It then fails at the first such block.

The other failures that pruning provides for do not occur. A chase from a block that stays never
comes to a removed block that is no redirect, and it ends at a block that stays, which has a new
number.

## Main definitions

* `GoesAstray` — a block that stays has a jump into a circle of redirects

## Main results

* `prune_eq_error_iff` — pruning fails at the first block that goes astray
-/

namespace FlowFacts

variable {n : Nat} {blocks : List (Block n)}

/-! ### Replacing targets -/

namespace Terminator

variable {ε : Type} {f : Nat → Except ε Nat} {x y : Terminator}

theorem exists_of_retarget_eq_error {e : ε} (h : x.retarget f = .error e) :
    ∃ s ∈ x.successors, f s = .error e := by
  cases x with
  | jump t => exact ⟨t, by simp [successors], map_eq_error_iff.mp h⟩
  | branch test c t u =>
    rcases seq_eq_error_iff.mp h with h | ⟨_, -, h⟩
    · exact ⟨t, by simp [successors], map_eq_error_iff.mp h⟩
    · exact ⟨u, by simp [successors], h⟩
  | ret v => cases h

/-- The new targets are those that replace the old ones. -/
theorem mem_successors_of_retarget (h : x.retarget f = .ok y) {t : Nat} :
    t ∈ y.successors ↔ ∃ s ∈ x.successors, f s = .ok t := by
  cases x with
  | jump s =>
    obtain ⟨s', hs, rfl⟩ := map_eq_ok_iff.mp h
    simp [successors, hs, eq_comm]
  | branch test c s u =>
    obtain ⟨_, u', hx, hu, rfl⟩ := seq_eq_ok_iff.mp h
    obtain ⟨s', hs, rfl⟩ := map_eq_ok_iff.mp hx
    simp [successors, hs, hu, eq_comm]
  | ret v =>
    cases h
    simp [successors]

/-- Every target was replaced. -/
theorem exists_of_retarget_eq_ok (h : x.retarget f = .ok y) {s : Nat} (hs : s ∈ x.successors) :
    ∃ t, f s = .ok t := by
  cases x with
  | jump t =>
    obtain ⟨t', ht, -⟩ := map_eq_ok_iff.mp h
    exact ⟨t', List.mem_singleton.mp hs ▸ ht⟩
  | branch test c t u =>
    obtain ⟨_, u', hx, hu, -⟩ := seq_eq_ok_iff.mp h
    obtain ⟨t', ht, -⟩ := map_eq_ok_iff.mp hx
    rcases List.mem_pair.mp hs with rfl | rfl
    · exact ⟨t', ht⟩
    · exact ⟨u', hu⟩
  | ret v => cases hs

@[simp] theorem mem_successors_merge {s : Nat} : s ∈ x.merge.successors ↔ s ∈ x.successors := by
  cases x with
  | branch test c t u =>
    by_cases h : t = u
    · simp [merge, successors, h]
    · simp [merge, h]
  | _ => rfl

end Terminator

/-! ### Threading one block -/

/-- Block `b` stays and has a jump into a circle of redirects. -/
def GoesAstray (blocks : List (Block n)) (b : Nat) : Prop :=
  ∃ block, (marked blocks)[b]? = some block ∧ block.cancelled = false ∧
    ∃ s ∈ block.successors, LeadsAstray blocks s

section

variable {i : Nat} {b b' : Block n} (hblocks : TargetsExist blocks)
include hblocks

/-- Targets of a block that stays may run. -/
theorem mayRun_successor (hi : (marked blocks)[i]? = some b) (hb : b.cancelled = false) {s : Nat}
    (hs : s ∈ b.successors) : MayRun blocks s ∧ s < blocks.length := by
  obtain ⟨-, hrun, -⟩ := stays_iff.mp ⟨b, hi, hb⟩
  rw [getElem?_marked] at hi
  obtain ⟨b₀, hb₀, rfl⟩ := Option.map_eq_some_iff.mp hi
  have hlt := hblocks b₀ (List.mem_of_getElem? hb₀) s hs
  exact ⟨hrun.successor hb₀ hs hlt, hlt⟩

/-- What a chase from a target of a block that stays comes to. -/
theorem chase_successor (hi : (marked blocks)[i]? = some b) (hb : b.cancelled = false) {s : Nat}
    (hs : s ∈ b.successors) :
    (∃ k c, Leads blocks k s c ∧ Stays blocks c ∧
      chase (marked blocks) blocks.length s = .ok c) ∨
    LeadsAstray blocks s ∧ chase (marked blocks) blocks.length s = .error .circle := by
  obtain ⟨hrun, hlt⟩ := mayRun_successor hblocks hi hb hs
  rcases exists_leads_or_leadsAstray blocks s with ⟨k, c, hlead⟩ | hastray
  · exact .inl ⟨k, c, hlead, hlead.stays hblocks hrun hlt,
      chase_of_leads hblocks hlead hrun hlt hlead.le_length⟩
  · exact .inr ⟨hastray, chase_of_leadsAstray hblocks hastray hrun _⟩

theorem goesAstray_of_thread_eq_error (hi : (marked blocks)[i]? = some b) {e : Error}
    (h : b.thread (marked blocks) i = .error e) :
    GoesAstray blocks i ∧ e = .unterminatedChase i blocks.length := by
  rw [Block.thread, length_marked] at h
  split at h
  · cases h
  · rename_i hb
    rw [Bool.not_eq_true] at hb
    rcases bind_eq_error_iff.mp h with h | ⟨_, -, h⟩
    · obtain ⟨s, hs, h⟩ := Terminator.exists_of_retarget_eq_error h
      obtain ⟨stray, hchase, rfl⟩ := mapError_eq_error_iff.mp h
      rcases chase_successor hblocks hi hb hs with ⟨k, c, -, -, hok⟩ | ⟨hastray, hcircle⟩
      · cases hok.symm.trans hchase
      · cases hcircle.symm.trans hchase
        exact ⟨⟨b, hi, hb, s, hs, hastray⟩, rfl⟩
    · cases h

theorem not_goesAstray_of_thread_eq_ok (hi : (marked blocks)[i]? = some b)
    (h : b.thread (marked blocks) i = .ok b') : ¬GoesAstray blocks i := by
  rintro ⟨_, hi', hb, s, hs, hastray⟩
  obtain rfl := Option.some.inj (hi'.symm.trans hi)
  obtain ⟨x, hx, -⟩ := (Block.thread_eq_ok h).2.2 hb
  obtain ⟨c, hc⟩ := Terminator.exists_of_retarget_eq_ok hx hs
  rw [mapError_eq_ok_iff, length_marked, chase_of_leadsAstray hblocks hastray
    (mayRun_successor hblocks hi hb hs).1] at hc
  cases hc

/-- All targets of a threaded block are blocks that stay. -/
theorem stays_of_thread (hi : (marked blocks)[i]? = some b) (hb : b.cancelled = false)
    (h : b.thread (marked blocks) i = .ok b') {c : Nat} (hc : c ∈ b'.successors) :
    Stays blocks c := by
  obtain ⟨x, hx, hmerge⟩ := (Block.thread_eq_ok h).2.2 hb
  rw [Block.successors, hmerge, Terminator.mem_successors_merge] at hc
  obtain ⟨s, hs, hchase⟩ := (Terminator.mem_successors_of_retarget hx).mp hc
  rw [mapError_eq_ok_iff, length_marked] at hchase
  rcases chase_successor hblocks hi hb hs with ⟨k, c', -, hstays, hok⟩ | ⟨-, hcircle⟩
  · cases hok.symm.trans hchase
    exact hstays
  · cases hcircle.symm.trans hchase

end

/-! ### Pruning -/

theorem Stays.exists_newNumber? {b : Nat} (h : Stays blocks b) :
    ∃ k, newNumber? (marked blocks) b = some k := by
  obtain ⟨block, hb, hstays⟩ := h
  rw [newNumber?, hb]
  simp [hstays]

/-- Numbering anew does not fail. -/
theorem exists_renumbered {threaded : List (Block n)} (hblocks : TargetsExist blocks)
    (hthread : ((marked blocks).zipIdx.mapM fun p => p.1.thread (marked blocks) p.2) =
      .ok threaded) :
    ∃ survivors, ((threaded.zipIdx.filter fun p => !p.1.cancelled).mapM fun p =>
      p.1.renumber threaded p.2) = .ok survivors := by
  refine exists_mapM_eq_ok fun ⟨b₁, i⟩ hkept => ?_
  obtain ⟨hmem, hc₁⟩ := List.mem_filter.mp hkept
  obtain ⟨b, hi, hb₁⟩ := exists_of_thread hthread (List.mk_mem_zipIdx_iff_getElem?.mp hmem)
  have hb : b.cancelled = false := by
    rw [← (Block.thread_eq_ok hb₁).2.1]
    simpa using hc₁
  cases hrenumber : b₁.renumber threaded i with
  | ok b₂ => exact ⟨b₂, rfl⟩
  | error e =>
    rcases bind_eq_error_iff.mp hrenumber with h | ⟨_, -, h⟩
    · obtain ⟨c, hc, h⟩ := Terminator.exists_of_retarget_eq_error h
      obtain ⟨k, hk⟩ := (stays_of_thread hblocks hi hb hb₁ hc).exists_newNumber?
      rw [← newNumber?_congr (map_cancelled_of_thread hthread)] at hk
      rw [hk] at h
      cases h
    · cases h

theorem goesAstray_of_prune_eq_error (hblocks : TargetsExist blocks) {e : Error}
    (h : prune blocks = .error e) :
    ∃ b, IsLeast {b | GoesAstray blocks b} b ∧ e = .unterminatedChase b blocks.length := by
  rcases bind_eq_error_iff.mp h with h | ⟨threaded, hthread, h⟩
  · obtain ⟨i, b, hi, herror, hfront⟩ := exists_of_mapM_zipIdx_eq_error h
    obtain ⟨hastray, rfl⟩ := goesAstray_of_thread_eq_error hblocks hi herror
    refine ⟨i, ⟨hastray, fun j hj => ?_⟩, rfl⟩
    by_contra hlt
    obtain ⟨bj, hbj, -⟩ := id hj
    obtain ⟨b', hb'⟩ := hfront (Nat.not_le.mp hlt) hbj
    exact not_goesAstray_of_thread_eq_ok hblocks hbj hb' hj
  · obtain ⟨survivors, hrenumber⟩ := exists_renumbered hblocks hthread
    rcases bind_eq_error_iff.mp h with h | ⟨_, -, h⟩
    · cases hrenumber.symm.trans h
    · cases h

theorem not_goesAstray_of_prune_eq_ok (hblocks : TargetsExist blocks) {pruned : Pruned n}
    (h : prune blocks = .ok pruned) (b : Nat) : ¬GoesAstray blocks b := by
  intro hastray
  obtain ⟨block, hb, -⟩ := id hastray
  obtain ⟨threaded, _, hpass, -⟩ := exists_passes h
  have hz : (marked blocks).zipIdx[b]? = some (block, b) := by simp [List.getElem?_zipIdx, hb]
  obtain ⟨b', hb', -⟩ := getElem?_of_mapM hpass.thread hz
  exact not_goesAstray_of_thread_eq_ok hblocks hb hb' hastray

/-- **When pruning fails.** It fails at the first block that goes astray. -/
theorem prune_eq_error_iff (hblocks : TargetsExist blocks) {e : Error} :
    prune blocks = .error e ↔
      ∃ b, IsLeast {b | GoesAstray blocks b} b ∧ e = .unterminatedChase b blocks.length := by
  refine ⟨goesAstray_of_prune_eq_error hblocks, ?_⟩
  rintro ⟨b, hleast, rfl⟩
  cases h : prune blocks with
  | ok pruned => exact absurd hleast.1 (not_goesAstray_of_prune_eq_ok hblocks h b)
  | error e =>
    obtain ⟨b', hleast', rfl⟩ := goesAstray_of_prune_eq_error hblocks h
    rw [hleast.unique hleast']

theorem exists_prune_iff (hblocks : TargetsExist blocks) :
    (∃ pruned, prune blocks = .ok pruned) ↔ ∀ b, ¬GoesAstray blocks b := by
  constructor
  · rintro ⟨pruned, h⟩
    exact not_goesAstray_of_prune_eq_ok hblocks h
  · intro hno
    cases h : prune blocks with
    | ok pruned => exact ⟨pruned, rfl⟩
    | error e =>
      obtain ⟨b, hleast, -⟩ := goesAstray_of_prune_eq_error hblocks h
      exact absurd hleast.1 (hno b)

end FlowFacts
