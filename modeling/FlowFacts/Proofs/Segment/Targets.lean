import FlowFacts.Proofs.Segment.Execution
import Mathlib.Data.List.Basic

/-!
# Where branches go

A routine can be cut into blocks just if every label that it branches to is placed somewhere. If it
cannot, the branch that is reported is the first one to a label that is not placed, whether or not
control can come there: segments are made into blocks in the order of the stream, and each of them
holds at most one branch.

If it can, the targets of the blocks are blocks. Behind the last segment there may be none, but then
control does not run on into it: it returns, or an exit is appended for it.

## Main results

* `Routine.provisional_eq_error_iff` — when cutting fails
* `Routine.targetsExist_provisional` — all targets exist
-/

namespace FlowFacts

/-- The target of the first branch to a label that is not placed. -/
def Routine.unplaced? (r : Routine) : Option Label :=
  r.targets.find? fun l => decide (Instr.mark l ∉ r.code)

/-! ### Segments -/

namespace Segment

variable {segments : List Segment} {s : Segment} {k : Nat} {l : Label}

/-- The label that a segment branches to. -/
def target? (s : Segment) : Option Label := s.exit.bind Transfer.target?

theorem filterMap_target?_code (s : Segment) :
    s.code.filterMap Instr.target? = s.target?.toList := by
  have hmarks : (s.marks.map Instr.mark).filterMap Instr.target? = [] := by
    simp [Instr.target?]
  have hbody : (s.body.map Instr.op).filterMap Instr.target? = [] := by
    simp [Instr.target?]
  rw [code, work, List.filterMap_append, List.filterMap_append, hmarks, hbody, target?]
  cases s.exit with
  | none => rfl
  | some x => cases hx : x.target? <;> simp [Instr.target?, hx]

theorem lt_length_of_place? (h : place? segments l = some k) : k < segments.length := by
  obtain ⟨front, s, back, rfl, rfl, -⟩ := place?_eq_some_iff.mp h
  simp

/-- A label has a place if it marks some segment. -/
theorem exists_place?_iff : (∃ k, place? segments l = some k) ↔ ∃ s ∈ segments, l ∈ s.marks := by
  constructor
  · rintro ⟨k, hk⟩
    obtain ⟨front, s, back, rfl, -, hs, -⟩ := place?_eq_some_iff.mp hk
    exact ⟨s, by simp, hs⟩
  · rintro ⟨s, hs, hl⟩
    obtain ⟨k, hk⟩ := List.getElem?_of_mem hs
    cases hplace : place? segments l with
    | some k => exact ⟨k, rfl⟩
    | none =>
      have hnil := List.getLast?_eq_none_iff.mp (Option.map_eq_none_iff.mp hplace)
      have hno := List.filter_eq_nil_iff.mp hnil (s, k) (List.mk_mem_zipIdx_iff_getElem?.mpr hk)
      exact absurd (List.contains_iff_mem.mpr hl) hno

theorem resolve_eq_ok_iff : resolve segments l = .ok k ↔ place? segments l = some k := by
  rw [resolve]
  cases place? segments l <;> simp

theorem resolve_eq_error_iff {e : Error} :
    resolve segments l = .error e ↔ place? segments l = none ∧ e = .unresolvedLabel l := by
  rw [resolve]
  cases place? segments l <;> simp [eq_comm]

theorem exists_of_terminator_eq_error {e : Error} (h : s.terminator segments k = .error e) :
    ∃ l, s.target? = some l ∧ place? segments l = none ∧ e = .unresolvedLabel l := by
  rw [terminator] at h
  rw [target?]
  split at h
  · cases h
  · cases h
  · next l hexit =>
    exact ⟨l, by rw [hexit]; rfl, resolve_eq_error_iff.mp (map_eq_error_iff.mp h)⟩
  · next l hexit =>
    exact ⟨l, by rw [hexit]; rfl, resolve_eq_error_iff.mp (map_eq_error_iff.mp h)⟩

theorem exists_of_terminator_eq_ok {x : Terminator} (h : s.terminator segments k = .ok x)
    (hl : s.target? = some l) : ∃ j, place? segments l = some j := by
  rw [target?] at hl
  rw [terminator] at h
  split at h
  · next hexit =>
    rw [hexit] at hl
    cases hl
  · next hexit =>
    rw [hexit] at hl
    cases hl
  · next hexit =>
    rw [hexit] at hl
    cases hl
    obtain ⟨j, hj, -⟩ := map_eq_ok_iff.mp h
    exact ⟨j, resolve_eq_ok_iff.mp hj⟩
  · next hexit =>
    rw [hexit] at hl
    cases hl
    obtain ⟨j, hj, -⟩ := map_eq_ok_iff.mp h
    exact ⟨j, resolve_eq_ok_iff.mp hj⟩

/-- Control goes from a segment to the next place, or to that of the label it branches to. There is
a next segment, or else the control falls through by a branch. -/
theorem next_or_place?_of_terminator {x : Terminator} {t : Nat}
    (h : s.terminator segments k = .ok x) (ht : t ∈ x.successors) :
    t = k + 1 ∧ (k + 1 < segments.length ∨ s.endsInBranch = true) ∨
      ∃ l, s.target? = some l ∧ place? segments l = some t := by
  rw [terminator] at h
  split at h
  · obtain rfl := Except.ok.inj h
    split at ht
    · next hlt => exact .inl ⟨List.mem_singleton.mp ht, .inl hlt⟩
    · cases ht
  · cases h
    cases ht
  · next l hexit =>
    obtain ⟨j, hj, rfl⟩ := map_eq_ok_iff.mp h
    obtain rfl := List.mem_singleton.mp ht
    exact .inr ⟨l, by rw [target?, hexit]; rfl, resolve_eq_ok_iff.mp hj⟩
  · next l hexit =>
    obtain ⟨j, hj, rfl⟩ := map_eq_ok_iff.mp h
    rcases List.mem_pair.mp ht with rfl | rfl
    · exact .inr ⟨l, by rw [target?, hexit]; rfl, resolve_eq_ok_iff.mp hj⟩
    · exact .inl ⟨rfl, .inr (by simp [endsInBranch, hexit])⟩

/-- Control goes from a segment to another one, or falls through to the next place by a branch. -/
theorem lt_length_or_of_terminator {x : Terminator} {t : Nat}
    (h : s.terminator segments k = .ok x) (ht : t ∈ x.successors) :
    t < segments.length ∨ t = k + 1 ∧ s.endsInBranch = true := by
  rcases next_or_place?_of_terminator h ht with ⟨rfl, hlt | hbranch⟩ | ⟨l, -, hplace⟩
  · exact .inl hlt
  · exact .inr ⟨rfl, hbranch⟩
  · exact .inl (lt_length_of_place? hplace)

end Segment

/-! ### Routines -/

namespace Routine

variable {r : Routine} {blocks : List (Block r.tempCount)}

/-- No branch is lost when the stream is cut. -/
theorem targets_eq (r : Routine) : r.targets = r.segments.filterMap Segment.target? := by
  have hkept : (r.code.filter r.keeps).filterMap Instr.target? =
      r.code.filterMap Instr.target? := by
    rw [List.filterMap_filter]
    refine List.filterMap_congr fun i _ => ?_
    cases i with
    | op o => rfl
    | transfer x => rfl
    | mark l => simp [Instr.target?]
    | memo text => rfl
  rw [targets, ← hkept, ← r.flatMap_code_segments, List.filterMap_flatMap,
    List.filterMap_eq_flatMap_toList]
  simp only [Segment.filterMap_target?_code]

/-- A label that is branched to has a place just if it is placed somewhere in the stream. -/
theorem exists_place?_iff {l : Label} (hl : l ∈ r.targets) :
    (∃ k, Segment.place? r.segments l = some k) ↔ .mark l ∈ r.code := by
  have hkeeps : r.keeps (.mark l) = true := by simpa [keeps, Instr.isRelevant] using hl
  have hcode : .mark l ∈ r.code ↔ .mark l ∈ r.segments.flatMap Segment.code := by
    rw [r.flatMap_code_segments, List.mem_filter, and_iff_left hkeeps]
  rw [Segment.exists_place?_iff, hcode, List.mem_flatMap]
  simp only [Segment.mark_mem_code]

/-- A label with a place is placed in the stream. -/
theorem mark_mem_of_place? {l : Label} {k : Nat} (h : Segment.place? r.segments l = some k) :
    .mark l ∈ r.code := by
  obtain ⟨s, hs, hl⟩ := Segment.exists_place?_iff.mp ⟨k, h⟩
  exact mem_of_mem_code hs (Segment.mark_mem_code.mpr hl)

/-- What is recorded for a label is its place, as it is sent on. -/
theorem block_placedLabels (r : Routine) (forward : Nat → Option Nat) (l : Label) :
    (r.placedLabels forward)[l.slot]?.bind LabelInfo.block =
      (Segment.place? r.segments l).bind forward := by
  by_cases hlt : l.slot < r.labelCount
  · simp [placedLabels, labels, hlt]
  · have hnone : Segment.place? r.segments l = none := by
      refine Option.eq_none_iff_forall_ne_some.mpr fun k hk => hlt (lt_supremum ?_)
      have hmark : l ∈ r.code.filterMap Instr.placed? :=
        List.mem_filterMap.mpr ⟨_, mark_mem_of_place? hk, rfl⟩
      exact List.mem_map_of_mem (List.mem_append_left _ hmark)
    simp [placedLabels, labels, hlt, hnone]

theorem unplaced?_of_provisional_eq_error {e : Error} (h : r.provisional = .error e) :
    ∃ l, r.unplaced? = some l ∧ e = .unresolvedLabel l := by
  rcases bind_eq_error_iff.mp h with h | ⟨_, -, h⟩
  · obtain ⟨k, s, hs, herror, hfront⟩ := exists_of_mapM_zipIdx_eq_error h
    obtain ⟨l, hl, hplace, rfl⟩ :=
      Segment.exists_of_terminator_eq_error (map_eq_error_iff.mp herror)
    refine ⟨l, ?_, rfl⟩
    -- the branches in front of the one that fails are those of the segments in front
    obtain ⟨hlt, rfl⟩ := List.getElem?_eq_some_iff.mp hs
    have hsplit : r.targets = (r.segments.take k).filterMap Segment.target? ++
        l :: (r.segments.drop (k + 1)).filterMap Segment.target? := by
      rw [r.targets_eq, ← List.filterMap_cons_some hl, ← List.filterMap_append,
        ← List.drop_eq_getElem_cons, List.take_append_drop]
    have hunplaced : ∀ {l : Label}, l ∈ r.targets →
        (Instr.mark l ∉ r.code ↔ Segment.place? r.segments l = none) := by
      intro l hl
      rw [← exists_place?_iff hl, Option.eq_none_iff_forall_ne_some, not_exists]
    refine List.find?_eq_some_iff_append.mpr ⟨?_, _, _, hsplit, fun l' hl' => ?_⟩
    · exact decide_eq_true ((hunplaced (by simp [hsplit])).mpr hplace)
    · have hmem : l' ∈ r.targets := hsplit ▸ List.mem_append_left _ hl'
      obtain ⟨s', hs', hl'⟩ := List.mem_filterMap.mp hl'
      obtain ⟨j, hj, rfl⟩ := List.mem_take_iff_getElem.mp hs'
      obtain ⟨b, hb⟩ := hfront (Nat.lt_of_lt_of_le hj (Nat.min_le_left ..))
        (List.getElem?_eq_getElem (Nat.lt_of_lt_of_le hj (Nat.min_le_right ..)))
      obtain ⟨x, hx, -⟩ := map_eq_ok_iff.mp hb
      have hplaced := (exists_place?_iff hmem).mp (Segment.exists_of_terminator_eq_ok hx hl')
      simpa using hplaced
  · cases h

theorem unplaced?_of_provisional_eq_ok (h : r.provisional = .ok blocks) : r.unplaced? = none := by
  refine List.find?_eq_none.mpr fun l hl => ?_
  have hmem := hl
  rw [r.targets_eq] at hmem
  obtain ⟨s, hs, hsl⟩ := List.mem_filterMap.mp hmem
  obtain ⟨k, hk⟩ := List.getElem?_of_mem hs
  obtain ⟨b, -, -, hterm⟩ := (r.cutInto_provisional h).block hk
  have hplaced := (exists_place?_iff hl).mp (Segment.exists_of_terminator_eq_ok hterm hsl)
  simpa using hplaced

/-- **When cutting fails.** It fails at the first branch to a label that is not placed. -/
theorem provisional_eq_error_iff {e : Error} :
    r.provisional = .error e ↔ ∃ l, r.unplaced? = some l ∧ e = .unresolvedLabel l := by
  refine ⟨unplaced?_of_provisional_eq_error, ?_⟩
  rintro ⟨l, hl, rfl⟩
  cases h : r.provisional with
  | ok blocks =>
    rw [unplaced?_of_provisional_eq_ok h] at hl
    cases hl
  | error e =>
    obtain ⟨l', hl', rfl⟩ := unplaced?_of_provisional_eq_error h
    obtain rfl := Option.some.inj (hl.symm.trans hl')
    rfl

theorem exists_provisional_iff : (∃ blocks, r.provisional = .ok blocks) ↔ r.unplaced? = none := by
  constructor
  · rintro ⟨blocks, h⟩
    exact unplaced?_of_provisional_eq_ok h
  · intro hnone
    cases h : r.provisional with
    | ok blocks => exact ⟨blocks, rfl⟩
    | error e =>
      obtain ⟨l, hl, -⟩ := unplaced?_of_provisional_eq_error h
      rw [hnone] at hl
      cases hl

/-- A routine can be cut just if every label that it branches to is placed. -/
theorem exists_provisional_iff_forall :
    (∃ blocks, r.provisional = .ok blocks) ↔ ∀ l ∈ r.targets, .mark l ∈ r.code := by
  simp [exists_provisional_iff, unplaced?]

/-- A provisional block has the number of its place, and nothing is known about it. -/
theorem exists_blank_of_provisional (h : r.provisional = .ok blocks) {k : Nat}
    {b : Block r.tempCount} (hb : blocks[k]? = some b) :
    ∃ ops x, b = .blank r.tempCount k ops x := by
  obtain ⟨cut, hcut, h⟩ := bind_eq_ok_iff.mp h
  have hlen : cut.length = r.segments.length := by simpa using length_of_mapM hcut
  have hblank : cut[k]? = some b → ∃ ops x, b = .blank r.tempCount k ops x := by
    intro hb
    obtain ⟨p, hp, hblock⟩ := exists_of_mapM_getElem? hcut hb
    obtain ⟨x, -, rfl⟩ := map_eq_ok_iff.mp hblock
    obtain ⟨s, -, rfl⟩ : ∃ s, r.segments[k]? = some s ∧ (s, k) = p := by simpa using hp
    exact ⟨_, _, rfl⟩
  cases h
  split at hb
  · by_cases hlt : k < cut.length
    · exact hblank (List.getElem?_append_left hlt ▸ hb)
    · rw [List.getElem?_append_right (Nat.le_of_not_lt hlt)] at hb
      obtain ⟨hk, rfl⟩ : k - cut.length = 0 ∧ b = Segment.exitBlock _ r.segments := by
        simpa [List.getElem?_singleton, eq_comm] using hb
      obtain rfl : r.segments.length = k := by omega
      exact ⟨_, _, rfl⟩
  · exact hblank hb

/-! ### Targets -/

/-- There is a block for every segment, and one more if control may fall through past the last. -/
theorem length_provisional (h : r.provisional = .ok blocks) :
    blocks.length = r.segments.length + if Segment.needsExit r.segments then 1 else 0 := by
  obtain ⟨cut, hcut, hblocks⟩ := bind_eq_ok_iff.mp h
  have hlen : cut.length = r.segments.length := by simpa using length_of_mapM hcut
  cases hblocks
  split
  · rw [List.length_append, hlen]
    rfl
  · exact hlen

/-- Every target of a provisional block is a provisional block. -/
theorem targetsExist_provisional (h : r.provisional = .ok blocks) : TargetsExist blocks := by
  intro b hmem t ht
  obtain ⟨k, hk⟩ := List.getElem?_of_mem hmem
  have hcut := r.cutInto_provisional h
  rw [Block.successors] at ht
  rw [length_provisional h]
  cases hs : r.segments[k]? with
  | none =>
    rw [(hcut.beyond hs hk).2] at ht
    cases ht
  | some s =>
    obtain ⟨b', hb', -, hterm⟩ := hcut.block hs
    obtain rfl := Option.some.inj (hb'.symm.trans hk)
    have hlt := (List.getElem?_eq_some_iff.mp hs).1
    rcases Segment.lt_length_or_of_terminator hterm ht with ht | ⟨rfl, hbranch⟩
    · exact Nat.lt_add_right _ ht
    · by_cases hlast : k + 1 < r.segments.length
      · exact Nat.lt_add_right _ hlast
      · -- the last segment ends in a branch, so an exit is appended
        have hget : r.segments.getLast? = some s := by
          rw [List.getLast?_eq_getElem?, show r.segments.length - 1 = k by omega, hs]
        have hneeds : Segment.needsExit r.segments = true := by
          rw [Segment.needsExit, hget]
          exact hbranch
        rw [if_pos hneeds]
        omega

end Routine

end FlowFacts
