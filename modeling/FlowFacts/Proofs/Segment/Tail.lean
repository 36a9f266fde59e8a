import FlowFacts.Proofs.Segment.Targets

/-!
# Streams with a tail

A stream that ends in a jump or a return may be followed by more instructions. If these place no
label of the stream, then nothing in the stream leads to them, and cutting the longer stream gives
the segments of the stream first and then those of the tail. The tail must not branch to labels that
are placed in the stream but not branched to there, because these labels would begin to count; it
may branch to where the stream itself branches to, and ahead.

## Main definitions

* `DeadTail` — what a tail must keep to
* `Routine.extend` — a routine with a tail

## Main results

* `DeadTail.segments_extend` — the segments of the routine, then those of the tail
* `DeadTail.terminator_extend` — segments of the routine are left as before
* `DeadTail.lt_of_tail` — segments of the tail are left for the routine or for ahead
-/

namespace FlowFacts

/-- Nothing in the stream leads into the tail, and the tail does not make a difference to how the
stream is cut. -/
structure DeadTail (code tail : List Instr) : Prop where
  /-- The stream ends in a jump or a return. -/
  closed : ∃ front x, code = front ++ [.transfer x] ∧ ∀ test c l, x ≠ .branch test c l
  /-- The tail places no label that occurs in the stream. -/
  marks : ∀ {l : Label}, .mark l ∈ tail → .mark l ∉ code ∧ l ∉ code.filterMap Instr.target?
  /-- Branches of the tail go where branches of the stream go, or ahead. -/
  branches : ∀ {k : Nat} {i : Instr} {l : Label}, tail[k]? = some i → i.target? = some l →
    l ∈ code.filterMap Instr.target? ∨ .mark l ∈ tail.drop (k + 1)

/-- The routine with a tail. -/
def Routine.extend (r : Routine) (tail : List Instr) : Routine := { r with code := r.code ++ tail }

/-! ### Cutting at a transfer -/

namespace Segment

/-- An instruction in front of several segments does not change how the last of them is left. -/
theorem exists_prepend (i : Instr) (segments : List Segment) (s : Segment) :
    ∃ segments' s', s'.exit = s.exit ∧
      ∀ rest, prepend i (segments ++ s :: rest) = segments' ++ s' :: rest := by
  cases i with
  | op o =>
    cases segments with
    | nil =>
      by_cases hs : s.marks.isEmpty = true
      · exact ⟨[], { s with body := o :: s.body }, rfl, fun rest => if_pos hs⟩
      · exact ⟨[⟨[], [o], none⟩], s, rfl, fun rest => if_neg hs⟩
    | cons s₀ segments =>
      by_cases hs : s₀.marks.isEmpty = true
      · exact ⟨{ s₀ with body := o :: s₀.body } :: segments, s, rfl, fun rest => if_pos hs⟩
      · exact ⟨⟨[], [o], none⟩ :: s₀ :: segments, s, rfl, fun rest => if_neg hs⟩
  | transfer x => exact ⟨⟨[], [], some x⟩ :: segments, s, rfl, fun rest => rfl⟩
  | mark l =>
    cases segments with
    | nil => exact ⟨[], { s with marks := l :: s.marks }, rfl, fun rest => rfl⟩
    | cons s₀ segments =>
      exact ⟨{ s₀ with marks := l :: s₀.marks } :: segments, s, rfl, fun rest => rfl⟩
  | memo text => exact ⟨segments, s, rfl, fun rest => rfl⟩

/-- A transfer ends a segment, whatever follows. -/
theorem exists_ofStream_transfer (front : List Instr) (x : Transfer) :
    ∃ segments s, s.exit = some x ∧
      ∀ back, ofStream (front ++ .transfer x :: back) = segments ++ s :: ofStream back := by
  induction front with
  | nil => exact ⟨[], ⟨[], [], some x⟩, rfl, fun back => rfl⟩
  | cons i front ih =>
    obtain ⟨segments, s, hs, hback⟩ := ih
    obtain ⟨segments', s', hs', hrest⟩ := exists_prepend i segments s
    refine ⟨segments', s', hs'.trans hs, fun back => ?_⟩
    calc ofStream (i :: front ++ .transfer x :: back)
        = prepend i (ofStream (front ++ .transfer x :: back)) := rfl
      _ = segments' ++ s' :: ofStream back := by rw [hback, hrest]

/-- A segment that branches ends in the branch. -/
theorem exists_code_of_target? {s : Segment} {l : Label} (hl : s.target? = some l) :
    ∃ front x, s.code = front ++ [.transfer x] ∧ x.target? = some l := by
  obtain ⟨x, hexit, hx⟩ := Option.bind_eq_some_iff.mp hl
  refine ⟨s.marks.map .mark ++ s.body.map .op, x, ?_, hx⟩
  rw [code, work, hexit, List.append_assoc]
  rfl

/-! ### Places -/

variable {segments tail : List Segment} {l : Label} {k : Nat}

/-- A label that marks no segment of the tail has its place before. -/
theorem place?_append_of_not_mem (h : ∀ s ∈ tail, l ∉ s.marks) :
    place? (segments ++ tail) l = place? segments l := by
  have hnil : (tail.zipIdx segments.length).filter (fun p => p.1.marks.contains l) = [] := by
    refine List.filter_eq_nil_iff.mpr fun ⟨s, j⟩ hp => ?_
    simpa using h s (List.fst_mem_of_mem_zipIdx hp)
  rw [place?, place?, List.zipIdx_append, List.filter_append, Nat.zero_add, hnil, List.append_nil]

theorem le_of_place? (h : place? segments l = some k) {j : Nat} {s : Segment}
    (hj : segments[j]? = some s) (hl : l ∈ s.marks) : j ≤ k := by
  obtain ⟨front, s₀, back, rfl, rfl, -, hback⟩ := place?_eq_some_iff.mp h
  by_contra hlt
  rw [Nat.not_le] at hlt
  obtain ⟨d, rfl⟩ := Nat.exists_eq_add_of_lt hlt
  have hmem : (front ++ s₀ :: back)[front.length + d + 1]? = back[d]? := by
    rw [List.getElem?_append_right (by omega), Nat.add_assoc, Nat.add_sub_cancel_left]
    rfl
  exact hback s (List.mem_of_getElem? (hmem.symm.trans hj)) hl

end Segment

/-! ### Routines with a tail -/

/-- The segments of the tail. -/
def Routine.tailSegments (r : Routine) (tail : List Instr) : List Segment :=
  Segment.ofStream (tail.filter (r.extend tail).keeps)

theorem Routine.targets_extend (r : Routine) (tail : List Instr) :
    (r.extend tail).targets = r.targets ++ tail.filterMap Instr.target? :=
  List.filterMap_append

namespace DeadTail

open Segment

variable {r : Routine} {tail : List Instr}

/-- The tail does not make the marks of the routine count. -/
theorem keeps_extend (h : DeadTail r.code tail) {i : Instr} (hi : i ∈ r.code) :
    (r.extend tail).keeps i = r.keeps i := by
  cases i with
  | op o => rfl
  | transfer x => rfl
  | memo text => rfl
  | mark l =>
    have hiff : l ∈ (r.extend tail).targets ↔ l ∈ r.targets := by
      rw [r.targets_extend, List.mem_append, or_iff_left_of_imp]
      intro hl
      obtain ⟨j, hj, hjl⟩ := List.mem_filterMap.mp hl
      obtain ⟨k, hk⟩ := List.getElem?_of_mem hj
      refine (h.branches hk hjl).resolve_right fun hmark => ?_
      exact (h.marks (List.mem_of_mem_drop hmark)).1 hi
    rw [Routine.keeps, Routine.keeps, Instr.isRelevant, Instr.isRelevant, Bool.eq_iff_iff,
      List.contains_iff_mem, List.contains_iff_mem, hiff]

/-- The last segment of the routine is left by a jump or a return, and those of the tail follow. -/
theorem exists_segments (h : DeadTail r.code tail) :
    ∃ front s x, s.exit = some x ∧ (∀ test c l, x ≠ .branch test c l) ∧
      r.segments = front ++ [s] ∧
      (r.extend tail).segments = r.segments ++ r.tailSegments tail := by
  obtain ⟨front, x, hcode, hx⟩ := h.closed
  obtain ⟨segments, s, hs, hback⟩ := exists_ofStream_transfer (front.filter r.keeps) x
  have hrelevant : r.relevant = front.filter r.keeps ++ [.transfer x] := by
    show r.code.filter r.keeps = _
    rw [hcode, List.filter_append]
    rfl
  have hextend : (r.extend tail).relevant =
      front.filter r.keeps ++ .transfer x :: tail.filter (r.extend tail).keeps := by
    show (r.code ++ tail).filter (r.extend tail).keeps = _
    rw [List.filter_append, List.filter_congr fun i hi => h.keeps_extend hi, List.append_cons]
    exact congrArg (· ++ _) hrelevant
  have hsegments : r.segments = segments ++ [s] := by
    rw [Routine.segments, hrelevant, hback]
    rfl
  refine ⟨segments, s, x, hs, hx, hsegments, ?_⟩
  rw [Routine.segments, hextend, hback, hsegments, List.append_assoc]
  rfl

/-- Cutting the longer stream gives the segments of the routine first. -/
theorem segments_extend (h : DeadTail r.code tail) :
    (r.extend tail).segments = r.segments ++ r.tailSegments tail := by
  obtain ⟨_, _, _, -, -, -, hextend⟩ := h.exists_segments
  exact hextend

/-- The last segment of the routine does not run on. -/
theorem lt_length_of_exit (h : DeadTail r.code tail) {k : Nat} {s : Segment}
    (hk : r.segments[k]? = some s) (hs : s.exit = none ∨ s.endsInBranch = true) :
    k + 1 < r.segments.length := by
  obtain ⟨front, last, x, hlast, hx, hsegments, -⟩ := h.exists_segments
  by_contra hlt
  have hlen := (List.getElem?_eq_some_iff.mp hk).1
  have hk' : k = front.length := by
    rw [hsegments, List.length_append, List.length_singleton] at hlt hlen
    omega
  obtain rfl : last = s := by simpa [hsegments, hk'] using hk
  rw [Segment.endsInBranch, hlast] at hs
  cases x with
  | branch test c l => exact hx test c l rfl
  | jump l => simp at hs
  | ret v => simp at hs

theorem needsExit_eq_false (h : DeadTail r.code tail) : needsExit r.segments = false := by
  cases hlast : r.segments.getLast? with
  | none => rw [needsExit, hlast]; rfl
  | some s =>
    rw [List.getLast?_eq_getElem?] at hlast
    have hbranch : s.endsInBranch ≠ true := by
      intro hs
      have hlt := h.lt_length_of_exit hlast (.inr hs)
      omega
    rw [needsExit, List.getLast?_eq_getElem?, hlast]
    exact eq_false_of_ne_true hbranch

/-! ### Labels -/

theorem mark_mem_of_tail {s : Segment} (hs : s ∈ r.tailSegments tail) {l : Label}
    (hl : l ∈ s.marks) : .mark l ∈ tail :=
  (r.extend tail).mem_of_mem_code hs (mark_mem_code.mpr hl)

theorem place?_extend (h : DeadTail r.code tail) {l : Label} (hl : l ∈ r.targets) :
    place? (r.extend tail).segments l = place? r.segments l := by
  rw [h.segments_extend]
  exact place?_append_of_not_mem fun s hs hmark => (h.marks (mark_mem_of_tail hs hmark)).2 hl

/-- A label that marks the tail has no place in the routine, and all others have the same place. -/
theorem place?_extend_or (h : DeadTail r.code tail) (l : Label) :
    place? (r.extend tail).segments l = place? r.segments l ∨
      place? r.segments l = none ∧
        ∀ j, place? (r.extend tail).segments l = some j → r.segments.length ≤ j := by
  by_cases hmark : .mark l ∈ tail
  · have hcode : ∀ s ∈ r.segments, l ∉ s.marks :=
      fun s hs hl => (h.marks hmark).1 (r.mem_of_mem_code hs (mark_mem_code.mpr hl))
    refine .inr ⟨?_, fun j hj => ?_⟩
    · refine Option.eq_none_iff_forall_ne_some.mpr fun k hk => ?_
      obtain ⟨s, hs, hl⟩ := exists_place?_iff.mp ⟨k, hk⟩
      exact hcode s hs hl
    · by_contra hlt
      obtain ⟨front, s, back, hsegments, rfl, hl, -⟩ := place?_eq_some_iff.mp hj
      have hs : (r.extend tail).segments[front.length]? = some s := by simp [hsegments]
      rw [h.segments_extend, List.getElem?_append_left (Nat.lt_of_not_le hlt)] at hs
      exact hcode s (List.mem_of_getElem? hs) hl
  · rw [h.segments_extend]
    exact .inl (place?_append_of_not_mem fun s hs hl => hmark (mark_mem_of_tail hs hl))

/-- Segments of the routine are left as before. -/
theorem terminator_extend (h : DeadTail r.code tail) {k : Nat} {s : Segment}
    (hk : r.segments[k]? = some s) :
    s.terminator (r.extend tail).segments k = s.terminator r.segments k := by
  have hresolve : ∀ {l : Label}, s.target? = some l →
      resolve (r.extend tail).segments l = resolve r.segments l := by
    intro l hl
    have hmem : l ∈ r.targets :=
      r.targets_eq ▸ List.mem_filterMap.mpr ⟨s, List.mem_of_getElem? hk, hl⟩
    rw [resolve, resolve, h.place?_extend hmem]
  cases hexit : s.exit with
  | none =>
    have hlt := h.lt_length_of_exit hk (.inl hexit)
    have hlt' : k + 1 < (r.extend tail).segments.length := by
      rw [h.segments_extend, List.length_append]
      omega
    simp only [terminator, hexit, if_pos hlt, if_pos hlt']
  | some x =>
    cases x with
    | ret v => simp only [terminator, hexit]
    | jump l =>
      have hl := hresolve (l := l) (by rw [target?, hexit]; rfl)
      simp only [terminator, hexit, hl]
    | branch test c l =>
      have hl := hresolve (l := l) (by rw [target?, hexit]; rfl)
      simp only [terminator, hexit, hl]

/-- A branch of the tail goes to a label of the routine, or to one that marks a later segment. -/
theorem mark_of_tail (h : DeadTail r.code tail) {k : Nat} {s : Segment}
    (hk : (r.tailSegments tail)[k]? = some s) {l : Label} (hl : s.target? = some l) :
    l ∈ r.targets ∨ ∃ j s', k < j ∧ (r.tailSegments tail)[j]? = some s' ∧ l ∈ s'.marks := by
  obtain ⟨front, x, hs, hx⟩ := exists_code_of_target? hl
  obtain ⟨hlt, rfl⟩ := List.getElem?_eq_some_iff.mp hk
  -- the branch splits what is kept of the tail, and with it the tail
  have hcode : tail.filter (r.extend tail).keeps =
      (((r.tailSegments tail).take k).flatMap Segment.code ++ front) ++
        .transfer x :: ((r.tailSegments tail).drop (k + 1)).flatMap Segment.code := by
    rw [← (r.extend tail).flatMap_code_kept tail]
    show (r.tailSegments tail).flatMap Segment.code = _
    nth_rewrite 1 [← List.take_append_drop k (r.tailSegments tail)]
    rw [List.drop_eq_getElem_cons hlt, List.flatMap_append, List.flatMap_cons, hs]
    simp only [List.append_assoc, List.singleton_append]
  obtain ⟨before, after, htail, -, hafter⟩ := List.filter_eq_append_iff.mp hcode
  obtain ⟨skipped, rest, rfl, -, -, hrest⟩ := List.filter_eq_cons_iff.mp hafter
  have hget : tail[(before ++ skipped).length]? = some (.transfer x) := by
    simp [htail]
  refine (h.branches hget hx).imp_right fun hmark => ?_
  have hdrop : tail.drop ((before ++ skipped).length + 1) = rest := by
    rw [htail, ← List.append_assoc, ← List.drop_drop, List.drop_left]
    rfl
  have hkept : (r.extend tail).keeps (.mark l) = true :=
    Routine.keeps_mark (r := r.extend tail)
      ((List.getElem?_append_right (Nat.le_add_right r.code.length _)).trans
        (by rw [Nat.add_sub_cancel_left]; exact hget)) hx
  have hmem : .mark l ∈ ((r.tailSegments tail).drop (k + 1)).flatMap Segment.code :=
    hrest ▸ List.mem_filter.mpr ⟨hdrop ▸ hmark, hkept⟩
  obtain ⟨s', hs', hl'⟩ := List.mem_flatMap.mp hmem
  obtain ⟨j, hj⟩ := List.getElem?_of_mem hs'
  rw [List.getElem?_drop] at hj
  exact ⟨k + 1 + j, s', by omega, hj, mark_mem_code.mp hl'⟩

/-- Segments of the tail are left for the routine or for ahead. -/
theorem lt_of_tail (h : DeadTail r.code tail) {k : Nat} {s : Segment}
    (hk : (r.extend tail).segments[k]? = some s) (hle : r.segments.length ≤ k) {x : Terminator}
    (hx : s.terminator (r.extend tail).segments k = .ok x) {t : Nat} (ht : t ∈ x.successors) :
    t < r.segments.length ∨ k < t := by
  have htail : (r.tailSegments tail)[k - r.segments.length]? = some s := by
    rwa [h.segments_extend, List.getElem?_append_right hle] at hk
  rcases next_or_place?_of_terminator hx ht with ⟨rfl, -⟩ | ⟨l, hl, hplace⟩
  · exact .inr (Nat.lt_succ_self k)
  · rcases h.mark_of_tail htail hl with hmem | ⟨j, s', hlt, hj, hmark⟩
    · rw [h.place?_extend hmem] at hplace
      exact .inl (lt_length_of_place? hplace)
    · have hget : (r.extend tail).segments[r.segments.length + j]? = some s' := by
        rw [h.segments_extend, List.getElem?_append_right (Nat.le_add_right ..),
          Nat.add_sub_cancel_left, hj]
      have hle' := le_of_place? hplace hget hmark
      exact .inr (by omega)

/-- A stream with a tail can be cut just if it can be cut without. -/
theorem exists_provisional_extend_iff (h : DeadTail r.code tail) :
    (∃ blocks, (r.extend tail).provisional = .ok blocks) ↔
      ∃ blocks, r.provisional = .ok blocks := by
  rw [Routine.exists_provisional_iff_forall, Routine.exists_provisional_iff_forall,
    r.targets_extend]
  constructor
  · intro hall l hl
    refine (List.mem_append.mp (hall l (List.mem_append_left _ hl))).resolve_right fun hmark => ?_
    exact (h.marks hmark).2 hl
  · intro hall l hl
    have hcode : l ∈ r.targets → .mark l ∈ r.code ++ tail :=
      fun hl => List.mem_append_left _ (hall l hl)
    rcases List.mem_append.mp hl with hl | hl
    · exact hcode hl
    · obtain ⟨i, hi, hil⟩ := List.mem_filterMap.mp hl
      obtain ⟨k, hk⟩ := List.getElem?_of_mem hi
      rcases h.branches hk hil with hl | hmark
      · exact hcode hl
      · exact List.mem_append_right _ (List.mem_of_mem_drop hmark)

end DeadTail

end FlowFacts
