import FlowFacts.Proofs.Block.Shape
import FlowFacts.Proofs.Segment.Targets
import Mathlib.Data.List.SplitBy

/-!
# Numbering a stream from the left

Segments are put together from the end of the stream. They can also be found from its beginning, by
one pass that numbers the instructions: it starts with zero, and the number goes up behind every
transfer and in front of every mark that follows an operation. Instructions of the same number then
form a group, and group `k` is the code of segment `k` (`Routine.groups_eq`). So a block holds what
the pass finds in its group, and nothing is lost, doubled or moved on the way to the blocks.

Numbers do not go up within a run of marks nor right behind it, so the run belongs to the group of
the instruction that it stands in front of. That is where its labels lead to.

## Main definitions

* `numberFrom` — the numbers of instructions, by one pass from the left
* `Instr.cuts` — a new number begins between two instructions
* `Routine.groups` — runs of instructions with the same number
* `Routine.Opens` — a group begins with the run of marks in which the last mark of a label stands

## Main results

* `numberFrom_eq` — the pass numbers instructions by their segment
* `getElem?_numberFrom_succ` — numbers go up at cuts, and only there
* `Routine.lastMarkNumber?_eq` — a label is recorded for the group of its last mark
* `Routine.partitioned_provisional` — how the blocks of a routine come from its stream
-/

namespace FlowFacts

/-- The numbers of instructions, from `k` on. In a group that is `fresh` there are only marks so
far. -/
def numberFrom (k : Nat) (fresh : Bool) : List Instr → List Nat
  | [] => []
  | .mark _ :: code =>
    if fresh then k :: numberFrom k true code else (k + 1) :: numberFrom (k + 1) true code
  | .transfer _ :: code => k :: numberFrom (k + 1) true code
  | _ :: code => k :: numberFrom k false code

namespace Instr

/-- Does a new number begin between two neighbouring instructions? -/
def cuts (i j : Instr) : Bool := i.isTransfer || i.op?.isSome && j.placed?.isSome

/-- Does control either go to a label or fall through? -/
def isBranch : Instr → Bool
  | transfer (.branch _ _ _) => true
  | _ => false

theorem isBranch_iff {i : Instr} :
    i.isBranch = true ↔ ∃ test c l, i = .transfer (.branch test c l) := by
  cases i with
  | transfer x => cases x <;> simp [isBranch]
  | _ => simp [isBranch]

end Instr

/-! ### The pass -/

variable {stream : List Instr}

@[simp] theorem length_numberFrom (k : Nat) (fresh : Bool) (stream : List Instr) :
    (numberFrom k fresh stream).length = stream.length := by
  fun_induction numberFrom k fresh stream <;> simp [*]

/-- Only a mark makes a difference between a group that has just begun and one that has not. -/
theorem numberFrom_false (k : Nat) (stream : List Instr) :
    numberFrom k false stream =
      if stream.head?.any (·.placed?.isSome) then numberFrom (k + 1) true stream
      else numberFrom k true stream := by
  cases stream with
  | nil => rfl
  | cons i stream => cases i <;> rfl

theorem head?_numberFrom_true (k : Nat) (stream : List Instr) :
    (numberFrom k true stream).head? = stream.head?.map fun _ => k := by
  cases stream with
  | nil => rfl
  | cons i stream => cases i <;> rfl

/-- A number goes up by one at a cut, and stays elsewhere. -/
theorem getElem?_numberFrom_succ {k m p : Nat} {fresh : Bool} {i j : Instr}
    (hmemo : ∀ i ∈ stream, ∀ text, i ≠ .memo text) (hi : stream[p]? = some i)
    (hj : stream[p + 1]? = some j) (hm : (numberFrom k fresh stream)[p]? = some m) :
    (numberFrom k fresh stream)[p + 1]? = some (m + if i.cuts j then 1 else 0) := by
  induction stream generalizing k fresh p with
  | nil => cases hi
  | cons i' stream ih =>
    cases p with
    | succ p =>
      -- behind the first instruction, the pass goes on with another number or flag
      replace ih : ∀ {k fresh}, (numberFrom k fresh stream)[p]? = some m →
          (numberFrom k fresh stream)[p + 1]? = some (m + if i.cuts j then 1 else 0) :=
        ih (fun i hi => hmemo i (List.mem_cons_of_mem _ hi)) hi hj
      cases i' with
      | mark l =>
        cases fresh with
        | true => exact ih hm
        | false => exact ih hm
      | transfer x => exact ih hm
      | op o => exact ih hm
      | memo text => exact ih hm
    | zero =>
      cases hi
      cases stream with
      | nil => cases hj
      | cons j' stream =>
        cases hj
        cases i with
        | memo text => exact absurd rfl (hmemo _ List.mem_cons_self text)
        | mark l =>
          cases fresh with
          | true => cases hm; cases j <;> rfl
          | false => cases hm; cases j <;> rfl
        | transfer x => cases hm; cases j <;> rfl
        | op o => cases hm; cases j <;> rfl

/-! ### Segments by their numbers -/

namespace Segment

/-- The number of the segment that each instruction stands in, if the first segment has number
`k`. -/
def numbersFrom (k : Nat) (segments : List Segment) : List Nat :=
  (segments.zipIdx k).flatMap fun p => List.replicate p.1.code.length p.2

theorem numbersFrom_cons (k : Nat) (s : Segment) (segments : List Segment) :
    numbersFrom k (s :: segments) =
      List.replicate s.code.length k ++ numbersFrom (k + 1) segments := rfl

theorem numbersFrom_append (k : Nat) (front back : List Segment) :
    numbersFrom k (front ++ back) = numbersFrom k front ++ numbersFrom (k + front.length) back := by
  rw [numbersFrom, List.zipIdx_append, List.flatMap_append]
  rfl

theorem length_numbersFrom (k : Nat) (segments : List Segment) :
    (numbersFrom k segments).length = (segments.flatMap code).length := by
  induction segments generalizing k with
  | nil => rfl
  | cons s segments ih => simp [numbersFrom_cons, ih]

/-- An instruction has the number of its segment. -/
theorem getElem?_numbersFrom_append (k : Nat) (front back : List Segment) {s : Segment} {i : Nat}
    (hi : i < s.code.length) :
    (numbersFrom k (front ++ s :: back))[(front.flatMap code).length + i]? =
      some (k + front.length) := by
  rw [numbersFrom_append, numbersFrom_cons, ← length_numbersFrom k,
    List.getElem?_append_right (Nat.le_add_right ..), Nat.add_sub_cancel_left,
    List.getElem?_append_left (by simpa using hi), List.getElem?_replicate_of_lt hi]

/-- What an instruction in front does to the numbers. -/
theorem numbersFrom_prepend {i : Instr} (hi : ∀ text, i ≠ .memo text) (k : Nat)
    (segments : List Segment) :
    numbersFrom k (prepend i segments) = k :: numbersFrom
      (if i.isTransfer || i.op?.isSome && segments.head?.any (!·.marks.isEmpty) then k + 1 else k)
      segments := by
  cases i with
  | memo text => exact absurd rfl (hi text)
  | transfer x => rfl
  | mark l => cases segments <;> rfl
  | op o =>
    cases segments with
    | nil => rfl
    | cons s segments =>
      cases hs : s.marks.isEmpty with
      | true =>
        have hlen : ({ s with body := o :: s.body } : Segment).code.length = s.code.length + 1 := by
          simp [code, work]
          omega
        simp [prepend, hs, numbersFrom_cons, hlen, List.replicate_succ, Instr.isTransfer]
      | false => simp [prepend, hs, numbersFrom_cons, code, work, Instr.isTransfer, Instr.op?]

/-- The first segment has marks just if the stream begins with one. -/
theorem any_head?_ofStream (hmemo : ∀ i ∈ stream, ∀ text, i ≠ .memo text) :
    (ofStream stream).head?.any (!·.marks.isEmpty) = stream.head?.any (·.placed?.isSome) := by
  cases stream with
  | nil => rfl
  | cons i stream =>
    show (prepend i (ofStream stream)).head?.any _ = _
    cases i with
    | memo text => exact absurd rfl (hmemo _ List.mem_cons_self text)
    | transfer x => rfl
    | mark l => cases ofStream stream <;> rfl
    | op o =>
      cases ofStream stream with
      | nil => rfl
      | cons s segments => cases hs : s.marks.isEmpty <;> simp [prepend, hs, Instr.placed?]

end Segment

/-- The pass numbers instructions by the segment that they stand in. -/
theorem numberFrom_eq (hmemo : ∀ i ∈ stream, ∀ text, i ≠ .memo text) (k : Nat) :
    numberFrom k true stream = Segment.numbersFrom k (Segment.ofStream stream) := by
  induction stream generalizing k with
  | nil => rfl
  | cons i stream ih =>
    have hmemo' : ∀ i ∈ stream, ∀ text, i ≠ .memo text :=
      fun i hi => hmemo i (List.mem_cons_of_mem _ hi)
    have hcons : Segment.ofStream (i :: stream) = Segment.prepend i (Segment.ofStream stream) := rfl
    rw [hcons, Segment.numbersFrom_prepend (hmemo i List.mem_cons_self),
      Segment.any_head?_ofStream hmemo', ← ih hmemo']
    cases i with
    | memo text => exact absurd rfl (hmemo _ List.mem_cons_self text)
    | transfer x => rfl
    | mark l => rfl
    | op o =>
      show k :: numberFrom k false stream = _
      rw [numberFrom_false]
      cases stream.head?.any (·.placed?.isSome) <;> rfl

/-! ### Segments are not empty -/

namespace Segment

variable {segments : List Segment}

theorem placed?_of_mem_work {s : Segment} {i : Instr} (h : i ∈ s.work) : i.placed? = none := by
  rcases List.mem_append.mp h with h | h <;> obtain ⟨_, -, rfl⟩ := List.mem_map.mp h <;> rfl

/-- Every segment has an instruction, and every one but the last has more than marks. -/
structure Filled (segments : List Segment) : Prop where
  code_ne_nil : ∀ s ∈ segments, s.code ≠ []
  work_ne_nil : ∀ s ∈ segments.dropLast, s.work ≠ []

theorem filled_cons_iff {s t : Segment} :
    Filled (s :: t :: segments) ↔ s.work ≠ [] ∧ Filled (t :: segments) := by
  have hcode : s.work ≠ [] → s.code ≠ [] := fun h => List.append_ne_nil_of_right_ne_nil _ h
  constructor
  · rintro ⟨hcodes, hworks⟩
    rw [List.forall_mem_cons] at hcodes
    rw [List.dropLast_cons_cons, List.forall_mem_cons] at hworks
    exact ⟨hworks.1, hcodes.2, hworks.2⟩
  · rintro ⟨hs, hcodes, hworks⟩
    refine ⟨List.forall_mem_cons.mpr ⟨hcode hs, hcodes⟩, ?_⟩
    rw [List.dropLast_cons_cons]
    exact List.forall_mem_cons.mpr ⟨hs, hworks⟩

theorem filled_singleton {s : Segment} (h : s.code ≠ []) : Filled [s] :=
  ⟨List.forall_mem_singleton.mpr h, nofun⟩

/-- A segment may be replaced by one with more instructions. -/
theorem Filled.replace_head {s s' : Segment} (h : Filled (s :: segments)) (hcode : s'.code ≠ [])
    (hwork : s.work ≠ [] → s'.work ≠ []) : Filled (s' :: segments) := by
  cases segments with
  | nil => exact filled_singleton hcode
  | cons t segments =>
    obtain ⟨hs, hrest⟩ := filled_cons_iff.mp h
    exact filled_cons_iff.mpr ⟨hwork hs, hrest⟩

theorem Filled.cons {s : Segment} (hs : s.work ≠ []) (h : Filled segments) :
    Filled (s :: segments) := by
  cases segments with
  | nil => exact filled_singleton (List.append_ne_nil_of_right_ne_nil _ hs)
  | cons t segments => exact filled_cons_iff.mpr ⟨hs, h⟩

theorem Filled.prepend (h : Filled segments) (i : Instr) : Filled (prepend i segments) := by
  cases i with
  | memo text => exact h
  | transfer x => exact h.cons (by simp [work])
  | mark l =>
    cases segments with
    | nil => exact filled_singleton (by simp [code])
    | cons s segments => exact h.replace_head (by simp [code]) id
  | op o =>
    cases segments with
    | nil => exact filled_singleton (by simp [code, work])
    | cons s segments =>
      rw [Segment.prepend]
      split
      · exact h.replace_head (by simp [code, work]) fun _ => by simp [work]
      · exact h.cons (by simp [work])

theorem filled_ofStream (stream : List Instr) : Filled (ofStream stream) := by
  induction stream with
  | nil => exact ⟨nofun, nofun⟩
  | cons i stream ih => exact ih.prepend i

theorem filter_op?_code (s : Segment) : s.code.filter (·.op?.isSome) = s.body.map .op := by
  have hmarks : (s.marks.map Instr.mark).filter (·.op?.isSome) = [] := by simp [Instr.op?]
  have hbody : (s.body.map Instr.op).filter (·.op?.isSome) = s.body.map .op := by simp [Instr.op?]
  have hexit : (s.exit.toList.map Instr.transfer).filter (·.op?.isSome) = [] := by simp [Instr.op?]
  rw [code, work, List.filter_append, List.filter_append, hmarks, hbody, hexit]
  simp

/-- The code of a segment ends in a transfer just if that is its exit. -/
theorem getLast?_code_eq_transfer_iff {s : Segment} {x : Transfer} :
    s.code.getLast? = some (.transfer x) ↔ s.exit = some x := by
  cases hexit : s.exit with
  | none =>
    refine ⟨fun hlast => ?_, nofun⟩
    have hmem : Instr.transfer x ∈ s.code := List.mem_of_getLast? hlast
    simp [code, work, hexit] at hmem
  | some y =>
    have hcode : s.code = (s.marks.map .mark ++ s.body.map .op) ++ [.transfer y] := by
      simp [code, work, hexit]
    simp [hcode]

theorem endsInBranch_iff {s : Segment} :
    s.endsInBranch = true ↔ ∃ test c l, s.exit = some (.branch test c l) := by
  rw [endsInBranch]
  split
  · next hexit => simp [hexit]
  · next hno => simpa using fun test c l hexit => hno test c l hexit

theorem any_getLast?_code (s : Segment) : s.code.getLast?.any Instr.isBranch = s.endsInBranch := by
  rw [Bool.eq_iff_iff, endsInBranch_iff]
  simp only [← getLast?_code_eq_transfer_iff]
  cases s.code.getLast? with
  | none => simp
  | some i => simp [Instr.isBranch_iff]

/-- Control can fall through past the last segment just if the stream ends in a branch. -/
theorem any_getLast?_flatMap_code (hcode : ∀ s ∈ segments, s.code ≠ []) :
    (segments.flatMap code).getLast?.any Instr.isBranch = needsExit segments := by
  cases segments using List.reverseRecOn with
  | nil => rfl
  | append_singleton front s _ =>
    have hs : s.code ≠ [] := hcode s (by simp)
    rw [List.flatMap_append, List.flatMap_singleton, List.getLast?_append_of_ne_nil _ hs,
      any_getLast?_code, needsExit, List.getLast?_concat]
    rfl

/-! ### Groups -/

theorem zip_numbersFrom (k : Nat) (segments : List Segment) :
    (segments.flatMap code).zip (numbersFrom k segments) =
      ((segments.zipIdx k).map fun p => p.1.code.map (·, p.2)).flatten := by
  have hzip : ∀ (k : Nat) (stream : List Instr),
      stream.zip (List.replicate stream.length k) = stream.map (·, k) := by
    intro k stream
    induction stream with
    | nil => rfl
    | cons i stream ih => simpa [List.replicate_succ] using ih
  induction segments generalizing k with
  | nil => rfl
  | cons s segments ih =>
    rw [List.flatMap_cons, numbersFrom_cons, List.zip_append List.length_replicate.symm, hzip, ih]
    rfl

/-- Instructions of the same number are those of one segment. -/
theorem splitBy_zip_numbersFrom (hcode : ∀ s ∈ segments, s.code ≠ []) (k : Nat) :
    ((segments.flatMap code).zip (numbersFrom k segments)).splitBy (fun p q => p.2 == q.2) =
      (segments.zipIdx k).map fun p => p.1.code.map (·, p.2) := by
  refine List.splitBy_eq_iff.mpr ⟨zip_numbersFrom k segments, ?_, ?_, ?_⟩
  · intro hnil
    obtain ⟨p, hp, hcode'⟩ := List.mem_map.mp hnil
    exact hcode p.1 (List.fst_mem_of_mem_zipIdx hp) (List.map_eq_nil_iff.mp hcode')
  · intro group hgroup
    obtain ⟨p, -, rfl⟩ := List.mem_map.mp hgroup
    rw [List.isChain_map]
    exact List.Pairwise.isChain (List.pairwise_of_forall fun _ _ => beq_self_eq_true _)
  · induction segments generalizing k with
    | nil => exact List.isChain_nil
    | cons s segments ih =>
      have hrest := ih (fun s hs => hcode s (List.mem_cons_of_mem _ hs)) (k + 1)
      cases segments with
      | nil => exact List.isChain_singleton _
      | cons t segments =>
        refine List.isChain_cons_cons.mpr ⟨⟨?_, ?_, ?_⟩, hrest⟩
        · simpa using hcode s (by simp)
        · simpa using hcode t (by simp)
        · simp

end Segment

namespace Routine

variable {r : Routine} {blocks : List (Block r.tempCount)} {l : Label} {k : Nat}

/-- The numbers of the instructions that matter. -/
def numbers (r : Routine) : List Nat := numberFrom 0 true r.relevant

/-- The instructions that matter and their numbers, in runs of the same number. -/
def groups (r : Routine) : List (List (Instr × Nat)) :=
  (r.relevant.zip r.numbers).splitBy fun p q => p.2 == q.2

theorem ne_memo_of_mem_relevant {i : Instr} (h : i ∈ r.relevant) (text : String) :
    i ≠ .memo text := by
  rintro rfl
  cases (List.mem_filter.mp h).2

theorem numbers_eq (r : Routine) : r.numbers = Segment.numbersFrom 0 r.segments :=
  numberFrom_eq (fun _ => ne_memo_of_mem_relevant) 0

theorem flatMap_code_eq_relevant (r : Routine) : r.segments.flatMap Segment.code = r.relevant :=
  r.flatMap_code_segments

theorem filled_segments (r : Routine) : Segment.Filled r.segments :=
  Segment.filled_ofStream r.relevant

/-- Group `k` is the code of segment `k`, and its number is `k`. -/
theorem groups_eq (r : Routine) :
    r.groups = r.segments.zipIdx.map fun p => p.1.code.map (·, p.2) := by
  rw [groups, numbers_eq, ← flatMap_code_eq_relevant]
  exact Segment.splitBy_zip_numbersFrom r.filled_segments.code_ne_nil 0

theorem map_fst_groups (r : Routine) :
    r.groups.map (·.map Prod.fst) = r.segments.map Segment.code := by
  rw [groups_eq, List.map_map]
  conv_rhs => rw [← List.zipIdx_map_fst 0 r.segments, List.map_map]
  refine List.map_congr_left fun p _ => ?_
  show (p.1.code.map (·, p.2)).map Prod.fst = p.1.code
  rw [List.map_map]
  exact List.map_id _

theorem length_groups (r : Routine) : r.groups.length = r.segments.length := by
  rw [groups_eq, List.length_map, List.length_zipIdx]

theorem exists_of_getElem?_groups {group : List (Instr × Nat)} (h : r.groups[k]? = some group) :
    ∃ s, r.segments[k]? = some s ∧ s.code.map (·, k) = group := by
  simpa [groups_eq] using h

/-! ### Labels -/

/-- The number of the last mark of a label. -/
def lastMarkNumber? (r : Routine) (l : Label) : Option Nat :=
  (lastMark? r.relevant l).bind (r.numbers[·]?)

/-- A label stands for the segment with the number of its last mark. -/
theorem lastMarkNumber?_eq (r : Routine) (l : Label) :
    r.lastMarkNumber? l = Segment.place? r.segments l := by
  rw [lastMarkNumber?, numbers_eq, ← flatMap_code_eq_relevant]
  cases hplace : Segment.place? r.segments l with
  | none =>
    have hnone : lastMark? (r.segments.flatMap Segment.code) l = none := by
      refine Option.eq_none_iff_forall_ne_some.mpr fun i hi => ?_
      obtain ⟨front, back, hcode, -, -⟩ := lastMark?_eq_some_iff.mp hi
      have hmem : .mark l ∈ r.segments.flatMap Segment.code := by simp [hcode]
      obtain ⟨s, hs, hmark⟩ := List.mem_flatMap.mp hmem
      obtain ⟨k, hk⟩ := Segment.exists_place?_iff.mpr ⟨s, hs, Segment.mark_mem_code.mp hmark⟩
      cases hplace.symm.trans hk
    rw [hnone]
    rfl
  | some k =>
    obtain ⟨front, s, back, ls, ms, hsegments, rfl, hmarks, hno⟩ :=
      Segment.exists_split_of_place? hplace
    have hcode : r.segments.flatMap Segment.code = (front.flatMap Segment.code ++ ls.map .mark) ++
        .mark l :: (ms.map .mark ++ (s.work ++ back.flatMap Segment.code)) := by
      simp [hsegments, Segment.code, hmarks]
    have hlt : ls.length < s.code.length := by
      simp only [Segment.code, hmarks, List.length_append, List.length_map, List.length_cons]
      omega
    rw [lastMark?_eq_some_iff.mpr ⟨_, _, hcode, rfl, hno⟩, Option.bind_some, hsegments,
      List.length_append, List.length_map, Segment.getElem?_numbersFrom_append 0 front back hlt,
      Nat.zero_add]

/-- Group `k` begins with a run of marks, the last mark of the label among them. The run is as long
as can be, and so the instructions behind it are those that control reaches through the label. -/
structure Opens (r : Routine) (l : Label) (k : Nat) (before : List (List Instr))
    (marks : List Label) (work : List Instr) (after : List (List Instr)) : Prop where
  groups_eq : r.groups.map (·.map Prod.fst) = before ++ (marks.map .mark ++ work) :: after
  length_before : before.length = k
  mem_marks : l ∈ marks
  last : .mark l ∉ work ++ after.flatten
  run_begins : ∀ i ∈ before.flatten.getLast?, i.placed? = none
  run_ends : ∀ i ∈ (work ++ after.flatten).head?, i.placed? = none

/-- A label stands for the group that its last mark opens. -/
theorem exists_opens (h : Segment.place? r.segments l = some k) :
    ∃ before marks work after, r.Opens l k before marks work after := by
  obtain ⟨front, s, back, hsegments, rfl, hs, hback⟩ := Segment.place?_eq_some_iff.mp h
  have hfilled := r.filled_segments
  rw [hsegments] at hfilled
  refine ⟨front.map Segment.code, s.marks, s.work, back.map Segment.code,
    ⟨?_, List.length_map _, hs, ?_, ?_, ?_⟩⟩
  · rw [map_fst_groups, hsegments, List.map_append]
    rfl
  · rw [List.mem_append, not_or]
    refine ⟨fun hmem => ?_, fun hmem => ?_⟩
    · cases Segment.placed?_of_mem_work hmem
    · obtain ⟨t, ht, hmark⟩ := List.mem_flatMap.mp (List.flatMap_def ▸ hmem)
      exact hback t ht (Segment.mark_mem_code.mp hmark)
  · -- the segment in front has more than marks, and so does not end in a mark
    intro i hi
    cases front using List.reverseRecOn with
    | nil => cases hi
    | append_singleton front t _ =>
      have hwork : t.work ≠ [] := hfilled.work_ne_nil t (by simp)
      rw [List.map_append, List.flatten_append, List.map_singleton, List.flatten_singleton,
        Segment.code, ← List.append_assoc, List.getLast?_append_of_ne_nil _ hwork] at hi
      exact Segment.placed?_of_mem_work (List.mem_of_getLast? hi)
  · -- a segment of marks only is the last one
    intro i hi
    cases hwork : s.work with
    | cons j work =>
      rw [hwork] at hi
      cases hi
      exact Segment.placed?_of_mem_work (hwork ▸ List.mem_cons_self)
    | nil =>
      cases back with
      | cons t back => exact absurd hwork (hfilled.work_ne_nil s (by simp))
      | nil =>
        rw [hwork] at hi
        cases hi

/-! ### Blocks -/

/-- The bodies of the blocks are those of the segments. The exit, if there is one, has none. -/
theorem flatMap_ops_provisional (h : r.provisional = .ok blocks) :
    blocks.flatMap Block.ops = r.segments.flatMap Segment.body := by
  have hcut := r.cutInto_provisional h
  have hle : r.segments.length ≤ blocks.length := length_provisional h ▸ Nat.le_add_right ..
  have hfront : r.segments.map Segment.body = (blocks.take r.segments.length).map Block.ops := by
    refine map_eq_map_of_getElem? (List.length_take_of_le hle).symm fun {k s} hs => ?_
    obtain ⟨b, hb, hops, -⟩ := hcut.block hs
    have hlt : k < r.segments.length := (List.getElem?_eq_some_iff.mp hs).1
    exact ⟨b, (List.getElem?_take_of_lt hlt).trans hb, hops⟩
  have hback : (blocks.drop r.segments.length).flatMap Block.ops = [] := by
    refine List.flatMap_eq_nil_iff.mpr fun b hb => ?_
    obtain ⟨k, hk⟩ := List.getElem?_of_mem hb
    rw [List.getElem?_drop] at hk
    exact (hcut.beyond (List.getElem?_eq_none (Nat.le_add_right ..)) hk).1
  calc blocks.flatMap Block.ops
      = (blocks.take r.segments.length).flatMap Block.ops ++
          (blocks.drop r.segments.length).flatMap Block.ops := by
        rw [← List.flatMap_append, List.take_append_drop]
    _ = r.segments.flatMap Segment.body := by
        rw [hback, List.append_nil, List.flatMap_def, ← hfront, List.flatMap_def]

/-- How the blocks of a routine come from its stream. -/
structure Partitioned (r : Routine) (blocks : List (Block r.tempCount)) : Prop where
  length_numbers : r.numbers.length = r.relevant.length
  head?_numbers : r.numbers.head? = r.relevant.head?.map fun _ => 0
  /-- The number goes up by one at a cut, and nowhere else. -/
  next_number : ∀ {p m : Nat} {i j : Instr}, r.relevant[p]? = some i → r.relevant[p + 1]? = some j →
    r.numbers[p]? = some m → r.numbers[p + 1]? = some (m + if i.cuts j then 1 else 0)
  flatten_groups : r.groups.flatten.map Prod.fst = r.relevant
  /-- Group `k` has number `k` and becomes block `k`. -/
  group : ∀ {k : Nat} {group : List (Instr × Nat)}, r.groups[k]? = some group →
    (∀ p ∈ group, p.2 = k) ∧ ∃ b, blocks[k]? = some b ∧ b.number = k ∧
      b.ops.map .op = (group.map Prod.fst).filter (·.op?.isSome)
  length_blocks : blocks.length =
    r.groups.length + if r.relevant.getLast?.any Instr.isBranch then 1 else 0
  exit : ∀ {b : Block r.tempCount}, blocks[r.groups.length]? = some b →
    b.ops = [] ∧ b.terminator = .ret none
  bodies_eq : (blocks.flatMap fun b => b.ops.map .op) = r.relevant.filter (·.op?.isSome)
  ordinary : ∀ b ∈ blocks, ∀ o ∈ b.ops, (∀ x, Instr.op o ≠ .transfer x) ∧
    (∀ l, Instr.op o ≠ .mark l) ∧ ∀ text, Instr.op o ≠ .memo text
  targetsExist : TargetsExist blocks
  /-- A label is recorded for the group that the last mark of it opens. -/
  label : ∀ {l : Label}, l ∈ r.targets → .mark l ∈ r.code →
    ∃ k before marks work after, (r.placedLabels some)[l.slot]?.bind LabelInfo.block = some k ∧
      r.lastMarkNumber? l = some k ∧ r.Opens l k before marks work after

/-- **Cutting loses, doubles and moves nothing.** Instructions are numbered from the left, the
number goes up just behind transfers and in front of marks that follow an operation, and
instructions of number `k` become block `k`. -/
theorem partitioned_provisional (h : r.provisional = .ok blocks) : r.Partitioned blocks where
  length_numbers := length_numberFrom 0 true r.relevant
  head?_numbers := head?_numberFrom_true 0 r.relevant
  next_number := getElem?_numberFrom_succ fun _ => ne_memo_of_mem_relevant
  flatten_groups := by
    rw [List.map_flatten, map_fst_groups, ← flatMap_code_eq_relevant, List.flatMap_def]
  group := by
    intro k group hgroup
    obtain ⟨s, hs, rfl⟩ := exists_of_getElem?_groups hgroup
    obtain ⟨b, hb, hops, -⟩ := (r.cutInto_provisional h).block hs
    have hnumber : b.number = k := by
      obtain ⟨_, _, rfl⟩ := exists_blank_of_provisional h hb
      rfl
    refine ⟨by simp, b, hb, hnumber, ?_⟩
    rw [hops, ← Segment.filter_op?_code, List.map_map]
    exact congrArg _ (List.map_id _).symm
  length_blocks := by
    rw [length_provisional h, length_groups, ← flatMap_code_eq_relevant,
      Segment.any_getLast?_flatMap_code r.filled_segments.code_ne_nil]
  exit hb := by
    rw [length_groups] at hb
    exact (r.cutInto_provisional h).beyond (List.getElem?_eq_none (Nat.le_refl _)) hb
  bodies_eq := by
    rw [← List.map_flatMap, flatMap_ops_provisional h, List.map_flatMap,
      ← flatMap_code_eq_relevant, List.filter_flatMap]
    simp only [Segment.filter_op?_code]
  ordinary _ _ _ _ := ⟨nofun, nofun, nofun⟩
  targetsExist := targetsExist_provisional h
  label := by
    intro l hl hmark
    obtain ⟨k, hk⟩ := (exists_place?_iff hl).mpr hmark
    obtain ⟨before, marks, work, after, hopens⟩ := exists_opens hk
    refine ⟨k, before, marks, work, after, ?_, ?_, hopens⟩
    · rw [block_placedLabels, hk]
      rfl
    · rw [lastMarkNumber?_eq, hk]

/-- A routine with two marks in front, a memo that stands between an operation and a mark, a label
that is marked three times, and a branch at the end. -/
def patchwork : Routine where
  name := "patchwork"
  code := [
    .mark ⟨0⟩,
    .mark ⟨1⟩,
    .op (.param ⟨0⟩),
    .memo "again",
    .mark ⟨2⟩,
    .op (.param ⟨0⟩),
    .mark ⟨0⟩,
    .transfer (.jump ⟨1⟩),
    .mark ⟨0⟩,
    .transfer (.branch .zero ⟨0⟩ ⟨0⟩)]

theorem partitioned_provisional_patchwork :
    ∃ blocks, patchwork.provisional = .ok blocks ∧ patchwork.numbers = [0, 0, 0, 0, 1, 1, 2, 2] ∧
      patchwork.Partitioned blocks :=
  ⟨_, rfl, by decide, partitioned_provisional rfl⟩

end Routine

end FlowFacts
