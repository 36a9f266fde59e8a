import FlowFacts.Proofs.Attempts
import FlowFacts.Proofs.Execution.Simulation
import FlowFacts.Segment

/-!
# Blocks run like the stream they were cut from

Cutting loses no instruction that matters: the segments of a stream, written out one after the
other, are the stream again. So a place in the stream and a point in the blocks can be compared by
the code that lies ahead of them. They correspond if that code is the same, up to marks that control
is about to pass.

This is a simulation from the stream to the blocks. Marks and memos cost the stream a step and the
blocks none, so the rank is the number of instructions up to the end. Where a segment runs on into
the next one the blocks take a step of their own, which belongs to the next instruction that is not
a mark (`CutInto.settle`).

## Main results

* `Segment.flatMap_code_ofStream` — segments written out are the stream
* `Segment.exists_lastMark` — a label stands for the segment that begins behind its last mark
* `Routine.alike_provisional` — a routine runs like its provisional blocks
-/

namespace FlowFacts

/-! ### Segments as code -/

/-- Code without the marks in front. -/
def pastMarks (code : List Instr) : List Instr := code.dropWhile fun i => i.placed?.isSome

@[simp] theorem pastMarks_mark (l : Label) (code : List Instr) :
    pastMarks (.mark l :: code) = pastMarks code := rfl

@[simp] theorem pastMarks_marks (ls : List Label) (code : List Instr) :
    pastMarks (ls.map .mark ++ code) = pastMarks code := by
  induction ls with
  | nil => rfl
  | cons l ls ih => exact ih

theorem pastMarks_op (o : Op) (code : List Instr) :
    pastMarks (.op o :: code) = .op o :: code := rfl

namespace Segment

/-- The instructions of a segment behind its marks. -/
def work (s : Segment) : List Instr := s.body.map .op ++ s.exit.toList.map .transfer

/-- The instructions of a segment. -/
def code (s : Segment) : List Instr := s.marks.map .mark ++ s.work

theorem flatMap_code_prepend {i : Instr} (hi : ∀ text, i ≠ .memo text) (segments : List Segment) :
    (prepend i segments).flatMap code = i :: segments.flatMap code := by
  cases i with
  | op o =>
    cases segments with
    | nil => rfl
    | cons s rest =>
      by_cases hs : s.marks = []
      · simp [prepend, hs, code, work]
      · simp [prepend, hs, code, work]
  | transfer x => rfl
  | mark l => cases segments <;> rfl
  | memo text => exact absurd rfl (hi text)

/-- Segments written out one after the other are the stream. -/
theorem flatMap_code_ofStream {stream : List Instr} (h : ∀ i ∈ stream, ∀ text, i ≠ .memo text) :
    (ofStream stream).flatMap code = stream := by
  induction stream with
  | nil => rfl
  | cons i stream ih =>
    have hcons : ofStream (i :: stream) = prepend i (ofStream stream) := rfl
    rw [hcons, flatMap_code_prepend (h i List.mem_cons_self),
      ih fun j hj => h j (List.mem_cons_of_mem i hj)]

/-- The code ahead of a point, with the rest of the segment it is in and all that follow. -/
def ahead (segments : List Segment) (p : Point) : List Instr :=
  match segments[p.block]? with
  | none => []
  | some s =>
    (s.body.drop p.index).map .op ++ s.exit.toList.map .transfer ++
      (segments.drop (p.block + 1)).flatMap code

theorem ahead_of_none {segments : List Segment} {b : Nat} (hb : segments[b]? = none) (i : Nat) :
    ahead segments ⟨b, i⟩ = [] := by
  simp only [ahead, hb]

theorem ahead_of_op {segments : List Segment} {b i : Nat} {s : Segment} {o : Op}
    (hb : segments[b]? = some s) (ho : s.body[i]? = some o) :
    ahead segments ⟨b, i⟩ = .op o :: ahead segments ⟨b, i + 1⟩ := by
  obtain ⟨hi, rfl⟩ := List.getElem?_eq_some_iff.mp ho
  simp only [ahead, hb]
  rw [List.drop_eq_getElem_cons hi]
  rfl

theorem ahead_of_end {segments : List Segment} {b i : Nat} {s : Segment}
    (hb : segments[b]? = some s) (hi : s.body[i]? = none) :
    ahead segments ⟨b, i⟩ =
      s.exit.toList.map .transfer ++ (segments.drop (b + 1)).flatMap code := by
  simp only [ahead, hb]
  rw [List.drop_eq_nil_of_le (List.getElem?_eq_none_iff.mp hi)]
  rfl

/-- At the start of a segment lies what is left of the stream, without the marks. -/
theorem pastMarks_ahead_start (segments : List Segment) (b : Nat) :
    pastMarks (ahead segments (.start b)) = pastMarks ((segments.drop b).flatMap code) := by
  cases hb : segments[b]? with
  | none =>
    rw [List.drop_eq_nil_of_le (List.getElem?_eq_none_iff.mp hb)]
    exact congrArg pastMarks (ahead_of_none hb 0)
  | some s =>
    obtain ⟨hlt, rfl⟩ := List.getElem?_eq_some_iff.mp hb
    rw [List.drop_eq_getElem_cons hlt, List.flatMap_cons, code, List.append_assoc,
      pastMarks_marks]
    simp [ahead, Point.start, hb, work]

end Segment

/-! ### Where a label stands -/

/-- The last position with a property splits the list there. -/
theorem getLast?_filter_zipIdx {α : Type} {p : α → Bool} {l : List α} {k : Nat} :
    (l.zipIdx.filter fun q => p q.1).getLast?.map Prod.snd = some k ↔
      ∃ front a back, l = front ++ a :: back ∧ front.length = k ∧ p a = true ∧
        ∀ b ∈ back, p b = false := by
  constructor
  · intro h
    obtain ⟨⟨a, k'⟩, hlast, rfl⟩ := Option.map_eq_some_iff.mp h
    obtain ⟨ys, hys⟩ := List.getLast?_eq_some_iff.mp hlast
    obtain ⟨l₁, l₂, hl, -, h₂⟩ := List.filter_eq_append_iff.mp hys
    obtain ⟨m₁, m₂, rfl, -, ha, hm₂⟩ := List.filter_eq_cons_iff.mp h₂
    rw [← List.append_assoc] at hl
    obtain ⟨front, rest, rfl, hfront, hrest⟩ := List.zipIdx_eq_append_iff.mp hl
    obtain ⟨a', back, rfl, hak, rfl⟩ := List.zipIdx_eq_cons_iff.mp hrest.symm
    obtain ⟨rfl, rfl⟩ := Prod.mk.inj hak
    refine ⟨front, a, back, rfl, by simp, ha, fun b hb => ?_⟩
    obtain ⟨j, hj⟩ := List.getElem?_of_mem hb
    have hmem : (b, 0 + front.length + 1 + j) ∈ back.zipIdx (0 + front.length + 1) :=
      List.mem_of_getElem? (i := j) (by rw [List.getElem?_zipIdx, hj]; rfl)
    simpa using List.filter_eq_nil_iff.mp hm₂ _ hmem
  · rintro ⟨front, a, back, rfl, rfl, ha, hback⟩
    have hnil : ((back.zipIdx (0 + front.length + 1)).filter fun q => p q.1) = [] := by
      refine List.filter_eq_nil_iff.mpr fun q hq => ?_
      have hq' : q.1 ∈ back := by
        obtain ⟨j, hj⟩ := List.getElem?_of_mem hq
        rw [List.getElem?_zipIdx] at hj
        obtain ⟨b, hb, rfl⟩ := Option.map_eq_some_iff.mp hj
        exact List.mem_of_getElem? hb
      simp [hback q.1 hq']
    rw [List.zipIdx_append, List.filter_append, List.zipIdx_cons, List.filter_cons, hnil]
    simp [ha]

theorem lastMark?_eq_some_iff {code : List Instr} {l : Label} {i : Nat} :
    lastMark? code l = some i ↔
      ∃ front back, code = front ++ .mark l :: back ∧ front.length = i ∧ .mark l ∉ back := by
  refine (getLast?_filter_zipIdx (p := fun j => decide (j = Instr.mark l))).trans ⟨?_, ?_⟩
  · rintro ⟨front, j, back, hcode, hi, hj, hback⟩
    obtain rfl : j = .mark l := of_decide_eq_true hj
    exact ⟨front, back, hcode, hi, fun hmem => by simpa using hback _ hmem⟩
  · rintro ⟨front, back, hcode, hi, hback⟩
    refine ⟨front, .mark l, back, hcode, hi, decide_eq_true rfl, fun j hj => decide_eq_false ?_⟩
    rintro rfl
    exact hback hj

namespace Segment

theorem place?_eq_some_iff {segments : List Segment} {l : Label} {k : Nat} :
    place? segments l = some k ↔
      ∃ front s back, segments = front ++ s :: back ∧ front.length = k ∧ l ∈ s.marks ∧
        ∀ t ∈ back, l ∉ t.marks := by
  refine (getLast?_filter_zipIdx (p := fun s : Segment => s.marks.contains l)).trans ?_
  simp only [List.contains_iff_mem, ← Bool.not_eq_true]

theorem mark_mem_code {s : Segment} {l : Label} : .mark l ∈ s.code ↔ l ∈ s.marks := by
  simp [code, work]

/-- A list that holds a member ends in a stretch without it. -/
theorem exists_last_of_mem {α : Type} {l : List α} {a : α} (h : a ∈ l) :
    ∃ front back, l = front ++ a :: back ∧ a ∉ back := by
  obtain ⟨as, bs, hl, ha⟩ := List.eq_append_cons_of_mem (List.mem_reverse.mpr h)
  refine ⟨bs.reverse, as.reverse, ?_, by simpa using ha⟩
  rw [← List.reverse_reverse l, hl]
  simp

/-- The code of the segment that a label stands for begins with marks, the last mark of the label
among them. -/
theorem exists_split_of_place? {segments : List Segment} {l : Label} {k : Nat}
    (hk : place? segments l = some k) :
    ∃ front s back ls ms, segments = front ++ s :: back ∧ front.length = k ∧
      s.marks = ls ++ l :: ms ∧ .mark l ∉ ms.map .mark ++ (s.work ++ back.flatMap code) := by
  obtain ⟨front, s, back, rfl, rfl, hs, hback⟩ := place?_eq_some_iff.mp hk
  obtain ⟨ls, ms, hmarks, hms⟩ := exists_last_of_mem hs
  refine ⟨front, s, back, ls, ms, rfl, rfl, hmarks, ?_⟩
  simp only [List.mem_append, List.mem_map, List.mem_flatMap, not_or]
  refine ⟨?_, by simp [work], ?_⟩
  · rintro ⟨l', hl', h⟩
    cases h
    exact hms hl'
  · rintro ⟨t, ht, hmem⟩
    exact hback t ht (mark_mem_code.mp hmem)

/-- The code behind the last mark of a label is that of the segment it stands for. The stream may
hold more than the segments, but not more marks of the label. -/
theorem exists_lastMark {segments : List Segment} {stream : List Instr} {keep : Instr → Bool}
    (hcode : segments.flatMap code = stream.filter keep) {l : Label} (hl : keep (.mark l) = true)
    {k : Nat} (hk : place? segments l = some k) :
    ∃ i, lastMark? stream l = some i ∧
      pastMarks ((stream.drop i).filter keep) = pastMarks (ahead segments (.start k)) := by
  obtain ⟨front, s, back, ls, ms, rfl, rfl, hmarks, hno⟩ := exists_split_of_place? hk
  -- the kept stream, split at the last mark of the label
  have hsplit : stream.filter keep = (front.flatMap code ++ ls.map .mark) ++
      .mark l :: (ms.map .mark ++ (s.work ++ back.flatMap code)) := by
    rw [← hcode]
    simp [code, hmarks]
  obtain ⟨c₁, c₂, rfl, -, h₂⟩ := List.filter_eq_append_iff.mp hsplit
  obtain ⟨d₁, d₂, rfl, -, -, hd₂⟩ := List.filter_eq_cons_iff.mp h₂
  refine ⟨(c₁ ++ d₁).length, ?_, ?_⟩
  · refine lastMark?_eq_some_iff.mpr ⟨c₁ ++ d₁, d₂, by simp, rfl, fun hmem => hno ?_⟩
    rw [← hd₂]
    exact List.mem_filter.mpr ⟨hmem, hl⟩
  · rw [← List.append_assoc, List.drop_left, List.filter_cons_of_pos hl, hd₂, pastMarks_mark,
      pastMarks_marks, pastMarks_ahead_start, List.drop_left, List.flatMap_cons, code,
      List.append_assoc, pastMarks_marks]

end Segment

/-! ### Blocks cut from segments -/

@[simp] theorem Block.ops_blank (n k : Nat) (ops : List Op) (x : Terminator) :
    (Block.blank n k ops x).ops = ops := by
  have hop : Line.op ∘ Line.blank n = id := rfl
  simp [Block.ops, Block.blank, hop]

/-- Every segment has its block, and beyond them there is at most an empty one that returns. -/
structure CutInto {n : Nat} (segments : List Segment) (blocks : List (Block n)) : Prop where
  block : ∀ {k : Nat} {s : Segment}, segments[k]? = some s →
    ∃ b, blocks[k]? = some b ∧ b.ops = s.body ∧ s.terminator segments k = .ok b.terminator
  beyond : ∀ {k : Nat} {b : Block n}, segments[k]? = none → blocks[k]? = some b →
    b.ops = [] ∧ b.terminator = .ret none

theorem Routine.cutInto_provisional {r : Routine} {blocks : List (Block r.tempCount)}
    (h : r.provisional = .ok blocks) : CutInto r.segments blocks := by
  obtain ⟨cut, hcut, hblocks⟩ := bind_eq_ok_iff.mp h
  have hlen : cut.length = r.segments.length := by simpa using length_of_mapM hcut
  have hget : ∀ k, k < cut.length → blocks[k]? = cut[k]? := by
    intro k hk
    cases hblocks
    split
    · exact List.getElem?_append_left hk
    · rfl
  refine ⟨fun {k s} hs => ?_, fun {k b} hk hb => ?_⟩
  · have hlt : k < cut.length := hlen ▸ (List.getElem?_eq_some_iff.mp hs).1
    have hz : r.segments.zipIdx[k]? = some (s, k) := by simp [List.getElem?_zipIdx, hs]
    obtain ⟨b, hb, hbk⟩ := getElem?_of_mapM hcut hz
    obtain ⟨x, hx, rfl⟩ := map_eq_ok_iff.mp hb
    exact ⟨_, (hget k hlt).trans hbk, Block.ops_blank .., hx⟩
  · have hle : cut.length ≤ k := hlen ▸ List.getElem?_eq_none_iff.mp hk
    cases hblocks
    split at hb
    · rw [List.getElem?_append_right hle] at hb
      obtain ⟨-, rfl⟩ : k - cut.length = 0 ∧ b = Segment.exitBlock _ r.segments := by
        simpa [List.getElem?_singleton, eq_comm] using hb
      exact ⟨Block.ops_blank .., rfl⟩
    · rw [List.getElem?_eq_none hle] at hb
      cases hb

/-- A run that has come to an instruction that is not a mark, or to the end of all code. The code
from there on is given. -/
inductive Settled {n : Nat} {σ : Type} (segments : List Segment) (blocks : List (Block n)) (s : σ)
    (ops : List Op) : List Instr → Run Point σ → Prop
  | halted : Settled segments blocks s ops [] ⟨.halted none, s, ops⟩
  | op {b i : Nat} {block : Block n} {o : Op} (hblock : blocks[b]? = some block)
      (ho : block.ops[i]? = some o) :
      Settled segments blocks s ops (.op o :: Segment.ahead segments ⟨b, i + 1⟩)
        ⟨.running ⟨b, i⟩, s, ops⟩
  | transfer {b i : Nat} {block : Block n} {seg : Segment} {x : Transfer}
      (hblock : blocks[b]? = some block) (hi : block.ops[i]? = none) (hx : seg.exit = some x)
      (hterm : seg.terminator segments b = .ok block.terminator) :
      Settled segments blocks s ops (.transfer x :: (segments.drop (b + 1)).flatMap Segment.code)
        ⟨.running ⟨b, i⟩, s, ops⟩

/-- Where a segment runs on or past the end, control moves on to an instruction that is not a mark,
or stops if there is none. It carries out nothing on the way. -/
theorem CutInto.settle {n : Nat} {σ : Type} {segments : List Segment} {blocks : List (Block n)}
    (h : CutInto segments blocks) (m : Interpretation σ) (p : Point) (s : σ) (ops : List Op) :
    ∃ j, Settled segments blocks s ops (pastMarks (Segment.ahead segments p))
      ((Block.machine m blocks).course ⟨.running p, s, ops⟩ j) := by
  obtain ⟨b, i⟩ := p
  -- the segments that are left go down by one for each that runs on
  induction hd : segments.length - b generalizing b i with
  | zero =>
    have hb : segments[b]? = none := List.getElem?_eq_none (by omega)
    have hhalt : (Block.machine m blocks).step ⟨.running ⟨b, i⟩, s, ops⟩ =
        ⟨.halted none, s, ops⟩ := by
      cases hblock : blocks[b]? with
      | none => exact Block.step_of_none m hblock s ops
      | some block =>
        obtain ⟨hops, hret⟩ := h.beyond hb hblock
        refine (Block.step_of_end m hblock (by rw [hops]; rfl) s ops).trans ?_
        rw [hret]
        rfl
    refine ⟨1, ?_⟩
    rw [Segment.ahead_of_none hb, Machine.course_succ]
    exact hhalt ▸ .halted
  | succ d ih =>
    obtain ⟨seg, hseg⟩ : ∃ seg, segments[b]? = some seg :=
      ⟨_, List.getElem?_eq_getElem (by omega)⟩
    obtain ⟨block, hblock, hops, hterm⟩ := h.block hseg
    cases ho : seg.body[i]? with
    | some o =>
      refine ⟨0, ?_⟩
      rw [Segment.ahead_of_op hseg ho, pastMarks_op]
      exact .op hblock (hops ▸ ho)
    | none =>
      have hend : block.ops[i]? = none := hops ▸ ho
      rw [Segment.ahead_of_end hseg ho]
      cases hx : seg.exit with
      | some x => exact ⟨0, .transfer hblock hend hx hterm⟩
      | none =>
        have hstep : (Block.machine m blocks).step ⟨.running ⟨b, i⟩, s, ops⟩ =
            Block.leave m ⟨.running ⟨b, i⟩, s, ops⟩ block.terminator :=
          Block.step_of_end m hblock hend s ops
        by_cases hlast : b + 1 < segments.length
        · have hjump : block.terminator = .jump (b + 1) := by
            simpa [Segment.terminator, hx, hlast] using hterm.symm
          obtain ⟨j, hj⟩ := ih (b + 1) 0 (by omega)
          refine ⟨1 + j, ?_⟩
          have hfirst : (Block.machine m blocks).course ⟨.running ⟨b, i⟩, s, ops⟩ 1 =
              ⟨.running ⟨b + 1, 0⟩, s, ops⟩ := hstep.trans (by rw [hjump]; rfl)
          rw [Machine.course_add, hfirst]
          exact Segment.pastMarks_ahead_start segments (b + 1) ▸ hj
        · have hret : block.terminator = .ret none := by
            simpa [Segment.terminator, hx, hlast] using hterm.symm
          refine ⟨1, ?_⟩
          have hfirst : (Block.machine m blocks).course ⟨.running ⟨b, i⟩, s, ops⟩ 1 =
              ⟨.halted none, s, ops⟩ := hstep.trans (by rw [hret]; rfl)
          rw [hfirst, List.drop_eq_nil_of_le (by omega)]
          exact .halted

/-! ### The simulation -/

namespace Routine

variable {σ : Type} {r : Routine}

/-- The instructions that are kept when the stream is cut. -/
def keeps (r : Routine) (i : Instr) : Bool := i.isRelevant r.targets

/-- The code ahead of a position of the stream is that ahead of a point of the blocks. The rank is
the number of instructions up to the end. -/
def Corresponds (r : Routine) (k pc : Nat) (p : Point) : Prop :=
  k = r.code.length - pc ∧
    pastMarks ((r.code.drop pc).filter r.keeps) = pastMarks (Segment.ahead r.segments p)

/-- Segments of what is kept of some code, written out one after the other, are what is kept. -/
theorem flatMap_code_kept (r : Routine) (code : List Instr) :
    (Segment.ofStream (code.filter r.keeps)).flatMap Segment.code = code.filter r.keeps := by
  refine Segment.flatMap_code_ofStream fun i hi text h => ?_
  subst h
  simpa [keeps, Instr.isRelevant] using (List.mem_filter.mp hi).2

theorem flatMap_code_segments (r : Routine) :
    r.segments.flatMap Segment.code = r.code.filter r.keeps :=
  r.flatMap_code_kept r.code

theorem mem_of_mem_code {code : List Instr} {s : Segment} {i : Instr}
    (hs : s ∈ Segment.ofStream (code.filter r.keeps)) (hi : i ∈ s.code) : i ∈ code := by
  have hmem : i ∈ code.filter r.keeps :=
    r.flatMap_code_kept code ▸ List.mem_flatMap.mpr ⟨s, hs, hi⟩
  exact (List.mem_filter.mp hmem).1

theorem corresponds_start (r : Routine) : r.Corresponds r.code.length 0 (.start 0) := by
  refine ⟨rfl, ?_⟩
  rw [Segment.pastMarks_ahead_start, List.drop_zero, List.drop_zero, flatMap_code_segments]

/-- A label that a transfer of the stream goes to is kept wherever it is marked. -/
theorem keeps_mark {pc : Nat} {x : Transfer} {l : Label} (hpc : r.code[pc]? = some (.transfer x))
    (hl : x.target? = some l) : r.keeps (.mark l) = true := by
  have hmem : l ∈ r.targets := List.mem_filterMap.mpr ⟨_, List.mem_of_getElem? hpc, hl⟩
  simpa [keeps, Instr.isRelevant] using hmem

/-- A branch that is taken keeps the two places in correspondence. -/
theorem corresponds_goto {pc : Nat} {x : Transfer} {l : Label} {t : Nat}
    (hpc : r.code[pc]? = some (.transfer x)) (hl : x.target? = some l)
    (ht : Segment.resolve r.segments l = .ok t) (run : Run Nat σ) :
    ∃ k pc', goto r.code run l = run.goto pc' ∧ r.Corresponds k pc' (.start t) := by
  have hplace : Segment.place? r.segments l = some t := by
    unfold Segment.resolve at ht
    split at ht
    · cases ht
      assumption
    · cases ht
  obtain ⟨i, hi, hcode⟩ :=
    Segment.exists_lastMark (flatMap_code_segments r) (keeps_mark hpc hl) hplace
  exact ⟨_, i, by simp only [goto, hi, Option.elim], rfl, hcode⟩

/-- Control leaves the stream and the blocks by a transfer in the same way. -/
theorem related_leave (m : Interpretation σ) {pc b i : Nat} {x : Transfer} {seg : Segment}
    {terminator : Terminator} (hpc : r.code[pc]? = some (.transfer x)) (hx : seg.exit = some x)
    (hterm : seg.terminator r.segments b = .ok terminator)
    (hnext : (r.code.drop (pc + 1)).filter r.keeps =
      (r.segments.drop (b + 1)).flatMap Segment.code) (s : σ) (ops : List Op) :
    ∃ k, Related r.Corresponds k ((Routine.machine m r.code).step ⟨.running pc, s, ops⟩)
      (Block.leave m ⟨.running ⟨b, i⟩, s, ops⟩ terminator) := by
  simp only [Routine.step_machine, step, exec, hpc]
  cases x with
  | ret v =>
    obtain rfl : .ret v = terminator := by simpa [Segment.terminator, hx] using hterm
    exact ⟨0, .halted⟩
  | jump l =>
    simp only [Segment.terminator, hx] at hterm
    obtain ⟨t, ht, rfl⟩ := map_eq_ok_iff.mp hterm
    obtain ⟨k, pc', hgoto, hcorr⟩ :=
      corresponds_goto hpc rfl ht (⟨.running pc, s, ops⟩ : Run Nat σ)
    simp only [hgoto]
    exact ⟨k, .running hcorr⟩
  | branch test c l =>
    simp only [Segment.terminator, hx] at hterm
    obtain ⟨t, ht, rfl⟩ := map_eq_ok_iff.mp hterm
    simp only [Block.leave]
    cases m.takes test c s with
    | true =>
      obtain ⟨k, pc', hgoto, hcorr⟩ :=
        corresponds_goto hpc rfl ht (⟨.running pc, s, ops⟩ : Run Nat σ)
      simp only [hgoto]
      exact ⟨k, .running hcorr⟩
    | false =>
      refine ⟨_, .running ⟨rfl, ?_⟩⟩
      rw [hnext]
      exact (Segment.pastMarks_ahead_start r.segments (b + 1)).symm

/-- The blocks wait while the stream passes an instruction that does nothing. -/
theorem answers_silent (m : Interpretation σ) {blocks : List (Block r.tempCount)} {k pc : Nat}
    {p : Point} {s : σ} {ops : List Op} (hlt : pc < r.code.length)
    (hstep : Routine.step m r.code ⟨.running pc, s, ops⟩ = ⟨.running (pc + 1), s, ops⟩)
    (hsame : pastMarks ((r.code.drop (pc + 1)).filter r.keeps) =
      pastMarks ((r.code.drop pc).filter r.keeps)) (h : r.Corresponds k pc p) :
    Answers (Routine.machine m r.code) (Block.machine m blocks) r.Corresponds k pc p s ops := by
  obtain ⟨rfl, hahead⟩ := h
  refine .inr ⟨r.code.length - (pc + 1), by omega, ?_⟩
  rw [Routine.step_machine, hstep]
  exact .running ⟨rfl, hsame.trans hahead⟩

section Settled

variable (m : Interpretation σ) {blocks : List (Block r.tempCount)} {k j pc : Nat} {p : Point}
  {s : σ} {ops : List Op}

theorem answers_end (hpc : r.code[pc]? = none)
    (hj : Settled r.segments blocks s ops []
      ((Block.machine m blocks).course ⟨.running p, s, ops⟩ j)) :
    Answers (Routine.machine m r.code) (Block.machine m blocks) r.Corresponds k pc p s ops := by
  generalize hrun : (Block.machine m blocks).course ⟨.running p, s, ops⟩ j = run at hj
  cases hj
  cases j with
  | zero => cases hrun
  | succ j =>
    refine .inl ⟨0, j, ?_⟩
    rw [hrun, Routine.step_machine, Routine.step_of_none m hpc]
    exact .halted

theorem answers_op {o : Op} (hpc : r.code[pc]? = some (.op o))
    (hj : Settled r.segments blocks s ops (.op o :: (r.code.drop (pc + 1)).filter r.keeps)
      ((Block.machine m blocks).course ⟨.running p, s, ops⟩ j)) :
    Answers (Routine.machine m r.code) (Block.machine m blocks) r.Corresponds k pc p s ops := by
  generalize hrun : (Block.machine m blocks).course ⟨.running p, s, ops⟩ j = run at hj
  generalize hcode : Instr.op o :: (r.code.drop (pc + 1)).filter r.keeps = code at hj
  cases hj with
  | halted => cases hcode
  | transfer => cases hcode
  | op hblock ho =>
    obtain ⟨hop, hrest⟩ := List.cons.inj hcode
    cases hop
    refine .inl ⟨r.code.length - (pc + 1), j, ?_⟩
    rw [Machine.course_succ, hrun, Routine.step_machine, Routine.step_of_op m hpc,
      Block.step_machine, Block.step_of_op m hblock ho]
    exact .running ⟨rfl, congrArg pastMarks hrest⟩

theorem answers_transfer {x : Transfer} (hpc : r.code[pc]? = some (.transfer x))
    (hj : Settled r.segments blocks s ops (.transfer x :: (r.code.drop (pc + 1)).filter r.keeps)
      ((Block.machine m blocks).course ⟨.running p, s, ops⟩ j)) :
    Answers (Routine.machine m r.code) (Block.machine m blocks) r.Corresponds k pc p s ops := by
  generalize hrun : (Block.machine m blocks).course ⟨.running p, s, ops⟩ j = run at hj
  generalize hcode : Instr.transfer x :: (r.code.drop (pc + 1)).filter r.keeps = code at hj
  cases hj with
  | halted => cases hcode
  | op => cases hcode
  | transfer hblock hi hx hterm =>
    obtain ⟨hexit, hrest⟩ := List.cons.inj hcode
    cases hexit
    obtain ⟨k', hk'⟩ := related_leave m hpc hx hterm hrest s ops
    refine .inl ⟨k', j, ?_⟩
    rw [Machine.course_succ, hrun, Block.step_machine, Block.step_of_end m hblock hi]
    exact hk'

end Settled

/-- The blocks follow the stream. -/
theorem simulation (m : Interpretation σ) {blocks : List (Block r.tempCount)}
    (h : r.provisional = .ok blocks) :
    Simulation (Routine.machine m r.code) (Block.machine m blocks) r.Corresponds := by
  refine ⟨fun {k pc p} hcorr s ops => ?_⟩
  obtain ⟨j, hj⟩ := (cutInto_provisional h).settle m p s ops
  rw [← hcorr.2] at hj
  cases hpc : r.code[pc]? with
  | none =>
    rw [List.drop_eq_nil_of_le (List.getElem?_eq_none_iff.mp hpc)] at hj
    exact answers_end m hpc hj
  | some i =>
    obtain ⟨hlt, hget⟩ := List.getElem?_eq_some_iff.mp hpc
    have hdrop : r.code.drop pc = i :: r.code.drop (pc + 1) := by
      rw [List.drop_eq_getElem_cons hlt, hget]
    cases i with
    | memo text =>
      refine answers_silent m hlt (Routine.step_of_memo m hpc s ops) ?_ hcorr
      rw [hdrop]
      rfl
    | mark l =>
      refine answers_silent m hlt (Routine.step_of_mark m hpc s ops) ?_ hcorr
      rw [hdrop, List.filter_cons]
      split <;> rfl
    | op o =>
      rw [hdrop] at hj
      exact answers_op m hpc hj
    | transfer x =>
      rw [hdrop] at hj
      exact answers_transfer m hpc hj

/-- **Cutting.** A routine runs like its provisional blocks. -/
theorem alike_provisional (m : Interpretation σ) {blocks : List (Block r.tempCount)}
    (h : r.provisional = .ok blocks) (s : σ) :
    Alike (Routine.run m r.code s) (Block.run m blocks (.start 0) s) := by
  rw [Routine.run_eq_course, Block.run_eq_course]
  exact (simulation m h).alike (.running (corresponds_start r))

end Routine

end FlowFacts
