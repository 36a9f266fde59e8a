import FlowFacts.Proofs.Liveness.Exact

/-!
# Liveness of lines, and how long it stays exact

The walk backwards through a block takes liveness from line to line as paths do. If the sets of the
blocks are exact, so are those of the lines that are derived from them.

Facts stay what they were until an analysis stores them anew. So exact facts stay exact as long as
the blocks do what they did, and by induction over histories fresh facts are exact.

## Main results

* `exactLineLiveness_setLineLiveness` — exact sets of blocks give exact sets of lines
* `Graph.Reachable.freshLiveness` — fresh liveness is exact
* `Graph.exists_perform_lineLiveness_exact` — after a solve, liveness of lines can be computed and is
  exact
-/

namespace FlowFacts

variable {n : Nat} {t : Temp} {blocks blocks' : List (Block n)} {b i : Nat} {block : Block n}

/-! ### Walking backwards -/

theorem Op.mem_liveBefore {o : Op} {out : TempSet n} :
    t ∈ o.liveBefore out ↔ t ∈ o.sources ∧ t.slot < n ∨ o.dest ≠ some t ∧ t ∈ out := by
  have herase : t ∈ o.dest.elim out out.erase ↔ o.dest ≠ some t ∧ t ∈ out := by
    cases o.dest with
    | none => simp
    | some d =>
      show t ∈ out.erase d ↔ _
      rw [TempSet.mem_erase, and_comm, ne_eq, ne_eq, Option.some_inj, eq_comm]
  rw [Op.liveBefore, TempSet.mem_insertAll, herase, or_comm]

theorem exists_of_annotate {out : TempSet n} {body : List (Line n)} {l' : Line n}
    (h : (annotate out body).1[i]? = some l') :
    ∃ l, body[i]? = some l ∧ l' = { l with liveOut := (annotate out (body.drop (i + 1))).2 } := by
  induction body generalizing i with
  | nil => cases h
  | cons l body ih =>
    cases i with
    | zero =>
      cases h
      exact ⟨l, rfl, rfl⟩
    | succ i => exact ih h

/-- Every set of the walk is exact if the first one is. -/
theorem mem_annotate_iff {out : TempSet n} (hb : blocks[b]? = some block)
    (hfit : ∀ {t : Temp} {p : Point}, Reads blocks t p → t.slot < n)
    (hout : ∀ {t : Temp}, t ∈ out ↔ LiveAt blocks t ⟨b, block.ops.length⟩)
    (hi : i ≤ block.ops.length) :
    t ∈ (annotate out (block.body.drop i)).2 ↔ LiveAt blocks t ⟨b, i⟩ := by
  refine block.backward_induction_le (P := fun i =>
    t ∈ (annotate out (block.body.drop i)).2 ↔ LiveAt blocks t ⟨b, i⟩) ?_ ?_ hi
  · rw [show block.ops.length = block.body.length from List.length_map _] at hout ⊢
    rw [List.drop_length]
    exact hout
  · intro i o ho ih
    obtain ⟨l, hl, rfl⟩ : ∃ l, block.body[i]? = some l ∧ l.op = o := by
      rw [Block.ops, List.getElem?_map] at ho
      exact Option.map_eq_some_iff.mp ho
    have hwalk : (annotate out (block.body.drop i)).2 =
        l.op.liveBefore (annotate out (block.body.drop (i + 1))).2 := by
      obtain ⟨hi, rfl⟩ := List.getElem?_eq_some_iff.mp hl
      rw [List.drop_eq_getElem_cons hi]
      rfl
    rw [hwalk, Op.mem_liveBefore, ih, liveAt_of_op_iff hb ho]
    refine or_congr_left (and_iff_left_of_imp fun ht => ?_)
    exact hfit ((reads_of_op_iff hb ho).mpr ht)

/-- The stored set of every line holds the temps that are live right behind it. -/
structure ExactLineLiveness (blocks : List (Block n)) : Prop where
  mem_liveOut_iff : ∀ {b i : Nat} {block : Block n} {line : Line n} {t : Temp},
    blocks[b]? = some block → block.body[i]? = some line →
      (t ∈ line.liveOut ↔ LiveAt blocks t ⟨b, i + 1⟩)

theorem exists_of_liveAt {p : Point} (h : LiveAt blocks t p) :
    ∃ block, blocks[p.block]? = some block := by
  obtain ⟨block, hb, -⟩ := liveFrom_of_liveAt (L := fun _ => True) (fun _ _ => trivial) h
  exact ⟨block, hb⟩

/-- What is live at the end of a block is what its terminator reads and what is live behind it. -/
theorem ExactLiveness.mem_liveAtEnd_iff (h : ExactLiveness blocks)
    (hfit : ∀ {t : Temp} {p : Point}, Reads blocks t p → t.slot < n)
    (hb : blocks[b]? = some block) :
    t ∈ block.liveAtEnd ↔ LiveAt blocks t ⟨b, block.ops.length⟩ := by
  rw [Block.liveAtEnd, TempSet.mem_insertAll, h.mem_liveOut_iff hb, liveAt_of_end_iff hb, or_comm,
    Option.mem_toList]
  refine or_congr ?_ ?_
  · exact and_iff_left_of_imp fun ht => hfit ((reads_of_end_iff hb).mpr ht)
  · refine exists_congr fun s => and_congr_right fun _ => ?_
    constructor
    · rintro ⟨next, hnext, ht⟩
      exact (h.mem_liveIn_iff hnext).mp ht
    · intro ht
      obtain ⟨next, hnext⟩ := exists_of_liveAt ht
      exact ⟨next, hnext, (h.mem_liveIn_iff hnext).mpr ht⟩

theorem exactLineLiveness_setLineLiveness (h : ExactLiveness blocks)
    (hfit : ∀ {t : Temp} {p : Point}, Reads blocks t p → t.slot < n) :
    ExactLineLiveness (blocks.map Block.setLineLiveness) := by
  constructor
  intro b i block' line t hb' hline
  rw [List.getElem?_map] at hb'
  obtain ⟨block, hb, rfl⟩ := Option.map_eq_some_iff.mp hb'
  obtain ⟨l, hl, rfl⟩ := exists_of_annotate hline
  have hlt : i + 1 ≤ block.ops.length := by
    rw [Block.ops, List.length_map]
    exact (List.getElem?_eq_some_iff.mp hl).1
  rw [(sameShape_setLineLiveness blocks).liveAt_iff]
  exact mem_annotate_iff hb hfit (h.mem_liveAtEnd_iff hfit hb) hlt

/-! ### Facts that stay -/

/-- Exact sets of blocks stay exact while the blocks and their sets stay. -/
theorem ExactLiveness.of_map_eq (h : ExactLiveness blocks) (hshape : SameShape blocks' blocks)
    (hsets : (blocks'.map fun b => (b.liveIn, b.liveOut)) =
      blocks.map fun b => (b.liveIn, b.liveOut)) : ExactLiveness blocks' := by
  constructor
  · intro b block' t hb'
    obtain ⟨block, hb, heq⟩ := exists_of_map_eq_map hsets hb'
    obtain ⟨hin, -⟩ := Prod.mk.inj heq
    rw [← hin, h.mem_liveIn_iff hb]
    exact hshape.symm.liveAt_iff
  · intro b block' t hb'
    obtain ⟨block, hb, heq⟩ := exists_of_map_eq_map hsets hb'
    obtain ⟨_, hb₂, -, hterm⟩ := hshape.exists_getElem? hb'
    obtain rfl := Option.some.inj (hb₂.symm.trans hb)
    obtain ⟨-, hout⟩ := Prod.mk.inj heq
    rw [← hout, h.mem_liveOut_iff hb, Block.successors, Block.successors, hterm]
    refine exists_congr fun s => and_congr_right fun _ => ?_
    constructor
    · rintro ⟨next, hnext, ht⟩
      obtain ⟨next', hnext', heq⟩ := exists_of_map_eq_map hsets.symm hnext
      exact ⟨next', hnext', (Prod.mk.inj heq).1 ▸ ht⟩
    · rintro ⟨next', hnext', ht⟩
      obtain ⟨next, hnext, heq⟩ := exists_of_map_eq_map hsets hnext'
      exact ⟨next, hnext, (Prod.mk.inj heq).1 ▸ ht⟩

/-- Exact sets of lines stay exact while the blocks and these sets stay. -/
theorem ExactLineLiveness.of_map_eq (h : ExactLineLiveness blocks)
    (hshape : SameShape blocks' blocks)
    (hsets : (blocks'.map fun b => b.body.map Line.liveOut) =
      blocks.map fun b => b.body.map Line.liveOut) : ExactLineLiveness blocks' := by
  constructor
  intro b i block' line' t hb' hline'
  obtain ⟨block, hb, heq⟩ := exists_of_map_eq_map hsets hb'
  obtain ⟨line, hline, hset⟩ := exists_of_map_eq_map heq.symm hline'
  rw [← hset, h.mem_liveOut_iff hb hline]
  exact hshape.symm.liveAt_iff

/-! ### Histories -/

namespace Graph

/-- Fresh liveness is exact, and lines have fresh facts only if blocks do. -/
structure FreshLiveness (g : Graph) (fresh : Analyses) : Prop where
  tempsFit : g.TempsFit
  blocks : fresh.contains .liveness = true → ExactLiveness g.blocks
  lines : fresh.contains .lineLiveness = true →
    fresh.contains .liveness = true ∧ ExactLineLiveness g.blocks

theorem freshLiveness_bare {r : Routine} {g : Graph} (h : bare r = .ok g) :
    g.FreshLiveness .none := by
  refine ⟨tempsFit_bare h, fun hfresh => ?_, fun hfresh => ?_⟩
  · exact absurd hfresh (by decide)
  · exact absurd hfresh (by decide)

section Step

variable {g g' : Graph} {fresh : Analyses} {c : Command}

theorem Step.exactLiveness (h : g.Step c g') (hg : g.FreshLiveness fresh)
    (hfresh : (c.refresh fresh).contains .liveness = true) : ExactLiveness g'.blocks := by
  cases h with
  | liveness hset => exact exactLiveness_setLiveness hg.tempsFit.slot_lt hset
  | lineLiveness =>
    have hold : fresh.contains .liveness = true := by
      rw [Command.refresh] at hfresh
      split at hfresh
      · assumption
      · exact hfresh
    exact (hg.blocks hold).of_map_eq (sameShape_setLineLiveness g.blocks) List.map_map
  | chains hset =>
    rw [Command.refresh, Analyses.contains_union_of_disjoint (by decide)] at hfresh
    exact (hg.blocks hfresh).of_map_eq (sameShape_setChains hset)
      (map_eq_of_setChains (f := fun _ b => (b.liveIn, b.liveOut)) (e := Line.op) hset
        (fun _ _ _ => rfl) fun _ _ => rfl)
  | insertion hins =>
    rw [Command.refresh_of_isInsertion hins] at hfresh
    exact absurd hfresh (by decide)
  | append =>
    exact (hg.blocks hfresh).of_map_eq (sameShape_append ..)
      (g.map_eq_of_append _ _ fun _ _ => rfl)

theorem Step.exactLineLiveness (h : g.Step c g') (hg : g.FreshLiveness fresh)
    (hfresh : (c.refresh fresh).contains .lineLiveness = true) :
    (c.refresh fresh).contains .liveness = true ∧ ExactLineLiveness g'.blocks := by
  cases h with
  | liveness hset =>
    rw [Command.refresh, Analyses.contains_union_of_disjoint (by decide)] at hfresh
    refine ⟨Analyses.contains_union_self .., ?_⟩
    exact (hg.lines hfresh).2.of_map_eq (sameShape_setLiveness hset)
      (map_eq_of_setLiveness hset fun _ _ _ _ => rfl)
  | lineLiveness =>
    -- the sets of the lines are stored anew, and fresh ones of the blocks are what they come from
    have hold : fresh.contains .liveness = true := by
      rw [Command.refresh] at hfresh
      split at hfresh
      · assumption
      · exact (hg.lines hfresh).1
    refine ⟨?_, exactLineLiveness_setLineLiveness (hg.blocks hold) hg.tempsFit.slot_lt⟩
    rw [Command.refresh, if_pos hold, Analyses.contains_union_of_disjoint (by decide)]
    exact hold
  | chains hset =>
    rw [Command.refresh, Analyses.contains_union_of_disjoint (by decide)] at hfresh ⊢
    obtain ⟨hold, hlines⟩ := hg.lines hfresh
    exact ⟨hold, hlines.of_map_eq (sameShape_setChains hset)
      (map_eq_of_setChains (f := fun sets _ => sets) (e := Line.liveOut) hset
        (fun _ _ _ => rfl) fun _ _ => rfl)⟩
  | insertion hins =>
    rw [Command.refresh_of_isInsertion hins] at hfresh
    exact absurd hfresh (by decide)
  | append =>
    obtain ⟨hold, hlines⟩ := hg.lines hfresh
    exact ⟨hold, hlines.of_map_eq (sameShape_append ..)
      (g.map_eq_of_append _ _ fun _ _ => rfl)⟩

/-- A command keeps fresh liveness exact. -/
theorem Step.freshLiveness (h : g.Step c g') (hg : g.FreshLiveness fresh) :
    g'.FreshLiveness (c.refresh fresh) :=
  ⟨h.tempsFit hg.tempsFit, h.exactLiveness hg, h.exactLineLiveness hg⟩

end Step

/-- Fresh liveness is exact, after any history. -/
theorem Reachable.freshLiveness {g : Graph} {fresh : Analyses} (h : g.Reachable fresh) :
    g.FreshLiveness fresh :=
  h.induction freshLiveness_bare fun hg hstep => hstep.freshLiveness hg

/-! ### Computing liveness of lines -/

end Graph

/-- Until there is an insertion, liveness of blocks stays fresh. -/
theorem Command.contains_refresh_liveness {c : Command} (hc : c.isInsertion = false)
    {fresh : Analyses} (h : fresh.contains .liveness = true) :
    (c.refresh fresh).contains .liveness = true := by
  cases c with
  | liveness limit => exact Analyses.contains_union_self ..
  | lineLiveness =>
    rw [refresh, if_pos h, Analyses.contains_union_of_disjoint (by decide)]
    exact h
  | chains =>
    rw [refresh, Analyses.contains_union_of_disjoint (by decide)]
    exact h
  | append b text => exact h
  | insertBefore b p i => cases hc
  | insertAfter b p i => cases hc

namespace Graph

/-- Liveness of blocks has been computed and is exact, and the blocks do what the given ones do. -/
structure Prepared (blocks : List (Block n)) (g : Graph) : Prop where
  tempsFit : g.TempsFit
  exactLiveness : ExactLiveness g.blocks
  computed : g.computed.contains .liveness = true
  sameShape : SameShape g.blocks blocks

theorem Prepared.freshLiveness {g : Graph} (h : g.Prepared blocks) : g.FreshLiveness .liveness :=
  ⟨h.tempsFit, fun _ => h.exactLiveness, fun hlines => absurd hlines (by decide)⟩

theorem Step.prepared {g g' : Graph} {c : Command} (h : g.Step c g') (hc : c.isInsertion = false)
    (hg : g.Prepared blocks) : g'.Prepared blocks where
  tempsFit := h.tempsFit hg.tempsFit
  exactLiveness :=
    h.exactLiveness hg.freshLiveness (Command.contains_refresh_liveness hc (by decide))
  computed := h.computed hc ▸ Command.contains_refresh_liveness hc hg.computed
  sameShape := (h.sameShape hc).trans hg.sameShape

/-- Solving for liveness prepares every graph. -/
theorem prepared_of_liveness {g g' : Graph} {fresh : Analyses} (hg : g.FreshLiveness fresh)
    {limit : Option Nat} {reply : Reply} (h : g.perform (.liveness limit) = .ok (reply, g')) :
    g'.Prepared g.blocks := by
  have hstep := step_of_perform h
  refine ⟨hstep.tempsFit hg.tempsFit, ?_, ?_, hstep.sameShape rfl⟩
  · exact hstep.exactLiveness hg (Analyses.contains_union_self ..)
  · exact hstep.computed rfl ▸ Analyses.contains_union_self ..

/-- **Liveness of lines is exact.** Take a graph after any history. If its liveness is solved and no
insertion follows, then liveness of lines can be computed, and holds the temps that may be read
before they are written on some path from right behind the line. -/
theorem exists_perform_lineLiveness_exact {r : Routine} {p : Plan} {g g₁ : Graph}
    (h : build r p = .ok g) (history : List Command) {limit : Option Nat} {reply : Reply}
    (hlive : (g.applyAll history).perform (.liveness limit) = .ok (reply, g₁))
    {between : List Command} (hbetween : ∀ c ∈ between, c.isInsertion = false) :
    ∃ g₂, (g₁.applyAll between).perform .lineLiveness = .ok (.done, g₂) ∧
      SameShape g₂.blocks (g.applyAll history).blocks ∧
      ∀ {b i : Nat} {block : Block g₂.tempCount} {line : Line g₂.tempCount} {t : Temp},
        g₂.blocks[b]? = some block → block.body[i]? = some line →
          (t ∈ line.liveOut ↔ LiveAt g₂.blocks t ⟨b, i + 1⟩) := by
  obtain ⟨fresh, hfresh⟩ : ∃ fresh, (g.applyAll history).FreshLiveness fresh :=
    applyAll_induction (P := fun g => ∃ fresh, g.FreshLiveness fresh)
      (fun _ ⟨_, hg⟩ hstep => ⟨_, hstep.freshLiveness hg⟩) ⟨_, (Reachable.built h).freshLiveness⟩
  have hprepared : (g₁.applyAll between).Prepared (g.applyAll history).blocks :=
    applyAll_induction (fun hc hg hstep => hstep.prepared (hbetween _ hc) hg)
      (prepared_of_liveness hfresh hlive)
  refine ⟨_, perform_lineLiveness hprepared.computed, ?_, ?_⟩
  · exact (sameShape_setLineLiveness _).trans hprepared.sameShape
  · exact (exactLineLiveness_setLineLiveness hprepared.exactLiveness
      hprepared.tempsFit.slot_lt).mem_liveOut_iff

end Graph

/-- Is the temp in the set that is stored for a line? -/
def Graph.storedLive? (g : Graph) (b i : Nat) (t : Temp) : Option Bool :=
  (g.blocks[b]?.bind fun block => block.body[i]?).map fun line => decide (t ∈ line.liveOut)

theorem Graph.storedLive?_eq_some_iff {g : Graph} {v : Bool} :
    g.storedLive? b i t = some v ↔ ∃ block line, g.blocks[b]? = some block ∧
      block.body[i]? = some line ∧ decide (t ∈ line.liveOut) = v := by
  simp only [storedLive?, Option.map_eq_some_iff, Option.bind_eq_some_iff]
  constructor
  · rintro ⟨line, ⟨block, hb, hline⟩, hv⟩
    exact ⟨block, line, hb, hline, hv⟩
  · rintro ⟨block, line, hb, hline, hv⟩
    exact ⟨line, ⟨block, hb, hline⟩, hv⟩

/-- What is inserted into `Routine.loop` in front is overwritten at once. -/
def Command.overwritten : List Command :=
  [.liveness none, .lineLiveness, .insertBefore 0 0 (.op (.const ⟨0⟩ (.int 1)))]

/-- The line that is inserted has no use. The temp that the loop subtracts is read the next time
around. -/
theorem Graph.exists_perform_lineLiveness_exact_loop :
    ∃ g g₁ g₂, build .loop .structureOnly = .ok g ∧
      (g.applyAll Command.overwritten).perform (.liveness none) = .ok (.count 5, g₁) ∧
      (g₁.applyAll [.chains]).perform .lineLiveness = .ok (.done, g₂) ∧
      ¬LiveAt g₂.blocks ⟨0⟩ ⟨0, 1⟩ ∧ LiveAt g₂.blocks ⟨1⟩ ⟨2, 1⟩ := by
  have hloop : (do
      let g ← build .loop .structureOnly
      let solved ← (g.applyAll Command.overwritten).perform (.liveness none)
      let walked ← (solved.2.applyAll [.chains]).perform .lineLiveness
      return (solved.1, walked.2.storedLive? 0 0 ⟨0⟩, walked.2.storedLive? 2 0 ⟨1⟩)) =
      .ok (.count 5, some false, some true) := by
    decide +kernel
  obtain ⟨g, hg, hloop⟩ := bind_eq_ok_iff.mp hloop
  obtain ⟨⟨_, g₁⟩, hg₁, hloop⟩ := bind_eq_ok_iff.mp hloop
  obtain ⟨⟨_, g₂⟩, hg₂, hloop⟩ := bind_eq_ok_iff.mp hloop
  obtain ⟨rfl, hstored⟩ := Prod.mk.inj (Except.ok.inj hloop)
  obtain ⟨hstored₀, hstored₂⟩ := Prod.mk.inj hstored
  obtain ⟨_, _, hblock₀, hline₀, hdead⟩ := storedLive?_eq_some_iff.mp hstored₀
  obtain ⟨_, _, hblock₂, hline₂, hlive⟩ := storedLive?_eq_some_iff.mp hstored₂
  have hbetween : ∀ c ∈ [Command.chains], c.isInsertion = false := by decide
  obtain ⟨_, hg₂', -, hexact⟩ :=
    exists_perform_lineLiveness_exact hg Command.overwritten hg₁ hbetween
  obtain ⟨rfl, rfl⟩ := Prod.mk.inj (Except.ok.inj (hg₂.symm.trans hg₂'))
  refine ⟨g, g₁, g₂, hg, hg₁, hg₂, fun hat => ?_, ?_⟩
  · exact of_decide_eq_false hdead ((hexact hblock₀ hline₀).mpr hat)
  · exact (hexact hblock₂ hline₂).mp (of_decide_eq_true hlive)

end FlowFacts
