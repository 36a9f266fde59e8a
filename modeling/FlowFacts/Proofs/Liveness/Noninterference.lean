import FlowFacts.Proofs.Liveness.Fresh

/-!
# Dead temps do not matter

A temp that is not live at a point can have any value there: nothing that happens afterwards depends
on it. This is what lets two temps share a register if they are never live together.

Operations are taken to act through a state that consists of a world and a value for every temp. An
interpretation is local if operations see and change no more of it than their operands say. Two runs
from states that agree on the world and on the live temps then go the same way. What is carried from
step to step is agreement on the temps that are live where control stands, and a step never needs
another value, because what it reads is live.

## Main results

* `AgreeLive.step`, `AgreeLive.run` — agreement on live temps is kept by a step and by a run
* `Graph.agree_of_fresh` — stored live sets are enough to agree on
-/

namespace FlowFacts

variable {ω ν : Type} {n : Nat}

/-- A state in which temps have values, beside everything else that operations act on. -/
structure Store (ω ν : Type) where
  world : ω
  value : Temp → ν

/-- Operations see the world and the values of their sources, and change the world and the value of
the temp that they write. Tests see the world and the value of their temp. -/
structure Interpretation.Local (m : Interpretation (Store ω ν)) : Prop where
  world_eq : ∀ {o : Op} {s s' : Store ω ν}, s.world = s'.world →
    (∀ t ∈ o.sources, s.value t = s'.value t) → (m.effect o s).world = (m.effect o s').world
  dest_eq : ∀ {o : Op} {s s' : Store ω ν} {d : Temp}, s.world = s'.world →
    (∀ t ∈ o.sources, s.value t = s'.value t) → o.dest = some d →
      (m.effect o s).value d = (m.effect o s').value d
  value_eq : ∀ {o : Op} {s : Store ω ν} {t : Temp}, o.dest ≠ some t →
    (m.effect o s).value t = s.value t
  isZero_eq : ∀ {s s' : Store ω ν} {c : Temp}, s.world = s'.world → s.value c = s'.value c →
    m.isZero c s = m.isZero c s'

/-- Two runs that cannot be told apart: control stands at the same point or has stopped with the
same result, the same operations have been carried out, and the world is the same. A result is a
temp, so it is the value of that temp that counts. -/
structure Run.Agree (r r' : Run Point (Store ω ν)) : Prop where
  control : r.control = r'.control
  executed : r.executed = r'.executed
  world : r.state.world = r'.state.world
  result : ∀ v, r.control = .halted (some v) → r.state.value v = r'.state.value v

/-! ### Agreement on live temps -/

/-- Control stands at a point of a block or has stopped, and the two states agree on the temps that
are live there. -/
def LiveControl (blocks : List (Block n)) (s s' : Store ω ν) : Control Point → Prop
  | .running p =>
    (∀ {block}, blocks[p.block]? = some block → p.index ≤ block.ops.length) ∧
      ∀ t, LiveAt blocks t p → s.value t = s'.value t
  | .halted v => ∀ t, v = some t → s.value t = s'.value t

/-- The runs cannot be told apart, and never will be. -/
structure AgreeLive (blocks : List (Block n)) (r r' : Run Point (Store ω ν)) : Prop where
  control : r.control = r'.control
  executed : r.executed = r'.executed
  world : r.state.world = r'.state.world
  live : LiveControl blocks r.state r'.state r.control

variable {blocks : List (Block n)} {m : Interpretation (Store ω ν)} {b i : Nat}
  {block : Block n} {s s' : Store ω ν} {ops : List Op}

theorem AgreeLive.agree {r r' : Run Point (Store ω ν)} (h : AgreeLive blocks r r') :
    r.Agree r' := by
  refine ⟨h.control, h.executed, h.world, fun v hv => ?_⟩
  have hlive := h.live
  rw [hv] at hlive
  exact hlive v rfl

/-- An operation sees only temps that are live in front of it. -/
theorem agreeLive_execute (hm : m.Local) {o : Op} (hb : blocks[b]? = some block)
    (ho : block.ops[i]? = some o) (hw : s.world = s'.world)
    (hlive : ∀ t, LiveAt blocks t ⟨b, i⟩ → s.value t = s'.value t) :
    AgreeLive blocks ⟨.running ⟨b, i + 1⟩, m.effect o s, ops ++ [o]⟩
      ⟨.running ⟨b, i + 1⟩, m.effect o s', ops ++ [o]⟩ := by
  have hsources : ∀ t ∈ o.sources, s.value t = s'.value t := fun t ht =>
    hlive t ((liveAt_of_op_iff hb ho).mpr (.inl ht))
  refine ⟨rfl, rfl, hm.world_eq hw hsources, fun {block'} hb' => ?_, fun t ht => ?_⟩
  · obtain rfl := Option.some.inj (hb'.symm.trans hb)
    exact (List.getElem?_eq_some_iff.mp ho).1
  · by_cases hd : o.dest = some t
    · exact hm.dest_eq hw hsources hd
    · have hold : s.value t = s'.value t := hlive t ((liveAt_of_op_iff hb ho).mpr (.inr ⟨hd, ht⟩))
      show (m.effect o s).value t = (m.effect o s').value t
      rw [hm.value_eq hd, hm.value_eq hd, hold]

/-- A terminator sees only temps that are live at the end of its block. -/
theorem agreeLive_leave (hm : m.Local) (hb : blocks[b]? = some block)
    (hw : s.world = s'.world)
    (hlive : ∀ t, LiveAt blocks t ⟨b, block.ops.length⟩ → s.value t = s'.value t) :
    AgreeLive blocks
      (Block.leave m ⟨.running ⟨b, block.ops.length⟩, s, ops⟩ block.terminator)
      (Block.leave m ⟨.running ⟨b, block.ops.length⟩, s', ops⟩ block.terminator) := by
  have hoperand : ∀ t, block.operand = some t → s.value t = s'.value t := fun t ht =>
    hlive t ((liveAt_of_end_iff hb).mpr (.inl ht))
  have hstart : ∀ d ∈ block.successors, AgreeLive blocks ⟨.running (.start d), s, ops⟩
      ⟨.running (.start d), s', ops⟩ := by
    intro d hd
    refine ⟨rfl, rfl, hw, fun _ => Nat.zero_le _, fun t ht => ?_⟩
    exact hlive t ((liveAt_of_end_iff hb).mpr (.inr ⟨d, hd, ht⟩))
  rw [Block.operand] at hoperand
  rw [Block.successors] at hstart
  cases hterm : block.terminator with
  | jump d => exact hstart d (by simp [hterm, Terminator.successors])
  | branch test c d f =>
    have hzero : m.isZero c s = m.isZero c s' :=
      hm.isZero_eq hw (hoperand c (by simp [hterm, Terminator.operand]))
    have htakes : m.takes test c s = m.takes test c s' := by
      cases test <;> simp only [Interpretation.takes, hzero]
    show AgreeLive blocks ⟨.running (.start (if m.takes test c s then d else f)), s, ops⟩
      ⟨.running (.start (if m.takes test c s' then d else f)), s', ops⟩
    rw [htakes]
    refine hstart _ ?_
    rw [hterm, Terminator.successors]
    split <;> simp
  | ret v =>
    refine ⟨rfl, rfl, hw, fun t ht => hoperand t ?_⟩
    rw [hterm]
    exact ht

/-- A step keeps agreement on live temps. -/
theorem AgreeLive.step (hm : m.Local) {r r' : Run Point (Store ω ν)}
    (h : AgreeLive blocks r r') :
    AgreeLive blocks (Block.step m blocks r) (Block.step m blocks r') := by
  obtain ⟨control, s, ops⟩ := r
  obtain ⟨control', s', ops'⟩ := r'
  obtain ⟨hcontrol, hexecuted, hw, hlive⟩ := h
  obtain rfl : control = control' := hcontrol
  obtain rfl : ops = ops' := hexecuted
  cases control with
  | halted v => exact ⟨rfl, rfl, hw, hlive⟩
  | running p =>
    obtain ⟨b, i⟩ := p
    obtain ⟨hindex, hlive⟩ := hlive
    cases hb : blocks[b]? with
    | none =>
      rw [Block.step_of_none m hb, Block.step_of_none m hb]
      exact ⟨rfl, rfl, hw, fun t ht => nomatch ht⟩
    | some block =>
      cases ho : block.ops[i]? with
      | some o =>
        rw [Block.step_of_op m hb ho, Block.step_of_op m hb ho]
        exact agreeLive_execute hm hb ho hw hlive
      | none =>
        obtain rfl : i = block.ops.length :=
          Nat.le_antisymm (hindex hb) (List.getElem?_eq_none_iff.mp ho)
        rw [Block.step_of_end m hb ho, Block.step_of_end m hb ho]
        exact agreeLive_leave hm hb hw hlive

/-- Runs from states that agree on what is live cannot be told apart at any time. -/
theorem AgreeLive.run (hm : m.Local) (hb : blocks[b]? = some block)
    (hi : i ≤ block.ops.length) (hw : s.world = s'.world)
    (hlive : ∀ t, LiveAt blocks t ⟨b, i⟩ → s.value t = s'.value t) (k : Nat) :
    AgreeLive blocks (Block.run m blocks ⟨b, i⟩ s k) (Block.run m blocks ⟨b, i⟩ s' k) := by
  induction k with
  | zero =>
    refine ⟨rfl, rfl, hw, fun {block'} hb' => ?_, hlive⟩
    obtain rfl := Option.some.inj (hb'.symm.trans hb)
    exact hi
  | succ k ih => exact ih.step hm

/-! ### Stored live sets -/

/-- **Dead temps do not matter.** Take a graph whose stored liveness is fresh, and two states with
the same world. If they agree on the live-in set of a block, runs from its beginning cannot be told
apart; if they agree on the live-out set of a line, runs from right behind it cannot. -/
theorem Graph.agree_of_fresh {m : Interpretation (Store ω ν)} (hm : m.Local) {g : Graph}
    {fresh : Analyses} (hg : g.Reachable fresh) {b : Nat} {block : Block g.tempCount}
    (hb : g.blocks[b]? = some block) {s s' : Store ω ν} (hw : s.world = s'.world) :
    (fresh.contains .liveness = true → (∀ t ∈ block.liveIn, s.value t = s'.value t) →
      ∀ k, (Block.run m g.blocks (.start b) s k).Agree (Block.run m g.blocks (.start b) s' k)) ∧
    (fresh.contains .lineLiveness = true → ∀ {i line}, block.body[i]? = some line →
      (∀ t ∈ line.liveOut, s.value t = s'.value t) →
      ∀ k, (Block.run m g.blocks ⟨b, i + 1⟩ s k).Agree
        (Block.run m g.blocks ⟨b, i + 1⟩ s' k)) := by
  have hfresh := hg.freshLiveness
  constructor
  · intro hblocks hvalues k
    refine (AgreeLive.run hm hb (Nat.zero_le _) hw (fun t ht => hvalues t ?_) k).agree
    exact ((hfresh.blocks hblocks).mem_liveIn_iff hb).mpr ht
  · intro hlines i line hline hvalues k
    have hlt : i + 1 ≤ block.ops.length := by
      rw [Block.ops, List.length_map]
      exact (List.getElem?_eq_some_iff.mp hline).1
    refine (AgreeLive.run hm hb hlt hw (fun t ht => hvalues t ?_) k).agree
    exact ((hfresh.lines hlines).2.mem_liveOut_iff hb hline).mpr ht

/-- Every operation adds its sources to the world, and the temp that it writes takes the sum. -/
def Interpretation.adding : Interpretation (Store Int Int) where
  effect o s :=
    let sum := (o.sources.map s.value).foldl (· + ·) s.world
    ⟨sum, fun t => if o.dest = some t then sum else s.value t⟩
  isZero c s := s.value c == 0

theorem Interpretation.local_adding : Interpretation.adding.Local := by
  have hsum : ∀ {o : Op} {s s' : Store Int Int}, s.world = s'.world →
      (∀ t ∈ o.sources, s.value t = s'.value t) →
        (o.sources.map s.value).foldl (· + ·) s.world =
          (o.sources.map s'.value).foldl (· + ·) s'.world := by
    intro o s s' hw hsources
    rw [hw, List.map_congr_left hsources]
  refine ⟨hsum, ?_, ?_, ?_⟩
  · intro o s s' d hw hsources hd
    simp only [adding, hd, if_true]
    exact hsum hw hsources
  · intro o s t hd
    exact if_neg hd
  · intro s s' c _ hc
    simp only [adding, hc]

/-- Two temps that differ: the first one at the entry of the loop, where it is about to be written,
and one that the loop does not use, behind the first line. -/
theorem Graph.agree_of_fresh_loop :
    ∃ g block line, Graph.build .loop .full = .ok g ∧ g.blocks[0]? = some block ∧
      block.body[0]? = some line ∧
      (∀ k, (Block.run .adding g.blocks (.start 0) ⟨0, fun _ => 5⟩ k).Agree
        (Block.run .adding g.blocks (.start 0) ⟨0, fun t => if t = ⟨0⟩ then 7 else 5⟩ k)) ∧
      ∀ k, (Block.run .adding g.blocks ⟨0, 1⟩ ⟨0, fun _ => 5⟩ k).Agree
        (Block.run .adding g.blocks ⟨0, 1⟩ ⟨0, fun t => if t = ⟨2⟩ then 7 else 5⟩ k) := by
  have hloop : (fun g : Graph => (g.computed, g.blocks[0]?.map fun b =>
      (decide (⟨0⟩ ∈ b.liveIn), b.body[0]?.map fun l => decide (⟨2⟩ ∈ l.liveOut)))) <$>
        Graph.build .loop .full = .ok (.all, some (false, some false)) := by
    decide +kernel
  obtain ⟨g, hg, hfacts⟩ := map_eq_ok_iff.mp hloop
  obtain ⟨hcomputed, hfacts⟩ := Prod.mk.inj hfacts
  obtain ⟨block, hb, hfacts⟩ := Option.map_eq_some_iff.mp hfacts
  obtain ⟨hin, hfacts⟩ := Prod.mk.inj hfacts
  obtain ⟨line, hline, hout⟩ := Option.map_eq_some_iff.mp hfacts
  have hreach : g.Reachable .all := hcomputed ▸ .built hg
  refine ⟨g, block, line, hg, hb, hline, ?_, ?_⟩
  · refine (agree_of_fresh Interpretation.local_adding hreach hb ?_).1 rfl fun t ht => ?_
    · rfl
    · have hne : t ≠ ⟨0⟩ := by
        rintro rfl
        exact of_decide_eq_false hin ht
      exact (if_neg hne).symm
  · refine (agree_of_fresh Interpretation.local_adding hreach hb ?_).2 rfl hline fun t ht => ?_
    · rfl
    · have hne : t ≠ ⟨2⟩ := by
        rintro rfl
        exact of_decide_eq_false hout ht
      exact (if_neg hne).symm

end FlowFacts
