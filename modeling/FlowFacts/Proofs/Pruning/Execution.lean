import FlowFacts.Proofs.Execution.Simulation
import FlowFacts.Proofs.Pruning.Redirects

/-!
# Pruned blocks run like the blocks they came from

Control in the pruned blocks is where control in the blocks is about to arrive. As long as it stands
in a block that stays, the two machines go step by step. Where it enters a removed block, that block
is a redirect, the pruned blocks have jumped over it already and wait, and the number of redirects
that may still be followed goes down.

That the removed block is a redirect needs an argument: a block may also be removed because it
cannot run, and such a block has a body that would be skipped. Control never enters one, as it
started at the entry and blocks that may run lead only to blocks that may run (`MayRun.successor`).

## Main results

* `alike_pruned` — blocks run like what is left of them after pruning
-/

namespace FlowFacts

variable {n : Nat} {σ : Type}

/-! ### The simulation -/

/-- The place in the pruned blocks at which control is or is about to arrive. The rank is the number
of redirects that may still be followed. -/
structure Forwarded (blocks : List (Block n)) (k : Nat) (p q : Point) : Prop where
  mayRun : MayRun blocks p.block
  index_eq : p.index = q.index
  arrives : ∃ c, chase (marked blocks) k p.block = .ok c ∧
    newNumber? (marked blocks) c = some q.block ∧ (p.block = c ∨ p.index = 0)

/-- Leaving by a terminator and by its threaded form. -/
theorem Terminator.Threads.related_leave {L : Nat → Nat → Prop} {P : Nat → Point → Point → Prop}
    {x y : Terminator} (h : x.Threads L y) {j : Nat}
    (hP : ∀ t ∈ x.successors, ∀ k, L t k → P j (.start t) (.start k)) (m : Interpretation σ)
    (p q : Point) (s : σ) (ops : List Op) :
    Related P j (Block.leave m ⟨.running p, s, ops⟩ x) (Block.leave m ⟨.running q, s, ops⟩ y) := by
  cases h with
  | ret v => exact .halted
  | jump h => exact .running (hP _ (by simp [Terminator.successors]) _ h)
  | branch ht hf =>
    simp only [Block.leave]
    split
    · exact .running (hP _ (by simp [Terminator.successors]) _ ht)
    · exact .running (hP _ (by simp [Terminator.successors]) _ hf)
  | merged ht hf =>
    simp only [Block.leave]
    split
    · exact .running (hP _ (by simp [Terminator.successors]) _ ht)
    · exact .running (hP _ (by simp [Terminator.successors]) _ hf)

section Simulation

variable (m : Interpretation σ) {blocks : List (Block n)} {pruned : Pruned n} {k : Nat}
  {p q : Point} {b : Block n}

/-- The pruned blocks wait while control passes a removed block. -/
theorem answers_of_cancelled (hpq : Forwarded blocks k p q)
    (hp : (marked blocks)[p.block]? = some b) (hb : b.cancelled = true) (s : σ) (ops : List Op) :
    Answers (Block.machine m blocks) (Block.machine m pruned.blocks) (Forwarded blocks) k p q s
      ops := by
  obtain ⟨c, hchase, hnew, hstart⟩ := hpq.arrives
  obtain ⟨k', t, rfl, hjump, hchase'⟩ := chase_of_cancelled hp hb hchase
  obtain ⟨hne, hops⟩ := ops_of_cancelled hp hb hpq.mayRun
  have hindex : p.index = 0 := by
    rcases hstart with h | h
    · obtain ⟨b', hb', hstays⟩ := exists_of_newNumber? hnew
      rw [← h, hp] at hb'
      cases hb'
      rw [hb] at hstays
      cases hstays
    · exact h
  have hlt : t < blocks.length := length_marked blocks ▸ lt_length_of_chase hchase' hnew
  rw [getElem?_marked] at hp
  obtain ⟨b₀, hb₀, rfl⟩ := Option.map_eq_some_iff.mp hp
  refine .inr ⟨k', Nat.lt_succ_self k', ?_⟩
  have hstep : Block.step m blocks ⟨.running p, s, ops⟩ = ⟨.running (.start t), s, ops⟩ := by
    refine (Block.step_of_end m hb₀ (i := p.index) ?_ s ops).trans ?_
    · rw [show b₀.ops = [] from hops]
      rfl
    · rw [show b₀.terminator = .jump t from hjump]
      rfl
  rw [Block.step_machine, hstep]
  refine .running ⟨hpq.mayRun.successor hb₀ ?_ hlt, hpq.index_eq ▸ hindex.symm, c, hchase', hnew,
    .inr rfl⟩
  rw [Block.successors, show b₀.terminator = .jump t from hjump]
  exact List.mem_singleton_self t

/-- In a block that stays the two machines go step by step. -/
theorem answers_of_stays (h : prune blocks = .ok pruned) (hpq : Forwarded blocks k p q)
    (hp : (marked blocks)[p.block]? = some b) (hb : b.cancelled = false) (s : σ) (ops : List Op) :
    Answers (Block.machine m blocks) (Block.machine m pruned.blocks) (Forwarded blocks) k p q s
      ops := by
  obtain ⟨c, hchase, hnew, -⟩ := hpq.arrives
  have hstays := chase_of_stays hp hb k
  obtain rfl : p.block = c := Except.ok.inj (hstays.symm.trans hchase)
  obtain ⟨l, b', hl, hb', hops, hthreads⟩ := exists_pruned h hp hb
  obtain rfl : l = q.block := Option.some.inj (hl.symm.trans hnew)
  rw [getElem?_marked] at hp
  obtain ⟨b₀, hb₀, rfl⟩ := Option.map_eq_some_iff.mp hp
  replace hops : b'.ops = b₀.ops := hops
  obtain ⟨pb, i⟩ := p
  obtain ⟨qb, i'⟩ := q
  obtain rfl : i = i' := hpq.index_eq
  refine .inl ?_
  cases ho : b₀.ops[i]? with
  | some o =>
    refine ⟨k, 0, ?_⟩
    rw [Machine.course_succ, Machine.course_zero, Block.step_machine, Block.step_machine,
      Block.step_of_op m hb₀ ho, Block.step_of_op m hb' (hops ▸ ho)]
    exact .running ⟨hpq.mayRun, rfl, pb, hstays, hnew, .inl rfl⟩
  | none =>
    refine ⟨blocks.length, 0, ?_⟩
    rw [Machine.course_succ, Machine.course_zero, Block.step_machine, Block.step_machine,
      Block.step_of_end m hb₀ ho, Block.step_of_end m hb' (hops ▸ ho)]
    refine hthreads.related_leave (fun t ht k' hk' => ?_) m _ _ s ops
    obtain ⟨c, hc, hck⟩ := hk'
    have hlt : t < blocks.length := length_marked blocks ▸ lt_length_of_chase hc hck
    exact ⟨hpq.mayRun.successor hb₀ ht hlt, rfl, c, hc, hck, .inr rfl⟩

end Simulation

/-- The pruned blocks follow the blocks. -/
theorem simulation_pruned (m : Interpretation σ) {blocks : List (Block n)} {pruned : Pruned n}
    (h : prune blocks = .ok pruned) :
    Simulation (Block.machine m blocks) (Block.machine m pruned.blocks) (Forwarded blocks) := by
  refine ⟨fun {k p q} hpq s ops => ?_⟩
  obtain ⟨c, hchase, hnew, -⟩ := hpq.arrives
  have hlt := lt_length_of_chase hchase hnew
  cases hb : (marked blocks)[p.block].cancelled with
  | true => exact answers_of_cancelled m hpq (List.getElem?_eq_getElem hlt) hb s ops
  | false => exact answers_of_stays m h hpq (List.getElem?_eq_getElem hlt) hb s ops

/-- The entry stays, and keeps its number. -/
theorem forwarded_start {blocks : List (Block n)} (h : blocks ≠ []) :
    Forwarded blocks blocks.length (.start 0) (.start 0) := by
  obtain ⟨b, rest, rfl⟩ := List.exists_cons_of_ne_nil h
  have hb : (marked (b :: rest))[0]? = some { b with cancelled := false } := by
    rw [getElem?_marked]
    rfl
  have hnew : newNumber? (marked (b :: rest)) 0 = some 0 := by
    rw [newNumber?, hb]
    rfl
  exact ⟨.inl rfl, rfl, 0, chase_of_stays hb rfl _, hnew, .inl rfl⟩

/-- **Pruning.** Blocks run like what is left of them. -/
theorem alike_pruned (m : Interpretation σ) {blocks : List (Block n)} {pruned : Pruned n}
    (h : prune blocks = .ok pruned) (s : σ) :
    Alike (Block.run m blocks (.start 0) s) (Block.run m pruned.blocks (.start 0) s) := by
  rw [Block.run_eq_course, Block.run_eq_course]
  by_cases hne : blocks = []
  · subst hne
    obtain rfl : pruned = ⟨[], []⟩ := (Except.ok.inj h).symm
    exact Alike.refl _ _
  · exact (simulation_pruned m h).alike (.running (forwarded_start hne))

end FlowFacts
