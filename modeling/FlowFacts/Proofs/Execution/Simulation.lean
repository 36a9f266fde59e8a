import FlowFacts.Execution.Graph
import FlowFacts.Execution.Stream
import Mathlib.Logic.Function.Iterate

/-!
# Runs that cannot be told apart

A stream and the blocks cut from it are different machines over different places. What can be
observed of a run of either is the same: the operations carried out, in order, and if the run stops,
the state and the result with which it does.

Two courses of runs are `Alike` if they agree on all that can be observed. Steps are not counted:
one machine may spend a step on a mark or a jump where the other spends none.

## Simulations

To show courses alike it is enough to follow one machine step by step. The other answers each step
with one or more of its own, or with none at all if a rank goes down. Both machines are
deterministic, so nothing has to be shown about the other direction: as the rank cannot go down for
ever, the second machine is never left behind (`Simulation.exists_related_of_le`).

## Main definitions

* `Machine` — a step function that leaves stopped runs alone and never forgets operations
* `Alike` — two courses of runs with the same observations
* `Answers`, `Simulation` — how one machine follows another

## Main results

* `Alike.trans` — being alike passes through a third machine
* `Simulation.alike` — machines related by a simulation run alike
-/

namespace FlowFacts

variable {κ ι μ σ : Type}

/-- A step function on runs that leaves stopped runs alone and keeps what was carried out. -/
structure Machine (κ σ : Type) where
  step : Run κ σ → Run κ σ
  step_halted : ∀ (v : Option Temp) (s : σ) (ops : List Op),
    step ⟨.halted v, s, ops⟩ = ⟨.halted v, s, ops⟩
  executed_step : ∀ r, r.executed <+: (step r).executed

namespace Machine

/-- The course of a run: where it is after each number of steps. -/
def course (M : Machine κ σ) (r : Run κ σ) (k : Nat) : Run κ σ := M.step^[k] r

theorem course_zero (M : Machine κ σ) (r : Run κ σ) : M.course r 0 = r := rfl

theorem course_add (M : Machine κ σ) (r : Run κ σ) (i j : Nat) :
    M.course r (i + j) = M.course (M.course r i) j := by
  rw [course, Nat.add_comm, Function.iterate_add_apply]
  rfl

theorem course_succ (M : Machine κ σ) (r : Run κ σ) (k : Nat) :
    M.course r (k + 1) = M.step (M.course r k) :=
  Function.iterate_succ_apply' _ _ _

theorem course_halted (M : Machine κ σ) (v : Option Temp) (s : σ) (ops : List Op) (k : Nat) :
    M.course ⟨.halted v, s, ops⟩ k = ⟨.halted v, s, ops⟩ :=
  Function.iterate_fixed (M.step_halted v s ops) k

/-- A run that has stopped is where it was. -/
theorem course_eq_of_halted (M : Machine κ σ) {r : Run κ σ} {i j : Nat} {v : Option Temp} {s : σ}
    {ops : List Op} (h : M.course r i = ⟨.halted v, s, ops⟩) (hij : i ≤ j) :
    M.course r j = ⟨.halted v, s, ops⟩ := by
  obtain ⟨d, rfl⟩ := Nat.exists_eq_add_of_le hij
  rw [course_add, h, course_halted]

theorem executed_course_le (M : Machine κ σ) (r : Run κ σ) {i j : Nat} (h : i ≤ j) :
    (M.course r i).executed <+: (M.course r j).executed := by
  induction h with
  | refl => exact List.prefix_refl _
  | step _ ih =>
    rw [Nat.succ_eq_add_one, course_succ]
    exact ih.trans (M.executed_step _)

/-- Two stages of one run agree on the operations that both have behind them. -/
theorem take_executed_course (M : Machine κ σ) (r : Run κ σ) {i j k : Nat}
    (hi : k ≤ (M.course r i).executed.length) (hj : k ≤ (M.course r j).executed.length) :
    (M.course r i).executed.take k = (M.course r j).executed.take k := by
  rcases Nat.le_total i j with h | h
  · obtain ⟨rest, hrest⟩ := M.executed_course_le r h
    rw [← hrest, List.take_append_of_le_length hi]
  · obtain ⟨rest, hrest⟩ := M.executed_course_le r h
    rw [← hrest, List.take_append_of_le_length hj]

end Machine

/-! ### The two machines -/

section Blocks

variable {n : Nat} (m : Interpretation σ) {blocks : List (Block n)} {b i : Nat}

theorem Block.step_of_none (hb : blocks[b]? = none) (s : σ) (ops : List Op) :
    Block.step m blocks ⟨.running ⟨b, i⟩, s, ops⟩ = ⟨.halted none, s, ops⟩ := by
  simp only [Block.step, Block.exec, hb]
  rfl

theorem Block.step_of_op {block : Block n} {o : Op} (hb : blocks[b]? = some block)
    (ho : block.ops[i]? = some o) (s : σ) (ops : List Op) :
    Block.step m blocks ⟨.running ⟨b, i⟩, s, ops⟩ =
      ⟨.running ⟨b, i + 1⟩, m.effect o s, ops ++ [o]⟩ := by
  simp only [Block.step, Block.exec, hb, ho]
  rfl

theorem Block.step_of_end {block : Block n} (hb : blocks[b]? = some block)
    (hi : block.ops[i]? = none) (s : σ) (ops : List Op) :
    Block.step m blocks ⟨.running ⟨b, i⟩, s, ops⟩ =
      Block.leave m ⟨.running ⟨b, i⟩, s, ops⟩ block.terminator := by
  simp only [Block.step, Block.exec, hb, hi]

theorem Block.executed_leave (r : Run Point σ) (x : Terminator) :
    (Block.leave m r x).executed = r.executed := by
  cases x <;> rfl

/-- Blocks as a machine. -/
def Block.machine (blocks : List (Block n)) : Machine Point σ where
  step := Block.step m blocks
  step_halted _ _ _ := rfl
  executed_step := by
    rintro ⟨⟨b, i⟩ | v, s, ops⟩
    · cases hb : blocks[b]? with
      | none => exact (Block.step_of_none m hb s ops).symm ▸ List.prefix_refl ops
      | some block =>
        cases ho : block.ops[i]? with
        | none =>
          have hleave := Block.executed_leave m ⟨.running ⟨b, i⟩, s, ops⟩ block.terminator
          rw [Block.step_of_end m hb ho]
          exact hleave.symm ▸ List.prefix_refl ops
        | some o =>
          rw [Block.step_of_op m hb ho]
          exact List.prefix_append ops [o]
    · exact List.prefix_refl ops

theorem Block.step_machine (blocks : List (Block n)) :
    (Block.machine m blocks).step = Block.step m blocks := rfl

theorem Block.run_eq_course (blocks : List (Block n)) (p : Point) (s : σ) :
    Block.run m blocks p s = (Block.machine m blocks).course ⟨.running p, s, []⟩ := by
  funext k
  induction k with
  | zero => rfl
  | succ k ih =>
    rw [Machine.course_succ, ← ih]
    rfl

end Blocks

section Streams

variable (m : Interpretation σ) {code : List Instr}

theorem Routine.step_of_none {pc : Nat} (hpc : code[pc]? = none) (s : σ) (ops : List Op) :
    Routine.step m code ⟨.running pc, s, ops⟩ = ⟨.halted none, s, ops⟩ := by
  simp only [Routine.step, Routine.exec, hpc]
  rfl

theorem Routine.step_of_op {pc : Nat} {o : Op} (hpc : code[pc]? = some (.op o)) (s : σ)
    (ops : List Op) :
    Routine.step m code ⟨.running pc, s, ops⟩ =
      ⟨.running (pc + 1), m.effect o s, ops ++ [o]⟩ := by
  simp only [Routine.step, Routine.exec, hpc]
  rfl

theorem Routine.step_of_mark {pc : Nat} {l : Label} (hpc : code[pc]? = some (.mark l)) (s : σ)
    (ops : List Op) :
    Routine.step m code ⟨.running pc, s, ops⟩ = ⟨.running (pc + 1), s, ops⟩ := by
  simp only [Routine.step, Routine.exec, hpc]
  rfl

theorem Routine.step_of_memo {pc : Nat} {text : String} (hpc : code[pc]? = some (.memo text))
    (s : σ) (ops : List Op) :
    Routine.step m code ⟨.running pc, s, ops⟩ = ⟨.running (pc + 1), s, ops⟩ := by
  simp only [Routine.step, Routine.exec, hpc]
  rfl

theorem Routine.executed_goto (r : Run Nat σ) (l : Label) :
    (Routine.goto code r l).executed = r.executed := by
  unfold Routine.goto
  cases lastMark? code l <;> rfl

/-- A stream as a machine. -/
def Routine.machine (code : List Instr) : Machine Nat σ where
  step := Routine.step m code
  step_halted _ _ _ := rfl
  executed_step := by
    rintro ⟨pc | v, s, ops⟩
    · show ops <+: (Routine.exec m code ⟨.running pc, s, ops⟩ pc).executed
      unfold Routine.exec
      split
      case h_2 o _ => exact List.prefix_append ops [o]
      case h_5 => exact (Routine.executed_goto ..).symm ▸ List.prefix_refl ops
      case h_6 =>
        split
        · exact (Routine.executed_goto ..).symm ▸ List.prefix_refl ops
        · exact List.prefix_refl ops
      all_goals exact List.prefix_refl ops
    · exact List.prefix_refl ops

theorem Routine.step_machine (code : List Instr) :
    (Routine.machine m code).step = Routine.step m code := rfl

theorem Routine.run_eq_course (code : List Instr) (s : σ) :
    Routine.run m code s = (Routine.machine m code).course ⟨.running 0, s, []⟩ := by
  funext k
  induction k with
  | zero => rfl
  | succ k ih =>
    rw [Machine.course_succ, ← ih]
    rfl

end Streams

/-! ### Courses with the same observations -/

/-- Two courses of runs carry out the same operations in the same order, and if one of them stops,
so does the other, after the same operations, in the same state and with the same result. -/
structure Alike (f : Nat → Run κ σ) (g : Nat → Run ι σ) : Prop where
  /-- One carries out at least `k` operations just if the other does. -/
  executes_iff : ∀ k, (∃ i, k ≤ (f i).executed.length) ↔ ∃ j, k ≤ (g j).executed.length
  /-- The first `k` operations are the same ones. -/
  take_executed : ∀ {k i j}, k ≤ (f i).executed.length → k ≤ (g j).executed.length →
    (f i).executed.take k = (g j).executed.take k
  /-- One stops just if the other does, and both stop alike. -/
  halts_iff : ∀ v s ops, (∃ i, f i = ⟨.halted v, s, ops⟩) ↔ ∃ j, g j = ⟨.halted v, s, ops⟩

theorem Alike.refl (M : Machine κ σ) (r : Run κ σ) : Alike (M.course r) (M.course r) where
  executes_iff _ := Iff.rfl
  take_executed := M.take_executed_course r
  halts_iff _ _ _ := Iff.rfl

theorem Alike.trans {f : Nat → Run κ σ} {g : Nat → Run ι σ} {h : Nat → Run μ σ}
    (hfg : Alike f g) (hgh : Alike g h) : Alike f h where
  executes_iff k := (hfg.executes_iff k).trans (hgh.executes_iff k)
  take_executed := by
    intro k i l hi hl
    obtain ⟨j, hj⟩ := (hfg.executes_iff k).mp ⟨i, hi⟩
    rw [hfg.take_executed hi hj, hgh.take_executed hj hl]
  halts_iff v s ops := (hfg.halts_iff v s ops).trans (hgh.halts_iff v s ops)

/-! ### Simulations -/

/-- Two runs with the same state and history, at places that a relation of the given rank allows,
or stopped with the same result. -/
inductive Related (P : Nat → κ → ι → Prop) : Nat → Run κ σ → Run ι σ → Prop
  | running {k : Nat} {p : κ} {q : ι} {s : σ} {ops : List Op} (h : P k p q) :
      Related P k ⟨.running p, s, ops⟩ ⟨.running q, s, ops⟩
  | halted {k : Nat} {v : Option Temp} {s : σ} {ops : List Op} :
      Related P k ⟨.halted v, s, ops⟩ ⟨.halted v, s, ops⟩

theorem Related.executed_eq {P : Nat → κ → ι → Prop} {k : Nat} {r : Run κ σ} {t : Run ι σ}
    (h : Related P k r t) : r.executed = t.executed := by
  cases h <;> rfl

theorem Related.halted_iff {P : Nat → κ → ι → Prop} {k : Nat} {r : Run κ σ} {t : Run ι σ}
    (h : Related P k r t) (v : Option Temp) (s : σ) (ops : List Op) :
    r = ⟨.halted v, s, ops⟩ ↔ t = ⟨.halted v, s, ops⟩ := by
  cases h <;> simp

/-- The second machine answers a step of the first from places `p` and `q`: by at least one step of
its own, or by none and a smaller rank. -/
def Answers (M : Machine κ σ) (N : Machine ι σ) (P : Nat → κ → ι → Prop) (k : Nat) (p : κ) (q : ι)
    (s : σ) (ops : List Op) : Prop :=
  (∃ k' j, Related P k' (M.step ⟨.running p, s, ops⟩) (N.course ⟨.running q, s, ops⟩ (j + 1))) ∨
    ∃ k' < k, Related P k' (M.step ⟨.running p, s, ops⟩) ⟨.running q, s, ops⟩

/-- The second machine follows the first along a relation on places. -/
structure Simulation (M : Machine κ σ) (N : Machine ι σ) (P : Nat → κ → ι → Prop) : Prop where
  answers : ∀ {k : Nat} {p : κ} {q : ι}, P k p q → ∀ (s : σ) (ops : List Op),
    Answers M N P k p q s ops

namespace Simulation

variable {M : Machine κ σ} {N : Machine ι σ} {P : Nat → κ → ι → Prop}

/-- The step lemma in terms of runs. -/
theorem step (hsim : Simulation M N P) {k : Nat} {r : Run κ σ} {t : Run ι σ}
    (h : Related P k r t) :
    (∃ k' j, Related P k' (M.step r) (N.course t (j + 1))) ∨
      ∃ k' < k, Related P k' (M.step r) t := by
  cases h with
  | running hp => exact hsim.answers hp _ _
  | halted =>
    refine .inl ⟨0, 0, ?_⟩
    rw [M.step_halted, N.course_halted]
    exact .halted

/-- Whatever the first machine reaches, the second one reaches. -/
theorem exists_related (hsim : Simulation M N P) {k : Nat} {r : Run κ σ} {t : Run ι σ}
    (h : Related P k r t) (i : Nat) : ∃ k' j, Related P k' (M.course r i) (N.course t j) := by
  induction i with
  | zero => exact ⟨k, 0, h⟩
  | succ i ih =>
    obtain ⟨k₁, j₁, h₁⟩ := ih
    rw [M.course_succ]
    rcases hsim.step h₁ with ⟨k₂, j₂, h₂⟩ | ⟨k₂, -, h₂⟩
    · exact ⟨k₂, j₁ + (j₂ + 1), by rw [N.course_add]; exact h₂⟩
    · exact ⟨k₂, j₁, h₂⟩

/-- From related runs the second machine is made to move at some time, as the rank cannot go down
for ever. -/
theorem exists_moved (hsim : Simulation M N P) {k : Nat} {r : Run κ σ} {t : Run ι σ}
    (h : Related P k r t) : ∃ i k' j, Related P k' (M.course r i) (N.course t (j + 1)) := by
  induction k using Nat.strongRecOn generalizing r with
  | ind k ih =>
    rcases hsim.step h with ⟨k', j, h'⟩ | ⟨k', hlt, h'⟩
    · exact ⟨1, k', j, h'⟩
    · obtain ⟨i, k'', j, h''⟩ := ih k' hlt h'
      exact ⟨1 + i, k'', j, by rw [M.course_add]; exact h''⟩

/-- However far the second machine goes, related runs lie beyond. -/
theorem exists_related_of_le (hsim : Simulation M N P) {k : Nat} {r : Run κ σ} {t : Run ι σ}
    (h : Related P k r t) (j : Nat) :
    ∃ i k' j', j ≤ j' ∧ Related P k' (M.course r i) (N.course t j') := by
  induction j with
  | zero => exact ⟨0, k, 0, Nat.le_refl 0, h⟩
  | succ j ih =>
    obtain ⟨i₁, k₁, j₁, hle, h₁⟩ := ih
    obtain ⟨i₂, k₂, j₂, h₂⟩ := hsim.exists_moved h₁
    refine ⟨i₁ + i₂, k₂, j₁ + (j₂ + 1), by omega, ?_⟩
    rw [M.course_add, N.course_add]
    exact h₂

/-- **Simulation.** Machines related by a simulation run alike from related runs. -/
theorem alike (hsim : Simulation M N P) {k : Nat} {r : Run κ σ} {t : Run ι σ}
    (h : Related P k r t) : Alike (M.course r) (N.course t) where
  executes_iff n := by
    constructor
    · rintro ⟨i, hi⟩
      obtain ⟨_, j, hij⟩ := hsim.exists_related h i
      exact ⟨j, hij.executed_eq ▸ hi⟩
    · rintro ⟨j, hj⟩
      obtain ⟨i, _, j', hle, hij⟩ := hsim.exists_related_of_le h j
      refine ⟨i, ?_⟩
      rw [hij.executed_eq]
      exact Nat.le_trans hj (N.executed_course_le t hle).length_le
  take_executed := by
    intro n i j hi hj
    obtain ⟨_, j', hij⟩ := hsim.exists_related h i
    rw [hij.executed_eq] at hi ⊢
    exact N.take_executed_course t hi hj
  halts_iff v s ops := by
    constructor
    · rintro ⟨i, hi⟩
      obtain ⟨_, j, hij⟩ := hsim.exists_related h i
      exact ⟨j, (hij.halted_iff v s ops).mp hi⟩
    · rintro ⟨j, hj⟩
      obtain ⟨i, _, j', hle, hij⟩ := hsim.exists_related_of_le h j
      exact ⟨i, (hij.halted_iff v s ops).mpr (N.course_eq_of_halted hj hle)⟩

end Simulation

end FlowFacts
