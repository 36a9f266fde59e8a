import FlowFacts.Graph.InPlace
import FlowFacts.Proofs.Graph.Structure

/-!
# Failing commands leave no trace

A command that is carried out in place writes one part of the graph after the other. It does the same
as `Graph.perform`, which gives a changed graph or none at all: what it writes adds up to the changed
graph, and when it fails it has not written anything. So a graph that a command fails on is the graph
that it was.

An insertion changes one body. When it is possible and what it changes is said here in terms of the
instruction and of the lines of that body.

## Main definitions

* `InPlace.settle` — what is left behind by a procedure that fails without a trace
* `Graph.Admits` — an instruction may be inserted
* `Graph.Inserted` — a graph has one line more than another

## Main results

* `InPlace.run_rewrite` — what is written block by block
* `Graph.run_execute` — carrying out a command in place does what `Graph.perform` does
* `Graph.execute_atomic` — failing commands leave no trace, and insertions are local
-/

namespace FlowFacts

theorem insertIdx_eq_take_append {α : Type} {xs : List α} {i : Nat} (h : i ≤ xs.length) (x : α) :
    xs.insertIdx i x = xs.take i ++ x :: xs.drop i := by
  induction xs generalizing i with
  | nil =>
    obtain rfl : i = 0 := Nat.le_zero.mp h
    rfl
  | cons y xs ih =>
    cases i with
    | zero => rfl
    | succ i =>
      rw [List.insertIdx_succ_cons, ih (Nat.le_of_succ_le_succ h)]
      rfl

namespace InPlace

/-- What is left behind of a state by a procedure that succeeds with a new one or else fails without
a trace. -/
def settle {σ α : Type} (s : σ) : Except Error (α × σ) → EStateM.Result Error σ α
  | .ok (a, s') => .ok a s'
  | .error e => .error e s

theorem settle_eq_ok_iff {σ α : Type} {s s' : σ} {x : Except Error (α × σ)} {a : α} :
    settle s x = .ok a s' ↔ x = .ok (a, s') := by
  cases x <;> simp [settle, Prod.ext_iff]

theorem eq_of_settle_eq_error {σ α : Type} {s s' : σ} {x : Except Error (α × σ)} {e : Error}
    (h : settle s x = .error e s') : s' = s := by
  cases x with
  | ok p => cases h
  | error e =>
    cases h
    rfl

/-! ### Procedures on blocks -/

section Blocks

variable {n : Nat} {blocks : List (Block n)}

/-- The writes go from the first block to the last, and those in front are done. -/
theorem run_rewrite_append {β : Type} {found : List β} {rest : List (Block n)}
    (hlen : found.length = rest.length) (f : β → Block n → Block n) (front : List (Block n)) :
    EStateM.run (forM (found.zipIdx front.length) fun p => (modify fun blocks =>
        blocks.modify p.2 (f p.1) : InPlace (List (Block n)) Unit)) (front ++ rest) =
      .ok () (front ++ List.zipWith f found rest) := by
  induction found generalizing front rest with
  | nil =>
    obtain rfl : rest = [] := List.eq_nil_of_length_eq_zero hlen.symm
    rfl
  | cons x found ih =>
    obtain ⟨b, rest, rfl⟩ := List.exists_cons_of_length_eq_add_one hlen.symm
    have hwrite : (front ++ b :: rest).modify front.length (f x) = (front ++ [f x b]) ++ rest := by
      rw [List.modify_eq_take_cons_drop (by simp)]
      simp
    have hrest := ih (Nat.succ.inj hlen) (front ++ [f x b])
    rw [List.length_append, List.length_singleton] at hrest
    rw [List.zipIdx_cons, List.forM_cons, EStateM.run_bind, EStateM.run_modify, hwrite]
    refine hrest.trans ?_
    rw [List.zipWith_cons_cons, List.append_assoc, List.singleton_append]

/-- All blocks are rewritten. -/
theorem run_rewrite {β : Type} {found : List β} (hlen : found.length = blocks.length)
    (f : β → Block n → Block n) :
    (rewrite found f).run blocks = .ok () (List.zipWith f found blocks) :=
  run_rewrite_append hlen f []

theorem run_storeLiveness (blocks : List (Block n)) (limit : Option Nat) :
    (storeLiveness limit).run blocks = settle blocks (setLiveness blocks limit) := by
  rw [storeLiveness, EStateM.run_bind, EStateM.run_get, setLiveness]
  cases hsolve : solveLiveness blocks limit with
  | error e => simp only [hsolve]; rfl
  | ok s =>
    obtain ⟨hin, hout, -⟩ := solves_of_solve hsolve
    have hlen : (s.inputs.zip s.outputs).length = blocks.length := by simp [hin, hout]
    simp only [hsolve]
    rw [EStateM.run_bind, run_rewrite hlen, List.zipWith_comm, ← List.map_uncurry_zip_eq_zipWith]
    rfl

theorem run_storeLineLiveness (blocks : List (Block n)) :
    storeLineLiveness.run blocks = .ok () (blocks.map Block.setLineLiveness) := by
  rw [storeLineLiveness, EStateM.run_bind, EStateM.run_get]
  refine (run_rewrite rfl _).trans ?_
  rw [List.zipWith_self]

/-- The bodies are all that storing chains changes. -/
theorem zipWith_body_of_setChains {d : Nat} {chained : List (Block n)}
    (h : setChains blocks = .ok (d, chained)) :
    List.zipWith (fun c b => { b with body := c.body }) chained blocks = chained := by
  obtain ⟨-, hlen, hget⟩ := exists_of_setChains h
  refine List.ext_getElem? fun k => ?_
  rw [List.getElem?_zipWith]
  cases hc : chained[k]? with
  | none => rfl
  | some c =>
    obtain ⟨b, hb, hbody, -⟩ := hget hc
    rw [hb]
    exact congrArg some hbody

theorem run_storeChains (blocks : List (Block n)) :
    storeChains.run blocks = settle blocks (setChains blocks) := by
  rw [storeChains, EStateM.run_bind, EStateM.run_get]
  cases hset : setChains blocks with
  | error e => simp only [hset]; rfl
  | ok found =>
    obtain ⟨d, chained⟩ := found
    obtain ⟨-, hlen, -⟩ := exists_of_setChains hset
    simp only [hset]
    rw [EStateM.run_bind, run_rewrite hlen, zipWith_body_of_setChains hset]
    rfl

theorem modify_insertIdx {b place : Nat} {block : Block n} (hb : blocks[b]? = some block)
    (hplace : place ≤ block.body.length) (l : Line n) :
    (blocks.modify b fun block => { block with body := block.body.insertIdx place l }) =
      blocks.set b { block with
        body := block.body.take place ++ l :: block.body.drop place } := by
  rw [List.modify_eq_set_getElem?, hb, ← insertIdx_eq_take_append hplace]
  rfl

section Splice

variable {b position place : Nat} {block : Block n} {o : Op}

theorem run_splice_of_none (hb : blocks[b]? = none) :
    (splice b position place o).run blocks =
      settle blocks (.error (.malformed (.noBlock b))) := by
  rw [splice, EStateM.run_bind, EStateM.run_get]
  simp only [hb]
  rfl

theorem run_splice_of_ge (hb : blocks[b]? = some block) (hp : ¬position < block.body.length) :
    (splice b position place o).run blocks =
      settle blocks (.error (.malformed (.noLine b position))) := by
  rw [splice, EStateM.run_bind, EStateM.run_get]
  simp only [hb, if_neg hp]
  rfl

theorem run_splice_of_lt (hb : blocks[b]? = some block) (hp : position < block.body.length)
    (hplace : place ≤ position + 1) :
    (splice b position place o).run blocks = settle blocks (.ok ((), blocks.set b { block with
      body := block.body.take place ++ Line.blank n o :: block.body.drop place })) := by
  rw [splice, EStateM.run_bind, EStateM.run_get]
  simp only [hb, if_pos hp]
  rw [EStateM.run_modify, modify_insertIdx hb (Nat.le_trans hplace hp)]
  rfl

end Splice

end Blocks

/-! ### Procedures on graphs -/

section Graphs

variable {α : Type} {x : (n : Nat) → InPlace (List (Block n)) α} {g : Graph}

/-- What is left behind of the blocks is left behind of the graph. -/
theorem run_onBlocks {found : Except Error (α × List (Block g.tempCount))}
    (h : (x g.tempCount).run g.blocks = settle g.blocks found) :
    (onBlocks x).run g = settle g ((fun p => (p.1, { g with blocks := p.2 })) <$> found) := by
  have hrun : x g.tempCount g.blocks = settle g.blocks found := h
  rw [EStateM.run, onBlocks, hrun]
  cases found <;> rfl

theorem run_insertLine (b : Nat) {position place : Nat} (hplace : place ≤ position + 1)
    (i : Instr) :
    (insertLine b position place i).run g =
      settle g ((fun g' => ((), g')) <$> g.insertAt b position place i) := by
  rw [insertLine, EStateM.run_bind, EStateM.run_get, Graph.insertAt]
  cases hi : g.insertable i with
  | error e => simp only [hi]; rfl
  | ok o =>
    simp only [hi, bind, Except.bind]
    cases hb : g.blocks[b]? with
    | none => exact run_onBlocks (x := fun _ => splice b position place o) (run_splice_of_none hb)
    | some block =>
      by_cases hp : position < block.body.length
      · simp only [if_pos hp]
        exact run_onBlocks (x := fun _ => splice b position place o)
          (run_splice_of_lt hb hp hplace)
      · simp only [if_neg hp]
        exact run_onBlocks (x := fun _ => splice b position place o) (run_splice_of_ge hb hp)

end Graphs

end InPlace

namespace Graph

open InPlace

/-- Carrying out a command in place does what `Graph.perform` does, and if the command fails the
graph is left as it was. -/
theorem run_execute (c : Command) (g : Graph) : (execute c).run g = settle g (g.perform c) := by
  cases c with
  | liveness limit =>
    rw [execute, EStateM.run_bind, run_onBlocks (run_storeLiveness g.blocks limit), perform,
      setLiveness]
    cases FlowFacts.setLiveness g.blocks limit <;> rfl
  | lineLiveness =>
    rw [execute, EStateM.run_bind, EStateM.run_get, perform, setLineLiveness]
    by_cases h : g.computed.contains .liveness = true
    · simp only [if_pos h]
      have hset : storeLineLiveness.run g.blocks =
          settle g.blocks (.ok ((), g.blocks.map Block.setLineLiveness)) :=
        run_storeLineLiveness g.blocks
      rw [EStateM.run_bind, run_onBlocks hset]
      rfl
    · simp only [if_neg h]
      rfl
  | chains =>
    rw [execute, EStateM.run_bind, run_onBlocks (run_storeChains g.blocks), perform, setChains]
    cases FlowFacts.setChains g.blocks <;> rfl
  | insertBefore b p i =>
    rw [execute, EStateM.run_bind, run_insertLine b (Nat.le_succ p) i, perform]
    cases g.insertAt b p p i <;> rfl
  | insertAfter b p i =>
    rw [execute, EStateM.run_bind, run_insertLine b (Nat.le_refl (p + 1)) i, perform]
    cases g.insertAt b p (p + 1) i <;> rfl
  | append b text => rfl

/-! ### Insertions -/

/-- The instruction may be inserted next to line `position` of block `b`: it is an ordinary one, the
graph has all temps that it names, and there is such a line. -/
structure Admits (g : Graph) (b position : Nat) (i : Instr) : Prop where
  ordinary : (∀ x, i ≠ .transfer x) ∧ (∀ l, i ≠ .mark l) ∧ ∀ text, i ≠ .memo text
  slot_lt : ∀ t ∈ i.temps, t.slot < g.tempCount
  line : ∃ block, g.blocks[b]? = some block ∧ position < block.body.length

/-- The second graph is the first one with one more line in block `b`: first the lines in front of
`place`, then the instruction with nothing known about it, then the other lines. -/
def Inserted (g g' : Graph) (b place : Nat) (i : Instr) : Prop :=
  ∃ o block, i = .op o ∧ g.blocks[b]? = some block ∧
    g' = { g with blocks := g.blocks.set b { block with
      body := block.body.take place ++ ⟨o, .empty _, none⟩ :: block.body.drop place } }

theorem insertable_eq_ok_iff {g : Graph} {i : Instr} {o : Op} :
    g.insertable i = .ok o ↔ i = .op o ∧ ∀ t ∈ o.temps, t.slot < g.tempCount := by
  refine ⟨insertable_eq_ok, ?_⟩
  rintro ⟨rfl, htemps⟩
  have hfind : o.temps.find? (fun t => g.tempCount ≤ t.slot) = none :=
    List.find?_eq_none.mpr fun t ht => by simpa using htemps t ht
  simp only [insertable, Instr.op?, hfind]

theorem insertAt_eq_ok_iff {g g' : Graph} {b position place : Nat} {i : Instr} :
    g.insertAt b position place i = .ok g' ↔
      g.Admits b position i ∧ g.Inserted g' b place i := by
  rw [insertAt, bind_eq_ok_iff]
  constructor
  · rintro ⟨o, ho, h⟩
    obtain ⟨rfl, htemps⟩ := insertable_eq_ok_iff.mp ho
    split at h
    · cases h
    · next block hb =>
      split at h
      · next hp =>
        cases h
        exact ⟨⟨⟨nofun, nofun, nofun⟩, htemps, block, hb, hp⟩, o, block, rfl, hb, rfl⟩
      · cases h
  · rintro ⟨⟨-, htemps, _, hb', hp⟩, o, block, rfl, hb, rfl⟩
    obtain rfl := Option.some.inj (hb.symm.trans hb')
    refine ⟨o, insertable_eq_ok_iff.mpr ⟨rfl, htemps⟩, ?_⟩
    simp only [hb, if_pos hp]
    rfl

/-- What can be inserted is an operation, and there is a graph with it inserted. -/
theorem Admits.exists_inserted {g : Graph} {b position : Nat} {i : Instr}
    (h : g.Admits b position i) (place : Nat) : ∃ g', g.Inserted g' b place i := by
  obtain ⟨block, hb, -⟩ := h.line
  match i with
  | .op o => exact ⟨_, o, block, rfl, hb, rfl⟩
  | .transfer x => exact absurd rfl (h.ordinary.1 x)
  | .mark l => exact absurd rfl (h.ordinary.2.1 l)
  | .memo text => exact absurd rfl (h.ordinary.2.2 text)

/-- The command succeeds just if the instruction may be inserted next to line `position` of block
`b`, and then inserts it in front of line `place`. -/
structure Inserts (g : Graph) (c : Command) (b position place : Nat) (i : Instr) : Prop where
  succeeds_iff : (∃ reply g', (execute c).run g = .ok reply g') ↔ g.Admits b position i
  inserted : ∀ {reply g'}, (execute c).run g = .ok reply g' →
    reply = .done ∧ g.Inserted g' b place i

theorem inserts_of_perform {g : Graph} {c : Command} {b position place : Nat} {i : Instr}
    (h : g.perform c = (fun g' => (.done, g')) <$> g.insertAt b position place i) :
    g.Inserts c b position place i := by
  have hrun : ∀ {reply g'}, (execute c).run g = .ok reply g' ↔
      reply = .done ∧ g.Admits b position i ∧ g.Inserted g' b place i := by
    intro reply g'
    rw [run_execute, settle_eq_ok_iff, h, map_eq_ok_iff, ← insertAt_eq_ok_iff]
    constructor
    · rintro ⟨g'', hins, heq⟩
      cases heq
      exact ⟨rfl, hins⟩
    · rintro ⟨rfl, hins⟩
      exact ⟨g', hins, rfl⟩
  refine ⟨⟨?_, fun hadmits => ?_⟩, fun hok => ?_⟩
  · rintro ⟨reply, g', hok⟩
    exact (hrun.mp hok).2.1
  · obtain ⟨g', hinserted⟩ := hadmits.exists_inserted place
    exact ⟨.done, g', hrun.mpr ⟨rfl, hadmits, hinserted⟩⟩
  · exact ⟨(hrun.mp hok).1, (hrun.mp hok).2.2⟩

/-- **Failing commands leave no trace, and insertions are local.** A command that fails leaves the
graph as it was, with all that is stored in it. An insertion succeeds just if the instruction may
stand there, and puts one line into one body. -/
theorem execute_atomic (g : Graph) :
    (∀ {c : Command} {e : Error} {g' : Graph}, (execute c).run g = .error e g' → g' = g) ∧
    ∀ (b position : Nat) (i : Instr),
      g.Inserts (.insertBefore b position i) b position position i ∧
      g.Inserts (.insertAfter b position i) b position (position + 1) i := by
  refine ⟨fun {c e g'} herror => ?_, fun b position i => ⟨?_, ?_⟩⟩
  · rw [run_execute] at herror
    exact eq_of_settle_eq_error herror
  · exact inserts_of_perform rfl
  · exact inserts_of_perform rfl

theorem execute_atomic_loop :
    ∃ g, build .loop .structureOnly = .ok g ∧
      (∃ e g', (execute (.liveness (some 1))).run g = .error e g' ∧ g' = g) ∧
      ∃ reply g', (execute (.insertAfter 0 0 (.op (.param ⟨1⟩)))).run g = .ok reply g' ∧
        reply = .done ∧ g.Inserted g' 0 1 (.op (.param ⟨1⟩)) := by
  have hloop : (fun g : Graph => (g.perform (.liveness (some 1)),
      (g.perform (.insertAfter 0 0 (.op (.param ⟨1⟩)))).isOk)) <$> build .loop .structureOnly =
        .ok (.error (.iterationLimit 1), true) := by
    decide +kernel
  obtain ⟨g, hg, hpair⟩ := map_eq_ok_iff.mp hloop
  obtain ⟨hlive, hins⟩ := Prod.mk.inj hpair
  obtain ⟨⟨reply, g'⟩, hok⟩ := exists_eq_ok hins
  have hfails : (execute (.liveness (some 1))).run g = .error (.iterationLimit 1) g := by
    rw [run_execute, hlive]
    rfl
  have hsucceeds : (execute (.insertAfter 0 0 (.op (.param ⟨1⟩)))).run g = .ok reply g' := by
    rw [run_execute, settle_eq_ok_iff, hok]
  exact ⟨g, hg, ⟨_, _, hfails, (execute_atomic g).1 hfails⟩, reply, g', hsucceeds,
    ((execute_atomic g).2 0 0 _).2.inserted hsucceeds⟩

end Graph

end FlowFacts
