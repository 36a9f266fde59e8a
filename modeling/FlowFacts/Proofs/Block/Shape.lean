import FlowFacts.Execution.Graph
import FlowFacts.Liveness.Block
import FlowFacts.Liveness.Line
import FlowFacts.Path
import FlowFacts.Chain
import FlowFacts.Proofs.Attempts
import FlowFacts.Proofs.Dataflow.Solution

/-!
# The shape of blocks

A block stores facts beside its body and its terminator. How blocks run and which paths lead through
them does not depend on the facts: it is a matter of their shape, the operations and the terminator
of each. Analyses store facts and leave the shape alone, so what holds of the paths before an
analysis holds after it.

## Main results

* `SameShape.run_eq` — blocks of one shape run alike, step by step
* `SameShape.liveAt_iff`, `SameShape.reaches` — they have the same paths
* `SameShape.chain_eq` — they have the same chains
* `sameShape_setLiveness`, `sameShape_setLineLiveness`, `sameShape_setChains` — analyses keep the
  shape
-/

namespace FlowFacts

variable {n n' : Nat}

/-! ### Blocks that have something in common -/

theorem exists_of_map_eq_map {α β γ : Type} {f : α → γ} {g : β → γ} {as : List α} {bs : List β}
    (h : as.map f = bs.map g) {i : Nat} {a : α} (ha : as[i]? = some a) :
    ∃ b, bs[i]? = some b ∧ g b = f a := by
  have hget : (bs.map g)[i]? = some (f a) := by
    rw [← h, List.getElem?_map, ha]
    rfl
  rw [List.getElem?_map] at hget
  exact Option.map_eq_some_iff.mp hget

theorem map_eq_map_of_getElem? {α β γ : Type} {f : α → γ} {g : β → γ} {as : List α} {bs : List β}
    (hlen : as.length = bs.length)
    (h : ∀ {i : Nat} {a : α}, as[i]? = some a → ∃ b, bs[i]? = some b ∧ g b = f a) :
    as.map f = bs.map g := by
  refine List.ext_getElem? fun i => ?_
  rw [List.getElem?_map, List.getElem?_map]
  cases ha : as[i]? with
  | none =>
    have hle : bs.length ≤ i := hlen ▸ List.getElem?_eq_none_iff.mp ha
    rw [List.getElem?_eq_none hle]
    rfl
  | some a =>
    obtain ⟨b, hb, hgf⟩ := h ha
    rw [hb]
    exact congrArg some hgf.symm

/-- What a block does: its operations and its terminator. -/
def Block.shape (b : Block n) : List Op × Terminator := (b.ops, b.terminator)

/-- The blocks do the same, whatever facts they store and whatever capacity their sets have. -/
def SameShape (blocks : List (Block n)) (blocks' : List (Block n')) : Prop :=
  blocks.map Block.shape = blocks'.map Block.shape

namespace SameShape

variable {blocks : List (Block n)} {blocks' : List (Block n')}

theorem refl (blocks : List (Block n)) : SameShape blocks blocks := rfl

theorem symm (h : SameShape blocks blocks') : SameShape blocks' blocks := Eq.symm h

theorem trans {m : Nat} {blocks'' : List (Block m)} (h : SameShape blocks blocks')
    (h' : SameShape blocks' blocks'') : SameShape blocks blocks'' := Eq.trans h h'

theorem length_eq (h : SameShape blocks blocks') : blocks.length = blocks'.length := by
  simpa using congrArg List.length h

theorem exists_getElem? (h : SameShape blocks blocks') {b : Nat} {block : Block n}
    (hb : blocks[b]? = some block) :
    ∃ block', blocks'[b]? = some block' ∧ block'.ops = block.ops ∧
      block'.terminator = block.terminator := by
  obtain ⟨block', hb', heq⟩ := exists_of_map_eq_map h hb
  exact ⟨block', hb', congrArg Prod.fst heq, congrArg Prod.snd heq⟩

theorem map_successors (h : SameShape blocks blocks') :
    blocks.map Block.successors = blocks'.map Block.successors := by
  have hshape : ∀ {m : Nat} (bs : List (Block m)),
      bs.map Block.successors = (bs.map Block.shape).map fun s => s.2.successors := by
    intro m bs
    rw [List.map_map]
    rfl
  rw [hshape, hshape, show blocks.map Block.shape = _ from h]

/-! ### Running -/

theorem step_eq {σ : Type} (h : SameShape blocks blocks') (m : Interpretation σ)
    (r : Run Point σ) : Block.step m blocks r = Block.step m blocks' r := by
  obtain ⟨p | v, s, ops⟩ := r
  · simp only [Block.step, Block.exec]
    cases hb : blocks[p.block]? with
    | none =>
      have hb' : blocks'[p.block]? = none :=
        List.getElem?_eq_none (h.length_eq ▸ List.getElem?_eq_none_iff.mp hb)
      rw [hb']
    | some block =>
      obtain ⟨block', hb', hops, hterm⟩ := h.exists_getElem? hb
      rw [hb']
      simp only [hops, hterm]
  · rfl

/-- Blocks of one shape run alike, step by step. -/
theorem run_eq {σ : Type} (h : SameShape blocks blocks') (m : Interpretation σ) (p : Point)
    (s : σ) : Block.run m blocks p s = Block.run m blocks' p s := by
  funext k
  induction k with
  | zero => rfl
  | succ k ih => rw [Block.run, Block.run, ih, h.step_eq]

/-! ### Paths -/

theorem reads (h : SameShape blocks blocks') {t : Temp} {p : Point} (hr : Reads blocks t p) :
    Reads blocks' t p := by
  cases hr with
  | line hb ho ht =>
    obtain ⟨block', hb', hops, -⟩ := h.exists_getElem? hb
    exact .line hb' (hops ▸ ho) ht
  | terminator hb ht =>
    obtain ⟨block', hb', hops, hterm⟩ := h.exists_getElem? hb
    rw [← hops]
    refine .terminator hb' ?_
    rw [Block.operand, hterm]
    exact ht

theorem passes (h : SameShape blocks blocks') {t : Temp} {p q : Point}
    (hp : Passes blocks t p q) : Passes blocks' t p q := by
  cases hp with
  | line hb ho ht =>
    obtain ⟨block', hb', hops, -⟩ := h.exists_getElem? hb
    exact .line hb' (hops ▸ ho) ht
  | edge hb hs =>
    obtain ⟨block', hb', hops, hterm⟩ := h.exists_getElem? hb
    rw [← hops]
    refine .edge hb' ?_
    rw [Block.successors, hterm]
    exact hs

theorem clear (h : SameShape blocks blocks') {t : Temp} {p q : Point} (hc : Clear blocks t p q) :
    Clear blocks' t p q := by
  induction hc with
  | refl p => exact .refl p
  | step hp _ ih => exact .step (h.passes hp) ih

theorem liveAt_iff (h : SameShape blocks blocks') {t : Temp} {p : Point} :
    LiveAt blocks t p ↔ LiveAt blocks' t p := by
  constructor
  · rintro ⟨q, hc, hr⟩
    exact ⟨q, h.clear hc, h.reads hr⟩
  · rintro ⟨q, hc, hr⟩
    exact ⟨q, h.symm.clear hc, h.symm.reads hr⟩

theorem use_eq (h : SameShape blocks blocks') (p : Point) : p.use blocks = p.use blocks' := by
  unfold Point.use
  cases hb : blocks[p.block]? with
  | none =>
    have hb' : blocks'[p.block]? = none :=
      List.getElem?_eq_none (h.length_eq ▸ List.getElem?_eq_none_iff.mp hb)
    rw [hb']
    rfl
  | some block =>
    obtain ⟨block', hb', hops, -⟩ := h.exists_getElem? hb
    rw [hb', Option.bind_some, Option.bind_some, hops]

theorem reaches (h : SameShape blocks blocks') {t : Temp} {p : Point} {u : Use}
    (hr : Reaches blocks t p u) : Reaches blocks' t p u := by
  obtain ⟨q, hc, hq, rfl⟩ := hr
  exact ⟨q, h.clear hc, h.reads hq, (h.use_eq q).symm⟩

/-! ### Chains -/

theorem scan_eq {block : Block n} {block' : Block n'} (hops : block'.ops = block.ops)
    (hterm : block'.terminator = block.terminator) (b : Nat) (t : Temp) (skip : Nat) :
    block'.scan b t skip = block.scan b t skip := by
  rw [Block.scan, Block.scan, Block.operand, Block.operand, hops, hterm]

theorem onward_eq {block : Block n} {block' : Block n'}
    (hterm : block'.terminator = block.terminator) (killed : Bool) (depth : Nat) :
    block'.onward killed depth = block.onward killed depth := by
  rw [Block.onward, Block.onward, Block.successors, Block.successors, hterm]

/-- Searches through blocks of one shape find the same, in the same order. -/
theorem search_eq (h : SameShape blocks blocks') (t : Temp) (limit : Nat)
    (stack : List (Nat × Nat)) (scanned : List Nat) :
    search blocks' t limit stack scanned = search blocks t limit stack scanned := by
  fun_induction search blocks t limit stack scanned with
  | case1 => rw [search]
  | case2 scanned b depth rest hlimit => rw [search, if_pos hlimit]
  | case3 scanned b depth rest hlimit hs ih => rw [search, if_neg hlimit, dif_pos hs, ih]
  | case4 scanned b depth rest hlimit hs hb uses killed hscan ih =>
    obtain ⟨block', hb', hops, hterm⟩ := h.exists_getElem? (List.getElem?_eq_getElem hb)
    obtain ⟨hlt, rfl⟩ := List.getElem?_eq_some_iff.mp hb'
    rw [search, if_neg hlimit, dif_neg hs, dif_pos hlt]
    simp only [scan_eq hops hterm, hscan, onward_eq hterm, ih]
  | case5 scanned b depth rest hlimit hs hb ih =>
    rw [search, if_neg hlimit, dif_neg hs, dif_neg (h.length_eq ▸ hb), ih]

theorem chain_eq (h : SameShape blocks blocks') {block : Block n} {block' : Block n'}
    (hops : block'.ops = block.ops) (hterm : block'.terminator = block.terminator) (b i : Nat)
    (t : Temp) : block'.chain blocks' b i t = block.chain blocks b i t := by
  rw [Block.chain, Block.chain, scan_eq hops hterm, ← h.length_eq]
  simp only [onward_eq hterm, h.search_eq]

end SameShape

/-! ### Analyses -/

/-- Storing what is live after each line changes these sets and nothing else. -/
theorem map_body_setLineLiveness {α : Type} {e : Line n → α}
    (he : ∀ (l : Line n) liveOut, e { l with liveOut } = e l) (b : Block n) :
    b.setLineLiveness.body.map e = b.body.map e := by
  have hannotate : ∀ (out : TempSet n) (body : List (Line n)),
      (annotate out body).1.map e = body.map e := by
    intro out body
    induction body with
    | nil => rfl
    | cons l body ih => simp [annotate, ih, he]
  exact hannotate b.liveAtEnd b.body

theorem ops_setLineLiveness (b : Block n) : b.setLineLiveness.ops = b.ops :=
  map_body_setLineLiveness (fun _ _ => rfl) b

theorem sameShape_setLineLiveness (blocks : List (Block n)) :
    SameShape (blocks.map Block.setLineLiveness) blocks := by
  rw [SameShape, List.map_map]
  refine List.map_congr_left fun b _ => ?_
  exact Prod.ext (ops_setLineLiveness b) rfl

/-- What stored liveness consists of: the states of a solution, block by block. -/
theorem exists_of_setLiveness {blocks blocks' : List (Block n)} {limit : Option Nat} {v : Nat}
    (h : setLiveness blocks limit = .ok (v, blocks')) :
    ∃ solution, solveLiveness blocks limit = .ok solution ∧ blocks'.length = blocks.length ∧
      ∀ {b : Nat} {block' : Block n}, blocks'[b]? = some block' →
        ∃ block, blocks[b]? = some block ∧ solution.inputs[b]? = some block'.liveIn ∧
          solution.outputs[b]? = some block'.liveOut ∧
          block.setLive (block.summary n) block'.liveIn block'.liveOut = block' := by
  unfold setLiveness at h
  split at h
  · cases h
  · next solution hsolve =>
    cases h
    obtain ⟨hin, hout, -⟩ := solves_of_solve hsolve
    refine ⟨solution, hsolve, by simp [hin, hout], fun {b block'} hb => ?_⟩
    rw [List.getElem?_map] at hb
    obtain ⟨⟨block, x, y⟩, hz, rfl⟩ := Option.map_eq_some_iff.mp hb
    obtain ⟨hblock, hxy⟩ := List.getElem?_zip_eq_some.mp hz
    obtain ⟨hx, hy⟩ := List.getElem?_zip_eq_some.mp hxy
    exact ⟨block, hblock, hx, hy, rfl⟩

/-- Storing liveness changes the sets of the blocks and nothing else. -/
theorem map_eq_of_setLiveness {α : Type} {f : Block n → α} {blocks blocks' : List (Block n)}
    {limit : Option Nat} {v : Nat} (h : setLiveness blocks limit = .ok (v, blocks'))
    (hf : ∀ b s x y, f (b.setLive s x y) = f b) : blocks'.map f = blocks.map f := by
  obtain ⟨_, -, hlen, hget⟩ := exists_of_setLiveness h
  refine map_eq_map_of_getElem? hlen fun {b block'} hb' => ?_
  obtain ⟨block, hb, -, -, heq⟩ := hget hb'
  exact ⟨block, hb, heq ▸ (hf ..).symm⟩

theorem sameShape_setLiveness {blocks blocks' : List (Block n)} {limit : Option Nat} {v : Nat}
    (h : setLiveness blocks limit = .ok (v, blocks')) : SameShape blocks' blocks :=
  map_eq_of_setLiveness h fun _ _ _ _ => rfl

/-- What a line becomes when chains are stored. -/
def Line.Chained (blocks : List (Block n)) (b i : Nat) (block : Block n) (l l' : Line n) : Prop :=
  match l.op.dest with
  | some t => ∃ c, block.chain blocks b i t = .ok c ∧ { l with chain := some c } = l'
  | none => { l with chain := none } = l'

theorem Line.Chained.exists_eq {blocks : List (Block n)} {b i : Nat} {block : Block n}
    {l l' : Line n} (h : Line.Chained blocks b i block l l') :
    ∃ chain, { l with chain := chain } = l' := by
  unfold Line.Chained at h
  split at h
  · obtain ⟨c, -, heq⟩ := h
    exact ⟨_, heq⟩
  · exact ⟨_, h⟩

theorem Line.Chained.op_eq {blocks : List (Block n)} {b i : Nat} {block : Block n}
    {l l' : Line n} (h : Line.Chained blocks b i block l l') : l'.op = l.op := by
  obtain ⟨_, rfl⟩ := h.exists_eq
  rfl

/-- What stored chains consist of: those of each line, block by block. -/
theorem exists_of_setChains {blocks blocks' : List (Block n)} {d : Nat}
    (h : setChains blocks = .ok (d, blocks')) :
    d = definitionCount blocks ∧ blocks'.length = blocks.length ∧
      ∀ {b : Nat} {block' : Block n}, blocks'[b]? = some block' →
        ∃ block, blocks[b]? = some block ∧ { block with body := block'.body } = block' ∧
          block'.body.length = block.body.length ∧
          ∀ {i : Nat} {l' : Line n}, block'.body[i]? = some l' →
            ∃ l, block.body[i]? = some l ∧ Line.Chained blocks b i block l l' := by
  obtain ⟨chained, hchained, hd⟩ := bind_eq_ok_iff.mp h
  cases hd
  refine ⟨rfl, by simpa using length_of_mapM hchained, fun {b block'} hb => ?_⟩
  obtain ⟨⟨block, b'⟩, hz, hset⟩ := exists_of_mapM_getElem? hchained hb
  rw [List.getElem?_zipIdx, Option.map_eq_some_iff] at hz
  obtain ⟨_, hblock, hz⟩ := hz
  obtain ⟨rfl, rfl⟩ := Prod.mk.inj hz
  obtain ⟨body, hbody, hset⟩ := bind_eq_ok_iff.mp hset
  cases hset
  refine ⟨_, hblock, rfl, by simpa using length_of_mapM hbody, fun {i l'} hl' => ?_⟩
  obtain ⟨⟨l, i'⟩, hz, hline⟩ := exists_of_mapM_getElem? hbody hl'
  rw [List.getElem?_zipIdx, Option.map_eq_some_iff] at hz
  obtain ⟨_, hl, hz⟩ := hz
  obtain ⟨rfl, rfl⟩ := Prod.mk.inj hz
  refine ⟨_, hl, ?_⟩
  unfold Line.Chained
  simp only [Nat.zero_add] at hline ⊢
  cases hdest : Op.dest _ with
  | some t =>
    simp only [hdest] at hline ⊢
    exact map_eq_ok_iff.mp hline
  | none =>
    simp only [hdest] at hline ⊢
    cases hline
    rfl

/-- Storing chains changes the chains of the lines and nothing else. -/
theorem map_eq_of_setChains {α β : Type} {f : List α → Block n → β} {e : Line n → α}
    {blocks blocks' : List (Block n)} {d : Nat} (h : setChains blocks = .ok (d, blocks'))
    (hf : ∀ (as : List α) b body, f as { b with body } = f as b)
    (he : ∀ (l : Line n) chain, e { l with chain } = e l) :
    (blocks'.map fun b => f (b.body.map e) b) = blocks.map fun b => f (b.body.map e) b := by
  obtain ⟨-, hlen, hget⟩ := exists_of_setChains h
  refine map_eq_map_of_getElem? hlen fun {b block'} hb' => ?_
  obtain ⟨block, hb, heq, hbody, hline⟩ := hget hb'
  have hmap : block'.body.map e = block.body.map e := by
    refine map_eq_map_of_getElem? hbody fun {i l'} hl' => ?_
    obtain ⟨l, hl, hchained⟩ := hline hl'
    obtain ⟨chain, hchain⟩ := hchained.exists_eq
    exact ⟨l, hl, hchain ▸ (he ..).symm⟩
  refine ⟨block, hb, ?_⟩
  rw [hmap, ← heq]
  exact (hf ..).symm

theorem sameShape_setChains {blocks blocks' : List (Block n)} {d : Nat}
    (h : setChains blocks = .ok (d, blocks')) : SameShape blocks' blocks :=
  map_eq_of_setChains (f := fun ops b => (ops, b.terminator)) (e := Line.op) h
    (fun _ _ _ => rfl) fun _ _ => rfl

end FlowFacts
