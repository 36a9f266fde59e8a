import FlowFacts.Proofs.Liveness.Shape

/-!
# The parts of a block

What is stored about a block falls into three parts: the liveness of the block, that of its lines,
and the chains of its lines. Each analysis writes one part and leaves the other two alone, and a
block is what it does together with its parts.

What an analysis writes depends on the shape of the blocks, for the lines also on the stored
liveness of the blocks.

## Main definitions

* `Block.cleared` — the block without its parts
* `Block.liveSets`, `Block.lineSets`, `Block.chains` — the parts

## Main results

* `eq_of_parts` — blocks consist of their parts
* `exists_setLiveness_of_cleared`, `map_lineSets_setLineLiveness`, `map_chains_setChains` — what the
  analyses write
* `parts_of_setLiveness`, `parts_of_setLineLiveness`, `parts_of_setChains` — what they leave alone
-/

namespace FlowFacts

variable {n : Nat} {blocks blocks' : List (Block n)}

namespace Block

/-- The block without what analyses store. -/
def cleared (b : Block n) : Block n :=
  { b with
    body := b.ops.map (Line.blank n)
    defs := .empty n
    uses := .empty n
    liveIn := .empty n
    liveOut := .empty n }

/-- The stored liveness of the block. -/
def liveSets (b : Block n) : TempSet n × TempSet n × TempSet n × TempSet n :=
  (b.defs, b.uses, b.liveIn, b.liveOut)

/-- The stored liveness of the lines. -/
def lineSets (b : Block n) : List (TempSet n) := b.body.map Line.liveOut

/-- The stored chains of the lines. -/
def chains (b : Block n) : List (Option (List Use)) := b.body.map Line.chain

theorem ops_cleared (b : Block n) : b.cleared.ops = b.ops := by
  rw [ops, cleared, List.map_map]
  exact List.map_id' _

theorem ops_eq_of_cleared {b b' : Block n} (h : b.cleared = b'.cleared) : b.ops = b'.ops := by
  rw [← ops_cleared, h, ops_cleared]

theorem cleared_cleared (b : Block n) : b.cleared.cleared = b.cleared := by
  rw [cleared, ops_cleared]
  rfl

end Block

theorem map_prodMk_eq {α β γ : Type} {f : α → β} {g : α → γ} {as bs : List α}
    (hf : as.map f = bs.map f) (hg : as.map g = bs.map g) :
    (as.map fun a => (f a, g a)) = bs.map fun a => (f a, g a) := by
  rw [← List.zip_map', ← List.zip_map', hf, hg]

/-- A block consists of its parts. -/
theorem Block.eq_of_parts {b b' : Block n} (hcleared : b.cleared = b'.cleared)
    (hsets : b.liveSets = b'.liveSets) (hlines : b.lineSets = b'.lineSets)
    (hchains : b.chains = b'.chains) : b = b' := by
  have hbody : b.body = b'.body := by
    have hinj : Function.Injective fun l : Line n => (l.op, l.liveOut, l.chain) := by
      rintro ⟨_, _, _⟩ ⟨_, _, _⟩ h
      cases h
      rfl
    exact List.map_injective_iff.mpr hinj
      (map_prodMk_eq (Block.ops_eq_of_cleared hcleared) (map_prodMk_eq hlines hchains))
  cases b
  cases b'
  simp only [cleared, liveSets, Block.mk.injEq, Prod.mk.injEq] at hcleared hsets hbody ⊢
  tauto

theorem eq_of_parts (hcleared : blocks.map Block.cleared = blocks'.map Block.cleared)
    (hsets : blocks.map Block.liveSets = blocks'.map Block.liveSets)
    (hlines : blocks.map Block.lineSets = blocks'.map Block.lineSets)
    (hchains : blocks.map Block.chains = blocks'.map Block.chains) : blocks = blocks' := by
  have hinj : Function.Injective fun b : Block n =>
      (b.cleared, b.liveSets, b.lineSets, b.chains) := by
    intro b b' h
    simp only [Prod.mk.injEq] at h
    exact Block.eq_of_parts h.1 h.2.1 h.2.2.1 h.2.2.2
  exact List.map_injective_iff.mpr hinj
    (map_prodMk_eq hcleared (map_prodMk_eq hsets (map_prodMk_eq hlines hchains)))

theorem sameShape_of_cleared (h : blocks.map Block.cleared = blocks'.map Block.cleared) :
    SameShape blocks blocks' := by
  have hshape : ∀ bs : List (Block n),
      (bs.map Block.cleared).map Block.shape = bs.map Block.shape := by
    intro bs
    rw [List.map_map]
    exact List.map_congr_left fun b _ => Prod.ext b.ops_cleared rfl
  rw [SameShape, ← hshape, h, hshape]

/-! ### What each analysis finds -/

theorem map_sets_eq_of_sameSets (h : List.Forall₂ Block.SameSets blocks blocks') :
    blocks.map Block.liveSets = blocks'.map Block.liveSets := by
  induction h with
  | nil => rfl
  | cons hb _ ih =>
    rw [List.map_cons, List.map_cons, ih]
    refine congrArg (· :: _) ?_
    rw [Block.liveSets, Block.liveSets, hb.defs.eq, hb.uses.eq, hb.liveIn.eq, hb.liveOut.eq]

/-- What liveness of blocks finds depends on their shape. -/
theorem exists_setLiveness_of_cleared
    (h : blocks.map Block.cleared = blocks'.map Block.cleared) {v : Nat} {found : List (Block n)}
    (hset : setLiveness blocks none = .ok (v, found)) :
    ∃ v' found', setLiveness blocks' none = .ok (v', found') ∧
      found'.map Block.liveSets = found.map Block.liveSets := by
  have hshape := sameShape_of_cleared h
  -- without a limit of its own, a solve takes one from the shape
  have hlimit : setLiveness blocks (some (defaultLimit blocks n)) = .ok (v, found) := hset
  obtain ⟨v', found', hset', hsame⟩ := hshape.exists_setLiveness (fun _ _ _ _ => Iff.rfl) hlimit
  rw [hshape.defaultLimit_eq] at hset'
  exact ⟨v', found', hset', (map_sets_eq_of_sameSets hsame).symm⟩

/-- What is live after the lines depends on the operations and on what is live at the end. -/
theorem annotate_congr (out : TempSet n) {body body' : List (Line n)}
    (h : body.map Line.op = body'.map Line.op) :
    (annotate out body).1.map Line.liveOut = (annotate out body').1.map Line.liveOut ∧
      (annotate out body).2 = (annotate out body').2 := by
  induction body generalizing body' with
  | nil =>
    obtain rfl : body' = [] := List.map_eq_nil_iff.mp h.symm
    exact ⟨rfl, rfl⟩
  | cons l body ih =>
    obtain ⟨l', body', rfl, hl, hbody⟩ := List.map_eq_cons_iff.mp h.symm
    obtain ⟨hlines, hlive⟩ := ih hbody.symm
    simp only [annotate, List.map_cons, hlines, hlive, hl, and_self]

theorem Block.lineSets_setLineLiveness {b b' : Block n} (hcleared : b.cleared = b'.cleared)
    (hsets : b.liveSets = b'.liveSets) :
    b.setLineLiveness.lineSets = b'.setLineLiveness.lineSets := by
  have hend : b.liveAtEnd = b'.liveAtEnd := by
    have hterm : b.cleared.terminator = b'.cleared.terminator := congrArg _ hcleared
    have hout : b.liveOut = b'.liveOut := congrArg (fun s => s.2.2.2) hsets
    rw [liveAtEnd, liveAtEnd, operand, operand, show b.terminator = _ from hterm, hout]
    rfl
  have hlines := (annotate_congr b.liveAtEnd (ops_eq_of_cleared hcleared)).1
  rw [lineSets, lineSets, setLineLiveness, setLineLiveness, hlines, hend]

theorem map_lineSets_setLineLiveness
    (hcleared : blocks.map Block.cleared = blocks'.map Block.cleared)
    (hsets : blocks.map Block.liveSets = blocks'.map Block.liveSets) :
    (blocks.map Block.setLineLiveness).map Block.lineSets =
      (blocks'.map Block.setLineLiveness).map Block.lineSets := by
  rw [List.map_map, List.map_map]
  refine map_eq_map_of_getElem? (by simpa using congrArg List.length hcleared) fun {i b} hb => ?_
  obtain ⟨b', hb', hc⟩ := exists_of_map_eq_map hcleared hb
  obtain ⟨_, hb'', hs⟩ := exists_of_map_eq_map hsets hb
  obtain rfl := Option.some.inj (hb'.symm.trans hb'')
  exact ⟨b', hb', Block.lineSets_setLineLiveness hc hs⟩

theorem Line.Chained.chain_eq {n' : Nat} {blocks' : List (Block n')} (h : SameShape blocks blocks')
    {b i : Nat} {block : Block n} {block' : Block n'} {l k : Line n} {l' k' : Line n'}
    (hops : block'.ops = block.ops) (hterm : block'.terminator = block.terminator)
    (hl : Line.Chained blocks b i block l k) (hl' : Line.Chained blocks' b i block' l' k')
    (hop : l'.op = l.op) : k'.chain = k.chain := by
  unfold Line.Chained at hl hl'
  rw [hop] at hl'
  cases hd : l.op.dest with
  | none =>
    simp only [hd] at hl hl'
    rw [← hl, ← hl']
  | some t =>
    simp only [hd] at hl hl'
    obtain ⟨c, hc, rfl⟩ := hl
    obtain ⟨c', hc', rfl⟩ := hl'
    rw [h.chain_eq hops hterm, hc] at hc'
    exact congrArg some (Except.ok.inj hc').symm

/-- Chains depend on the shape. -/
theorem map_chains_setChains {n' : Nat} {blocks' : List (Block n')} (h : SameShape blocks blocks')
    {d d' : Nat} {found : List (Block n)} {found' : List (Block n')}
    (hset : setChains blocks = .ok (d, found)) (hset' : setChains blocks' = .ok (d', found')) :
    found.map Block.chains = found'.map Block.chains := by
  obtain ⟨-, hlen, hget⟩ := exists_of_setChains hset
  obtain ⟨-, hlen', hget'⟩ := exists_of_setChains hset'
  have hlength : found.length = found'.length := by rw [hlen, hlen', h.length_eq]
  refine map_eq_map_of_getElem? hlength fun {b x} hx => ?_
  obtain ⟨y, hy⟩ : ∃ y, found'[b]? = some y :=
    ⟨_, List.getElem?_eq_getElem (hlength ▸ (List.getElem?_eq_some_iff.mp hx).1)⟩
  obtain ⟨block, hb, -, hbody, hline⟩ := hget hx
  obtain ⟨block', hb', -, hbody', hline'⟩ := hget' hy
  obtain ⟨_, hb'', hops, hterm⟩ := h.exists_getElem? hb
  obtain rfl := Option.some.inj (hb'.symm.trans hb'')
  have hlines : y.body.length = x.body.length := by
    rw [hbody, hbody']
    simpa [Block.ops] using congrArg List.length hops
  refine ⟨y, hy, map_eq_map_of_getElem? hlines fun {i k'} hk' => ?_⟩
  obtain ⟨k, hk⟩ : ∃ k, x.body[i]? = some k :=
    ⟨_, List.getElem?_eq_getElem (hlines ▸ (List.getElem?_eq_some_iff.mp hk').1)⟩
  obtain ⟨l', hl', hchained'⟩ := hline' hk'
  obtain ⟨l, hl, hchained⟩ := hline hk
  obtain ⟨_, hl'', hop⟩ := exists_of_map_eq_map hops.symm hl
  obtain rfl := Option.some.inj (hl'.symm.trans hl'')
  exact ⟨k, hk, (hchained.chain_eq h hops hterm hchained' hop).symm⟩

/-! ### What each analysis leaves alone -/

theorem Block.cleared_setLineLiveness (b : Block n) : b.setLineLiveness.cleared = b.cleared := by
  rw [cleared, cleared, ops_setLineLiveness]
  rfl

theorem Block.chains_setLineLiveness (b : Block n) : b.setLineLiveness.chains = b.chains :=
  map_body_setLineLiveness (fun _ _ => rfl) b

/-- Storing chains leaves all other parts alone. -/
theorem parts_of_setChains {d : Nat} (h : setChains blocks = .ok (d, blocks')) :
    blocks'.map Block.cleared = blocks.map Block.cleared ∧
      blocks'.map Block.liveSets = blocks.map Block.liveSets ∧
      blocks'.map Block.lineSets = blocks.map Block.lineSets :=
  ⟨map_eq_of_setChains (e := Line.op) (f := fun ops (b : Block n) => { b with
      body := ops.map (Line.blank n)
      defs := .empty n
      uses := .empty n
      liveIn := .empty n
      liveOut := .empty n }) h (fun _ _ _ => rfl) fun _ _ => rfl,
    map_eq_of_setChains (e := Line.op) (f := fun _ b => b.liveSets) h (fun _ _ _ => rfl)
      fun _ _ => rfl,
    map_eq_of_setChains (e := Line.liveOut) (f := fun sets _ => sets) h (fun _ _ _ => rfl)
      fun _ _ => rfl⟩

/-- Storing liveness of blocks leaves all other parts alone. -/
theorem parts_of_setLiveness {limit : Option Nat} {v : Nat}
    (h : setLiveness blocks limit = .ok (v, blocks')) :
    blocks'.map Block.cleared = blocks.map Block.cleared ∧
      blocks'.map Block.lineSets = blocks.map Block.lineSets ∧
      blocks'.map Block.chains = blocks.map Block.chains :=
  ⟨map_eq_of_setLiveness h fun _ _ _ _ => rfl, map_eq_of_setLiveness h fun _ _ _ _ => rfl,
    map_eq_of_setLiveness h fun _ _ _ _ => rfl⟩

/-- Storing liveness of lines leaves all other parts alone. -/
theorem parts_of_setLineLiveness (blocks : List (Block n)) :
    (blocks.map Block.setLineLiveness).map Block.cleared = blocks.map Block.cleared ∧
      (blocks.map Block.setLineLiveness).map Block.liveSets = blocks.map Block.liveSets ∧
      (blocks.map Block.setLineLiveness).map Block.chains = blocks.map Block.chains := by
  simp only [List.map_map]
  exact ⟨List.map_congr_left fun b _ => b.cleared_setLineLiveness, rfl,
    List.map_congr_left fun b _ => b.chains_setLineLiveness⟩

end FlowFacts
