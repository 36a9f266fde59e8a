import FlowFacts.Proofs.Attempts
import FlowFacts.Proofs.Withdrawal
import FlowFacts.Pruning

/-!
# What is left after pruning

Pruning is four passes over a list of blocks: it marks what goes, threads the jumps of what stays,
drops the rest, and numbers anew. Seen from a block that stays, all of this comes to one thing. The
block keeps its body and gets a new number, and each of its targets is replaced by the block at
which control to the old target now lands (`Lands`). A branch whose targets land at the same block
is a jump to it.

## Main definitions

* `marked` — the blocks, with those to be removed marked
* `Lands` — where control to a block goes after pruning
* `Terminator.Threads` — a terminator and what threading makes of it

## Main results

* `exists_pruned` — every block that stays is among the pruned blocks, under its new number
* `exists_of_pruned` — there are no other pruned blocks
* `exists_origin_of_getElem?` — what pruning leaves alone
-/

namespace FlowFacts

variable {n : Nat}

/-- The blocks, with those to be removed marked. -/
def marked (blocks : List (Block n)) : List (Block n) := markRemovals (liveCounts blocks) blocks

theorem getElem?_marked (blocks : List (Block n)) (i : Nat) :
    (marked blocks)[i]? = blocks[i]?.map fun b =>
      { b with cancelled := (removal? (liveCounts blocks) i b).isSome } := by
  simp [marked, markRemovals, List.getElem?_zipIdx, Function.comp_def]

@[simp] theorem length_marked (blocks : List (Block n)) :
    (marked blocks).length = blocks.length := by
  simp [marked, markRemovals]

/-- Control to block `s` arrives at the block that is numbered `k` in the end. -/
def Lands (blocks : List (Block n)) (s k : Nat) : Prop :=
  ∃ c, chase (marked blocks) blocks.length s = .ok c ∧ newNumber? (marked blocks) c = some k

/-- The targets of a terminator are replaced along a relation, and a branch whose targets are
replaced by the same block becomes a jump. -/
inductive Terminator.Threads (L : Nat → Nat → Prop) : Terminator → Terminator → Prop
  | ret (v : Option Temp) : Threads L (.ret v) (.ret v)
  | jump {t k : Nat} (h : L t k) : Threads L (.jump t) (.jump k)
  | branch {test : Test} {c : Temp} {t f k l : Nat} (ht : L t k) (hf : L f l) :
      Threads L (.branch test c t f) (.branch test c k l)
  | merged {test : Test} {c : Temp} {t f k : Nat} (ht : L t k) (hf : L f k) :
      Threads L (.branch test c t f) (.jump k)

theorem Terminator.Threads.mono {L L' : Nat → Nat → Prop} {x y : Terminator} (h : x.Threads L y)
    (hL : ∀ s k, L s k → L' s k) : x.Threads L' y := by
  cases h with
  | ret v => exact .ret v
  | jump h => exact .jump (hL _ _ h)
  | branch ht hf => exact .branch (hL _ _ ht) (hL _ _ hf)
  | merged ht hf => exact .merged (hL _ _ ht) (hL _ _ hf)

/-- Replacing targets twice, with branches merged in between. -/
theorem Terminator.threads_of_retarget {ε : Type} {f g : Nat → Except ε Nat} {x y z : Terminator}
    (hxy : x.retarget f = .ok y) (hyz : y.merge.retarget g = .ok z) :
    x.Threads (fun s k => ∃ c, f s = .ok c ∧ g c = .ok k) z := by
  cases x with
  | ret v =>
    cases hxy
    cases hyz
    exact .ret v
  | jump t =>
    obtain ⟨t', ht, rfl⟩ := map_eq_ok_iff.mp hxy
    obtain ⟨k, hk, rfl⟩ := map_eq_ok_iff.mp hyz
    exact .jump ⟨t', ht, hk⟩
  | branch test c t u =>
    obtain ⟨_, u', hy, hu, rfl⟩ := seq_eq_ok_iff.mp hxy
    obtain ⟨t', ht, rfl⟩ := map_eq_ok_iff.mp hy
    by_cases h : t' = u'
    · rw [Terminator.merge, if_pos h] at hyz
      obtain ⟨k, hk, rfl⟩ := map_eq_ok_iff.mp hyz
      exact .merged ⟨t', ht, hk⟩ ⟨u', hu, h ▸ hk⟩
    · rw [Terminator.merge, if_neg h] at hyz
      obtain ⟨_, l, hz, hl, rfl⟩ := seq_eq_ok_iff.mp hyz
      obtain ⟨k, hk, rfl⟩ := map_eq_ok_iff.mp hz
      exact .branch ⟨t', ht, hk⟩ ⟨u', hu, hl⟩

/-! ### Single passes -/

theorem Block.thread_eq_ok {blocks : List (Block n)} {i : Nat} {b b' : Block n}
    (h : b.thread blocks i = .ok b') :
    b'.ops = b.ops ∧ b'.cancelled = b.cancelled ∧ (b.cancelled = false →
      ∃ x, (b.terminator.retarget fun s =>
          (chase blocks blocks.length s).mapError (Stray.error i blocks.length)) = .ok x ∧
        b'.terminator = x.merge) := by
  unfold Block.thread at h
  split at h
  · rename_i hc
    cases h
    exact ⟨rfl, rfl, fun hf => by simp [hc] at hf⟩
  · obtain ⟨x, hx, h⟩ := bind_eq_ok_iff.mp h
    cases h
    exact ⟨rfl, rfl, fun _ => ⟨x, hx, rfl⟩⟩

theorem Block.renumber_eq_ok {blocks : List (Block n)} {i : Nat} {b b' : Block n}
    (h : b.renumber blocks i = .ok b') :
    b'.ops = b.ops ∧ b'.cancelled = b.cancelled ∧
      b'.number = (newNumber? blocks i).getD 0 ∧ (b.terminator.retarget fun old =>
        match newNumber? blocks old with
        | some new => .ok new
        | none => .error (Error.malformed (.removedTarget i old))) = .ok b'.terminator := by
  obtain ⟨x, hx, h⟩ := bind_eq_ok_iff.mp h
  cases h
  exact ⟨rfl, rfl, rfl, hx⟩

/-- The number that a target gets, if it is that of a block that stays. -/
theorem newNumber?_eq_some_of_ok {blocks : List (Block n)} {i s t : Nat}
    (h : (match newNumber? blocks s with
      | some new => .ok new
      | none => .error (Error.malformed (.removedTarget i s))) = Except.ok t) :
    newNumber? blocks s = some t := by
  split at h
  · rename_i hnew
    exact hnew.trans (congrArg some (Except.ok.inj h))
  · cases h

/-- The new number of a block depends on which blocks up to it stay, and on nothing else. -/
theorem newNumber?_congr_of_take {n' : Nat} {blocks : List (Block n)} {blocks' : List (Block n')}
    {i : Nat} (h : (blocks.map Block.cancelled).take (i + 1) =
      (blocks'.map Block.cancelled).take (i + 1)) :
    newNumber? blocks i = newNumber? blocks' i := by
  have hcount : ∀ {m : Nat} (bs : List (Block m)), (bs.take i).countP (fun b => !b.cancelled) =
      (((bs.map Block.cancelled).take (i + 1)).take i).countP (!·) := by
    intro m bs
    rw [List.take_take, Nat.min_eq_left (Nat.le_succ i), ← List.map_take, List.countP_map]
    rfl
  have hget : blocks[i]?.map Block.cancelled = blocks'[i]?.map Block.cancelled := by
    have hlt := Nat.lt_succ_self i
    rw [← List.getElem?_map, ← List.getElem?_map, ← List.getElem?_take_of_lt hlt, h,
      List.getElem?_take_of_lt hlt]
  unfold newNumber?
  rw [hcount, hcount, h]
  cases hb : blocks[i]? <;> cases hb' : blocks'[i]? <;> simp_all

/-- New numbers depend on which blocks stay, and on nothing else. -/
theorem newNumber?_congr {blocks blocks' : List (Block n)}
    (h : blocks.map Block.cancelled = blocks'.map Block.cancelled) (i : Nat) :
    newNumber? blocks i = newNumber? blocks' i :=
  newNumber?_congr_of_take (congrArg (List.take (i + 1)) h)

/-- A member with a property is in the filtered list, behind those in front of it that have it. -/
theorem getElem?_filter_countP {α : Type} {p : α → Bool} {l : List α} {i : Nat} {a : α}
    (ha : l[i]? = some a) (hp : p a = true) : (l.filter p)[(l.take i).countP p]? = some a := by
  induction l generalizing i with
  | nil => simp at ha
  | cons b l ih =>
    cases i with
    | zero =>
      cases ha
      simp [hp]
    | succ i =>
      rw [List.take_succ_cons, List.countP_cons, List.filter_cons]
      by_cases hb : p b = true
      · simpa [hb] using ih ha
      · simpa [hb] using ih ha

/-- A member of the filtered list has as many in front of it as in the list, of those with the
property. -/
theorem exists_of_getElem?_filter {α : Type} {p : α → Bool} {l : List α} {k : Nat} {a : α}
    (h : (l.filter p)[k]? = some a) : ∃ i, l[i]? = some a ∧ (l.take i).countP p = k := by
  induction l generalizing k with
  | nil => simp at h
  | cons b l ih =>
    rw [List.filter_cons] at h
    by_cases hb : p b = true
    · rw [if_pos hb] at h
      cases k with
      | zero => exact ⟨0, h, rfl⟩
      | succ k =>
        obtain ⟨i, hi, hk⟩ := ih h
        exact ⟨i + 1, hi, by rw [List.take_succ_cons, List.countP_cons_of_pos hb, hk]⟩
    · rw [if_neg hb] at h
      obtain ⟨i, hi, hk⟩ := ih h
      exact ⟨i + 1, hi, by rw [List.take_succ_cons, List.countP_cons_of_neg hb, hk]⟩

/-- The blocks that stay, with their old numbers. -/
def kept (blocks : List (Block n)) : List (Block n × Nat) :=
  blocks.zipIdx.filter fun p => !p.1.cancelled

/-- The new number of a block is its position among the blocks that stay. -/
theorem newNumber?_eq_some_iff {blocks : List (Block n)} {i k : Nat} :
    newNumber? blocks i = some k ↔ ∃ b, (kept blocks)[k]? = some (b, i) := by
  have hcount : (blocks.zipIdx.take i).countP (fun p => !p.1.cancelled) =
      (blocks.take i).countP fun b => !b.cancelled := by
    have hfst : (blocks.zipIdx.take i).map Prod.fst = blocks.take i := by
      rw [List.map_take, List.zipIdx_map_fst]
    rw [← hfst, List.countP_map]
    rfl
  constructor
  · intro h
    rw [newNumber?] at h
    split at h
    · rename_i b hb
      split at h
      · cases h
      · rename_i hc
        cases h
        have hz : blocks.zipIdx[i]? = some (b, i) := by simp [List.getElem?_zipIdx, hb]
        refine ⟨b, hcount ▸ getElem?_filter_countP hz ?_⟩
        simpa using hc
    · cases h
  · rintro ⟨b, hk⟩
    have hc : (!b.cancelled) = true := (List.mem_filter.mp (List.mem_of_getElem? hk)).2
    obtain ⟨j, hj, rfl⟩ := exists_of_getElem?_filter hk
    obtain ⟨hb, rfl⟩ : blocks[j]? = some b ∧ j = i := by simpa [List.getElem?_zipIdx] using hj
    rw [newNumber?, hb, hcount]
    simpa using hc

/-- Different blocks have different new numbers. -/
theorem newNumber?_inj {blocks : List (Block n)} {i j k : Nat} (hi : newNumber? blocks i = some k)
    (hj : newNumber? blocks j = some k) : i = j := by
  obtain ⟨b, hb⟩ := newNumber?_eq_some_iff.mp hi
  obtain ⟨b', hb'⟩ := newNumber?_eq_some_iff.mp hj
  exact (Prod.mk.inj (Option.some.inj (hb.symm.trans hb'))).2

/-! ### All passes -/

/-- A threaded block comes from the block that was at its place. -/
theorem exists_of_thread {blocks threaded : List (Block n)}
    (h : ((marked blocks).zipIdx.mapM fun p => p.1.thread (marked blocks) p.2) = .ok threaded)
    {i : Nat} {b' : Block n} (hi : threaded[i]? = some b') :
    ∃ b, (marked blocks)[i]? = some b ∧ b.thread (marked blocks) i = .ok b' := by
  obtain ⟨⟨b, i'⟩, hz, hb⟩ := exists_of_mapM_getElem? h hi
  obtain ⟨hb₀, rfl⟩ : (marked blocks)[i]? = some b ∧ i = i' := by
    simpa [List.getElem?_zipIdx] using hz
  exact ⟨b, hb₀, hb⟩

/-- Threading removes no block and brings none back. -/
theorem map_cancelled_of_thread {blocks threaded : List (Block n)}
    (h : ((marked blocks).zipIdx.mapM fun p => p.1.thread (marked blocks) p.2) = .ok threaded) :
    threaded.map Block.cancelled = (marked blocks).map Block.cancelled := by
  refine List.ext_getElem? fun i => ?_
  rw [List.getElem?_map, List.getElem?_map]
  cases hb' : threaded[i]? with
  | none =>
    have hlen : threaded.length = (marked blocks).length := by simpa using length_of_mapM h
    rw [List.getElem?_eq_none (hlen ▸ List.getElem?_eq_none_iff.mp hb')]
  | some b' =>
    obtain ⟨b, hb, hthread⟩ := exists_of_thread h hb'
    rw [hb, Option.map_some, Option.map_some, (Block.thread_eq_ok hthread).2.1]

/-- The intermediate results of a successful pruning. -/
structure PruningPasses (blocks threaded survivors : List (Block n)) : Prop where
  thread : ((marked blocks).zipIdx.mapM fun p => p.1.thread (marked blocks) p.2) = .ok threaded
  renumber : ((threaded.zipIdx.filter fun p => !p.1.cancelled).mapM fun p =>
    p.1.renumber threaded p.2) = .ok survivors

theorem exists_passes {blocks : List (Block n)} {pruned : Pruned n}
    (h : prune blocks = .ok pruned) :
    ∃ threaded survivors, PruningPasses blocks threaded survivors ∧
      pruned.blocks = setInDegrees survivors := by
  obtain ⟨threaded, hthread, h⟩ := bind_eq_ok_iff.mp h
  obtain ⟨survivors, hrenumber, h⟩ := bind_eq_ok_iff.mp h
  cases h
  exact ⟨threaded, survivors, ⟨hthread, hrenumber⟩, rfl⟩

theorem getElem?_setInDegrees (blocks : List (Block n)) (k : Nat) :
    (setInDegrees blocks)[k]? =
      blocks[k]?.map fun b => { b with inDegree := (entryCounts blocks).getD k 0 } := by
  have hlen : (entryCounts blocks).length = blocks.length := by simp [entryCounts]
  by_cases hk : k < blocks.length
  · have hk' : k < (entryCounts blocks).length := hlen ▸ hk
    simp [setInDegrees, hk, hk']
  · have hk' : ¬k < (entryCounts blocks).length := hlen ▸ hk
    simp [setInDegrees, hk, hk']

namespace PruningPasses

variable {blocks threaded survivors : List (Block n)}

/-- Both passes over one block that stays. -/
theorem threads (h : PruningPasses blocks threaded survivors) {i : Nat} {b b₁ b₂ : Block n}
    (hb : b.cancelled = false) (h₁ : b.thread (marked blocks) i = .ok b₁)
    (h₂ : b₁.renumber threaded i = .ok b₂) :
    b₂.ops = b.ops ∧ b.terminator.Threads (Lands blocks) b₂.terminator := by
  obtain ⟨hops₁, -, hx⟩ := Block.thread_eq_ok h₁
  obtain ⟨x, hx, hmerge⟩ := hx hb
  obtain ⟨hops₂, -, -, hterm⟩ := Block.renumber_eq_ok h₂
  refine ⟨hops₂.trans hops₁, ?_⟩
  rw [hmerge] at hterm
  refine (Terminator.threads_of_retarget hx hterm).mono fun s k hsk => ?_
  obtain ⟨c, hc, hk⟩ := hsk
  refine ⟨c, by simpa [mapError_eq_ok_iff] using hc, ?_⟩
  rw [← newNumber?_congr (map_cancelled_of_thread h.thread)]
  exact newNumber?_eq_some_of_ok hk

/-- What becomes of a block that stays. -/
theorem exists_survivor (h : PruningPasses blocks threaded survivors) {i : Nat} {b : Block n}
    (hi : (marked blocks)[i]? = some b) (hb : b.cancelled = false) :
    ∃ k b₁ b₂, newNumber? (marked blocks) i = some k ∧ b.thread (marked blocks) i = .ok b₁ ∧
      b₁.renumber threaded i = .ok b₂ ∧ survivors[k]? = some b₂ := by
  have hz : (marked blocks).zipIdx[i]? = some (b, i) := by simp [List.getElem?_zipIdx, hi]
  obtain ⟨b₁, hb₁, hget₁⟩ := getElem?_of_mapM h.thread hz
  have hc₁ : b₁.cancelled = false := (Block.thread_eq_ok hb₁).2.1.trans hb
  have hnew : newNumber? threaded i = some ((threaded.take i).countP fun b => !b.cancelled) := by
    rw [newNumber?, hget₁]
    simp [hc₁]
  obtain ⟨b₁', hkept⟩ := newNumber?_eq_some_iff.mp hnew
  have hget₁' := List.mk_mem_zipIdx_iff_getElem?.mp
    (List.mem_filter.mp (List.mem_of_getElem? hkept)).1
  obtain rfl := Option.some.inj (hget₁'.symm.trans hget₁)
  obtain ⟨b₂, hb₂, hget₂⟩ := getElem?_of_mapM h.renumber hkept
  exact ⟨_, _, b₂, newNumber?_congr (map_cancelled_of_thread h.thread) i ▸ hnew, hb₁, hb₂, hget₂⟩

/-- Every survivor comes from a block that stays. -/
theorem exists_of_survivor (h : PruningPasses blocks threaded survivors) {k : Nat} {b₂ : Block n}
    (hk : survivors[k]? = some b₂) :
    ∃ i b b₁, (marked blocks)[i]? = some b ∧ b.cancelled = false ∧
      newNumber? (marked blocks) i = some k ∧ b.thread (marked blocks) i = .ok b₁ ∧
      b₁.renumber threaded i = .ok b₂ := by
  obtain ⟨⟨b₁, i⟩, hkept, hb₂⟩ := exists_of_mapM_getElem? h.renumber hk
  obtain ⟨hmem, hc₁⟩ := List.mem_filter.mp (List.mem_of_getElem? hkept)
  obtain ⟨b, hi, hb₁⟩ := exists_of_thread h.thread (List.mk_mem_zipIdx_iff_getElem?.mp hmem)
  have hb : b.cancelled = false := by
    rw [← (Block.thread_eq_ok hb₁).2.1]
    simpa using hc₁
  have hnew : newNumber? threaded i = some k := newNumber?_eq_some_iff.mpr ⟨b₁, hkept⟩
  exact ⟨i, b, b₁, hi, hb, newNumber?_congr (map_cancelled_of_thread h.thread) i ▸ hnew, hb₁, hb₂⟩

end PruningPasses

/-- **Pruning keeps what stays.** A block that is not removed has its body and its threaded
terminator among the pruned blocks, under its new number. -/
theorem exists_pruned {blocks : List (Block n)} {pruned : Pruned n}
    (h : prune blocks = .ok pruned) {i : Nat} {b : Block n} (hi : (marked blocks)[i]? = some b)
    (hb : b.cancelled = false) :
    ∃ k b', newNumber? (marked blocks) i = some k ∧ pruned.blocks[k]? = some b' ∧
      b'.ops = b.ops ∧ b.terminator.Threads (Lands blocks) b'.terminator := by
  obtain ⟨threaded, survivors, hpass, hpruned⟩ := exists_passes h
  obtain ⟨k, b₁, b₂, hnew, hb₁, hb₂, hget₂⟩ := hpass.exists_survivor hi hb
  obtain ⟨hops, hthreads⟩ := hpass.threads hb hb₁ hb₂
  have hk := getElem?_setInDegrees survivors k
  rw [← hpruned, hget₂, Option.map_some] at hk
  exact ⟨k, _, hnew, hk, hops, hthreads⟩

/-- Every pruned block comes from a block that stays, whose new number it is at. -/
theorem exists_kept_of_pruned {blocks : List (Block n)} {pruned : Pruned n}
    (h : prune blocks = .ok pruned) {k : Nat} {b' : Block n} (hk : pruned.blocks[k]? = some b') :
    ∃ (i : Nat) (b : Block n), (marked blocks)[i]? = some b ∧ b.cancelled = false ∧
      newNumber? (marked blocks) i = some k ∧ b'.ops = b.ops ∧
      b.terminator.Threads (Lands blocks) b'.terminator := by
  obtain ⟨threaded, survivors, hpass, hpruned⟩ := exists_passes h
  rw [hpruned, getElem?_setInDegrees] at hk
  obtain ⟨b₂, hget₂, rfl⟩ := Option.map_eq_some_iff.mp hk
  obtain ⟨i, b, b₁, hi, hb, hnew, hb₁, hb₂⟩ := hpass.exists_of_survivor hget₂
  obtain ⟨hops, hthreads⟩ := hpass.threads hb hb₁ hb₂
  exact ⟨i, b, hi, hb, hnew, hops, hthreads⟩

/-- There are no other pruned blocks. -/
theorem exists_of_pruned {blocks : List (Block n)} {pruned : Pruned n}
    (h : prune blocks = .ok pruned) {k : Nat} {b' : Block n} (hk : pruned.blocks[k]? = some b') :
    ∃ (i : Nat) (b : Block n), blocks[i]? = some b ∧ b'.ops = b.ops ∧
      b.terminator.Threads (Lands blocks) b'.terminator := by
  obtain ⟨i, b, hi, -, -, hops, hthreads⟩ := exists_kept_of_pruned h hk
  rw [getElem?_marked] at hi
  obtain ⟨b₀, hb₀, rfl⟩ := Option.map_eq_some_iff.mp hi
  exact ⟨i, b₀, hb₀, hops, hthreads⟩

/-- Pruning touches numbers, terminators, degrees and marks of blocks, and nothing else. -/
theorem exists_origin_of_getElem? {γ : Type} {f : Block n → γ}
    (hf : ∀ (b : Block n) number terminator inDegree cancelled,
      f { b with number, terminator, inDegree, cancelled } = f b)
    {blocks : List (Block n)} {pruned : Pruned n} (h : prune blocks = .ok pruned) {k : Nat}
    {b' : Block n} (hk : pruned.blocks[k]? = some b') :
    ∃ i b, newNumber? (marked blocks) i = some k ∧ blocks[i]? = some b ∧ f b' = f b := by
  obtain ⟨threaded, survivors, hpass, hpruned⟩ := exists_passes h
  rw [hpruned, getElem?_setInDegrees] at hk
  obtain ⟨b₂, hb₂, rfl⟩ := Option.map_eq_some_iff.mp hk
  obtain ⟨i, b, b₁, hi, -, hnew, hthread, hrenumber⟩ := hpass.exists_of_survivor hb₂
  rw [getElem?_marked] at hi
  obtain ⟨b₀, hb₀, rfl⟩ := Option.map_eq_some_iff.mp hi
  obtain ⟨x, -, hrenumber⟩ := bind_eq_ok_iff.mp hrenumber
  cases hrenumber
  refine ⟨i, b₀, hnew, hb₀, ?_⟩
  unfold Block.thread at hthread
  split at hthread
  · cases hthread
    exact hf b₀ _ _ _ _
  · obtain ⟨y, -, hthread⟩ := bind_eq_ok_iff.mp hthread
    cases hthread
    exact hf b₀ _ _ _ _

theorem exists_origin_of_pruned {γ : Type} {f : Block n → γ}
    (hf : ∀ (b : Block n) number terminator inDegree cancelled,
      f { b with number, terminator, inDegree, cancelled } = f b)
    {blocks : List (Block n)} {pruned : Pruned n} (h : prune blocks = .ok pruned) {b' : Block n}
    (hb' : b' ∈ pruned.blocks) : ∃ b ∈ blocks, f b' = f b := by
  obtain ⟨k, hk⟩ := List.getElem?_of_mem hb'
  obtain ⟨i, b, -, hb, heq⟩ := exists_origin_of_getElem? hf h hk
  exact ⟨b, List.mem_of_getElem? hb, heq⟩

end FlowFacts
