import FlowFacts.Proofs.Pruning.Structure
import FlowFacts.Proofs.Withdrawal.Course

/-!
# The blocks that survive pruning

Which blocks pruning keeps is decided by their final counts and by what they are: the entry stays,
and so does every other block with a positive count that is no redirect. The new numbers of the
blocks that stay are their positions among them, so pruning is a matter of one list of old numbers,
`survivors`.

What a survivor does stays as it was, up to where its jumps go. The one way in which it can change
is that a branch becomes a jump, when following redirects from both of its targets leads to the same
block. So a survivor can become a block that looks like a redirect, although no redirect stays.

## Main definitions

* `survivors` — the old numbers of the blocks that stay
* `Terminator.Meets` — redirects lead from both targets of a branch to the same block

## Main results

* `lands_iff_leads` — where control goes after pruning, said by redirects
* `forward_eq_some_iff` — where control to an old block goes
* `exactCounts_and_survivors` — what is withdrawn, what stays and what becomes of it
-/

namespace FlowFacts

variable {n : Nat} {blocks : List (Block n)} {pruned : Pruned n}

/-! ### Who stays -/

/-- The old numbers of the blocks that stay, in their order. -/
def survivors (blocks : List (Block n)) : List Nat := (kept (marked blocks)).map Prod.snd

/-- New numbers are positions among the survivors. -/
theorem getElem?_survivors_eq_some_iff {i k : Nat} :
    (survivors blocks)[k]? = some i ↔ newNumber? (marked blocks) i = some k := by
  rw [newNumber?_eq_some_iff, survivors, List.getElem?_map, Option.map_eq_some_iff]
  constructor
  · rintro ⟨⟨b, _⟩, hk, rfl⟩
    exact ⟨b, hk⟩
  · rintro ⟨b, hk⟩
    exact ⟨(b, i), hk, rfl⟩

/-- A new number belongs to a block that stays. -/
theorem stays_iff_exists_newNumber? {b : Nat} :
    Stays blocks b ↔ ∃ k, newNumber? (marked blocks) b = some k :=
  ⟨Stays.exists_newNumber?, fun ⟨_, h⟩ => exists_of_newNumber? h⟩

theorem mem_survivors_iff_stays {i : Nat} : i ∈ survivors blocks ↔ Stays blocks i := by
  simp only [List.mem_iff_getElem?, getElem?_survivors_eq_some_iff, stays_iff_exists_newNumber?]

theorem pairwise_survivors (blocks : List (Block n)) : (survivors blocks).Pairwise (· < ·) := by
  have hsub : (survivors blocks).Sublist ((marked blocks).zipIdx.map Prod.snd) :=
    List.filter_sublist.map Prod.snd
  rw [List.zipIdx_map_snd] at hsub
  exact List.Pairwise.sublist hsub List.pairwise_lt_range'

/-- The entry stays, and all other blocks with positive counts that are no redirects. -/
theorem mem_survivors_iff {i : Nat} :
    i ∈ survivors blocks ↔ ∃ b, blocks[i]? = some b ∧
      (i = 0 ∨ 0 < (liveCounts blocks).getD i 0 ∧ b.isRedirect = false) := by
  rw [mem_survivors_iff_stays, Stays, getElem?_marked]
  simp only [Option.map_eq_some_iff]
  constructor
  · rintro ⟨_, ⟨b, hb, rfl⟩, hstays⟩
    have hnone : removal? (liveCounts blocks) i b = none := by simpa using hstays
    rw [removal?_eq_none_iff, MayRun] at hnone
    exact ⟨b, hb, by tauto⟩
  · rintro ⟨b, hb, hi⟩
    refine ⟨_, ⟨b, hb, rfl⟩, ?_⟩
    have hnone : removal? (liveCounts blocks) i b = none := by
      rw [removal?_eq_none_iff, MayRun]
      tauto
    simp [hnone]

/-- If there are blocks, the entry stays. -/
theorem zero_mem_survivors (h : blocks ≠ []) : 0 ∈ survivors blocks := by
  obtain ⟨entry, rest, rfl⟩ := List.exists_cons_of_ne_nil h
  exact mem_survivors_iff.mpr ⟨entry, rfl, .inl rfl⟩

theorem lt_length_pruned_iff (h : prune blocks = .ok pruned) {k : Nat} :
    k < pruned.blocks.length ↔ ∃ i, newNumber? (marked blocks) i = some k := by
  constructor
  · intro hk
    obtain ⟨i, _, -, -, hnew, -⟩ := exists_kept_of_pruned h (List.getElem?_eq_getElem hk)
    exact ⟨i, hnew⟩
  · rintro ⟨i, hnew⟩
    obtain ⟨b, hi, hb⟩ := exists_of_newNumber? hnew
    obtain ⟨k', b', hnew', hk', -⟩ := exists_pruned h hi hb
    obtain rfl := Option.some.inj (hnew'.symm.trans hnew)
    exact (List.getElem?_eq_some_iff.mp hk').1

theorem length_pruned (h : prune blocks = .ok pruned) :
    pruned.blocks.length = (survivors blocks).length := by
  refine Nat.le_antisymm ?_ ?_
  · refine Nat.le_of_not_lt fun hlt => ?_
    obtain ⟨i, hi⟩ := (lt_length_pruned_iff h).mp hlt
    rw [← getElem?_survivors_eq_some_iff, List.getElem?_eq_none (Nat.le_refl _)] at hi
    cases hi
  · refine Nat.le_of_not_lt fun hlt => ?_
    have hk := getElem?_survivors_eq_some_iff.mp (List.getElem?_eq_getElem hlt)
    exact Nat.lt_irrefl _ ((lt_length_pruned_iff h).mpr ⟨_, hk⟩)

/-! ### Where control goes -/

/-- Control lands where redirects lead, at the new number of that block. -/
theorem lands_iff_leads (hblocks : TargetsExist blocks) {s k : Nat} (hrun : MayRun blocks s)
    (hlt : s < blocks.length) :
    Lands blocks s k ↔ ∃ j c, Leads blocks j s c ∧ (survivors blocks)[k]? = some c := by
  simp only [Lands, getElem?_survivors_eq_some_iff]
  constructor
  · rintro ⟨c, hchase, hnew⟩
    rcases exists_leads_or_leadsAstray blocks s with ⟨j, c', hlead⟩ | hastray
    · rw [chase_of_leads hblocks hlead hrun hlt hlead.le_length] at hchase
      exact ⟨j, c', hlead, Except.ok.inj hchase ▸ hnew⟩
    · cases (chase_of_leadsAstray hblocks hastray hrun _).symm.trans hchase
  · rintro ⟨j, c, hlead, hnew⟩
    exact ⟨c, chase_of_leads hblocks hlead hrun hlt hlead.le_length, hnew⟩

/-- Control to a block goes on to where it lands, if the block may run. -/
theorem forward_eq_some_iff (h : prune blocks = .ok pruned) {i k : Nat} :
    pruned.forward.getD i none = some k ↔
      i < blocks.length ∧ MayRun blocks i ∧ Lands blocks i k := by
  have hforward : pruned.forward =
      (List.range blocks.length).map (forward? (liveCounts blocks) (marked blocks)) := by
    obtain ⟨threaded, -, h⟩ := bind_eq_ok_iff.mp h
    obtain ⟨survivors, -, h⟩ := bind_eq_ok_iff.mp h
    cases h
    rfl
  have hrun : ¬(i ≠ 0 ∧ (liveCounts blocks).getD i 0 ≤ 0) ↔ MayRun blocks i := by
    rw [MayRun]
    omega
  by_cases hlt : i < blocks.length
  · have hget : pruned.forward.getD i none = forward? (liveCounts blocks) (marked blocks) i := by
      simp [hforward, List.getD_eq_getElem?_getD, hlt]
    rw [hget, forward?, length_marked, Lands]
    split
    · next hdead =>
      have hno : ¬MayRun blocks i := fun hi => hrun.mpr hi hdead
      simp [hno]
    · next hlive =>
      cases hchase : chase (marked blocks) blocks.length i with
      | ok c => simp [hlt, hrun.mp hlive]
      | error e => simp
  · have hget : pruned.forward.getD i none = none := by
      simp [hforward, List.getD_eq_getElem?_getD, hlt]
    rw [hget]
    simp [hlt]

/-! ### What becomes of a survivor -/

/-- Following redirects from both targets of a branch leads to the same block. -/
inductive Terminator.Meets (blocks : List (Block n)) : Terminator → Prop
  | intro {test : Test} {c : Temp} {t f j k d : Nat} (ht : Leads blocks j t d)
      (hf : Leads blocks k f d) : Meets blocks (.branch test c t f)

theorem Terminator.kind_eq_jump_iff {x : Terminator} : x.kind = .jump ↔ ∃ t, x = .jump t := by
  cases x <;> simp [kind]

/-- Threading makes a branch a jump if its targets meet, and leaves the kind of a terminator alone
otherwise. -/
theorem Terminator.Threads.kind_eq {x y : Terminator} (h : x.Threads (Lands blocks) y)
    (hblocks : TargetsExist blocks)
    (hx : ∀ s ∈ x.successors, MayRun blocks s ∧ s < blocks.length)
    (hy : ∀ {test c t f}, y = .branch test c t f → t ≠ f) :
    (x.Meets blocks → y.kind = .jump) ∧ (¬x.Meets blocks → y.kind = x.kind) := by
  have hleads : ∀ {s k}, s ∈ x.successors → (Lands blocks s k ↔
      ∃ j c, Leads blocks j s c ∧ (survivors blocks)[k]? = some c) :=
    fun hs => lands_iff_leads hblocks (hx _ hs).1 (hx _ hs).2
  cases h with
  | ret v => exact ⟨nofun, fun _ => rfl⟩
  | jump _ => exact ⟨fun _ => rfl, fun _ => rfl⟩
  | @branch test c t f k l ht hf =>
    refine ⟨fun hmeets => ?_, fun _ => rfl⟩
    obtain ⟨_, _, ht', htk⟩ := (hleads (by simp [successors])).mp ht
    obtain ⟨_, _, hf', hfl⟩ := (hleads (by simp [successors])).mp hf
    obtain ⟨htd, hfd⟩ := hmeets
    -- both targets get the number of the block at which they meet, so they are the same
    obtain ⟨-, rfl⟩ := htd.unique ht'
    obtain ⟨-, rfl⟩ := hfd.unique hf'
    rw [getElem?_survivors_eq_some_iff] at htk hfl
    exact absurd (Option.some.inj (htk.symm.trans hfl)) (hy rfl)
  | @merged test c t f k ht hf =>
    refine ⟨fun _ => rfl, fun hno => absurd ?_ hno⟩
    obtain ⟨_, d, ht', htk⟩ := (hleads (by simp [successors])).mp ht
    obtain ⟨_, d', hf', hfk⟩ := (hleads (by simp [successors])).mp hf
    obtain rfl : d = d' := Option.some.inj (htk.symm.trans hfk)
    exact .intro ht' hf'

/-- Pruning makes block `b'` of block `b`, which was at position `i`. -/
structure KeptAs (blocks : List (Block n)) (i : Nat) (b b' : Block n) : Prop where
  origin : blocks[i]? = some b
  body_eq : b'.body = b.body
  kind_of_meets : b.terminator.Meets blocks → b'.terminator.kind = .jump
  kind_of_not_meets : ¬b.terminator.Meets blocks → b'.terminator.kind = b.terminator.kind
  /-- Only such a branch can leave a block that looks like a redirect. -/
  isRedirect_iff : i ≠ 0 → (b'.isRedirect = true ↔ b.body = [] ∧ b.terminator.Meets blocks)

/-- Every pruned block is a survivor with its jumps threaded. -/
theorem exists_survivor_of_pruned (h : prune blocks = .ok pruned) {k : Nat} {b' : Block n}
    (hk : pruned.blocks[k]? = some b') :
    ∃ i b, (survivors blocks)[k]? = some i ∧ blocks[i]? = some b ∧ b'.body = b.body ∧
      b.terminator.Threads (Lands blocks) b'.terminator := by
  obtain ⟨i, bm, hi, -, hnew, -, hthreads⟩ := exists_kept_of_pruned h hk
  obtain ⟨i', b, hnew', hb, hbody⟩ :=
    exists_origin_of_getElem? (f := Block.body) (fun _ _ _ _ _ => rfl) h hk
  obtain rfl := newNumber?_inj hnew hnew'
  rw [getElem?_marked, hb, Option.map_some] at hi
  have hterm : bm.terminator = b.terminator := Option.some.inj hi ▸ rfl
  exact ⟨i, b, getElem?_survivors_eq_some_iff.mpr hnew, hb, hbody, hterm ▸ hthreads⟩

/-- Targets of a survivor may run. -/
theorem mayRun_of_mem_survivors (hblocks : TargetsExist blocks) {i s : Nat} {b : Block n}
    (hi : i ∈ survivors blocks) (hb : blocks[i]? = some b) (hs : s ∈ b.successors) :
    MayRun blocks s ∧ s < blocks.length := by
  obtain ⟨-, hrun, -⟩ := stays_iff.mp (mem_survivors_iff_stays.mp hi)
  have hlt := hblocks b (List.mem_of_getElem? hb) s hs
  exact ⟨hrun.successor hb hs hlt, hlt⟩

theorem exists_keptAs (hblocks : TargetsExist blocks) (h : prune blocks = .ok pruned) {k : Nat}
    {b' : Block n} (hk : pruned.blocks[k]? = some b') :
    ∃ i b, (survivors blocks)[k]? = some i ∧ KeptAs blocks i b b' := by
  obtain ⟨i, b, hi, hb, hbody, hthreads⟩ := exists_survivor_of_pruned h hk
  have hmem := List.mem_of_getElem? hi
  obtain ⟨hmeets, hnot⟩ := hthreads.kind_eq hblocks
    (fun s hs => mayRun_of_mem_survivors hblocks hmem hb hs)
    ((structured_of_prune hblocks h).targets_ne b' (List.mem_of_getElem? hk))
  refine ⟨i, b, hi, hb, hbody, hmeets, hnot, fun hne => ?_⟩
  have hno : ¬(b.body = [] ∧ b.terminator.kind = .jump) := by
    obtain ⟨_, hb', hstays⟩ := mem_survivors_iff.mp hmem
    obtain rfl := Option.some.inj (hb.symm.trans hb')
    rw [Terminator.kind_eq_jump_iff, ← Block.isRedirect_iff, (hstays.resolve_left hne).2]
    exact Bool.false_ne_true
  rw [Block.isRedirect_iff, ← Terminator.kind_eq_jump_iff, hbody]
  refine and_congr_right fun hempty => ⟨fun hjump => ?_, hmeets⟩
  by_contra hapart
  exact hno ⟨hempty, (hnot hapart).symm.trans hjump⟩

/-- Which blocks pruning keeps, and as what. -/
structure ExactSurvivors (blocks : List (Block n)) (pruned : Pruned n) : Prop where
  mem_iff : ∀ {i : Nat}, i ∈ survivors blocks ↔ ∃ b, blocks[i]? = some b ∧
    (i = 0 ∨ 0 < (liveCounts blocks).getD i 0 ∧ b.isRedirect = false)
  ascending : (survivors blocks).Pairwise (· < ·)
  length_eq : pruned.blocks.length = (survivors blocks).length
  keptAs : ∀ {k i : Nat} {b' : Block n}, (survivors blocks)[k]? = some i →
    pruned.blocks[k]? = some b' → ∃ b, KeptAs blocks i b b'

/-- **Withdrawal and survival.** Withdrawing edges ends with counts that are zero for the blocks
that can be reached neither from the entry nor from a circle. If pruning succeeds, the entry stays
and all other blocks with positive counts that are no redirects, in their order and with their
bodies, and only branches whose targets meet become jumps. -/
theorem exactCounts_and_survivors (hblocks : TargetsExist blocks) :
    ExactCounts blocks ∧ ∀ pruned, prune blocks = .ok pruned → ExactSurvivors blocks pruned := by
  refine ⟨exactCounts blocks, fun pruned h => ?_⟩
  refine ⟨mem_survivors_iff, pairwise_survivors blocks, length_pruned h, fun {k i b'} hi hk => ?_⟩
  obtain ⟨i', b, hi', hb⟩ := exists_keptAs hblocks h hk
  obtain rfl := Option.some.inj (hi.symm.trans hi')
  exact ⟨b, hb⟩

/-- The entry leads to an empty branch whose targets meet behind two redirects. A way that nothing
leads to joins in, and beside it there is a circle. -/
def Block.thicket : List (Block 1) := [
  .blank 1 0 [.const ⟨0⟩ (.int 0)] (.jump 3),
  .blank 1 1 [.param ⟨0⟩] (.jump 2),
  .blank 1 2 [] (.jump 3),
  .blank 1 3 [] (.branch .zero ⟨0⟩ 4 5),
  .blank 1 4 [] (.jump 6),
  .blank 1 5 [] (.jump 6),
  .blank 1 6 [.param ⟨0⟩] (.ret none),
  .blank 1 7 [.param ⟨0⟩] (.jump 7)]

theorem exactCounts_and_survivors_thicket :
    TargetsExist Block.thicket ∧ ¬Fed Block.thicket 2 ∧ Fed Block.thicket 7 ∧
      ∃ pruned b b', prune Block.thicket = .ok pruned ∧ survivors Block.thicket = [0, 3, 6, 7] ∧
        pruned.blocks[1]? = some b' ∧ KeptAs Block.thicket 3 b b' ∧ b'.isRedirect = true := by
  have htargets : TargetsExist Block.thicket := by decide
  have hcounts : liveCounts Block.thicket = [1, 0, 0, 1, 1, 1, 2, 1] := by decide +kernel
  have hsurvivors : survivors Block.thicket = [0, 3, 6, 7] := by decide +kernel
  obtain ⟨hexact, hprune⟩ := exactCounts_and_survivors htargets
  have hunfed : ¬Fed Block.thicket 2 := by
    refine (hexact.eq_zero_iff (by decide) (by decide)).mp ?_
    rw [hcounts]
    rfl
  have hfed : Fed Block.thicket 7 := by
    refine not_not.mp fun hno => ?_
    have hzero := (hexact.eq_zero_iff (i := 7) (by decide) (by decide)).mpr hno
    rw [hcounts] at hzero
    exact absurd hzero (by decide)
  have hpruned : (fun p : Pruned 1 => p.blocks[1]?.map Block.isRedirect) <$> prune Block.thicket =
      .ok (some true) := by
    decide +kernel
  obtain ⟨pruned, hok, hredirect⟩ := map_eq_ok_iff.mp hpruned
  obtain ⟨b', hb', hredirect⟩ := Option.map_eq_some_iff.mp hredirect
  obtain ⟨b, hkept⟩ := (hprune pruned hok).keptAs (k := 1) (i := 3) (by rw [hsurvivors]; rfl) hb'
  exact ⟨htargets, hunfed, hfed, pruned, b, b', hok, hsurvivors, hb', hkept, hredirect⟩

end FlowFacts
