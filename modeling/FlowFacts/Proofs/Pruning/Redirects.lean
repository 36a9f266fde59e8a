import FlowFacts.Proofs.Pruning.Threading
import Mathlib.Data.Fintype.EquivFin

/-!
# Following redirects

A redirect is an empty block that only jumps elsewhere, and is not the entry. Following redirects
from a block either leads to a block that is none (`Leads`) or goes on for ever (`LeadsAstray`).

A chase can tell the two apart by counting. How many redirects lie ahead of a block is determined by
the block, so the blocks on the way are all different, and the way is no longer than there are
blocks (`Leads.le_length`). A chase that takes more steps goes round in a circle.

A chase follows removed blocks, some of which are no redirects: they cannot run and may have a body.
From a block that may run it never meets one of those (`cancelled_iff_redirects`).

## Main results

* `chase_of_leads`, `chase_of_leadsAstray` — what a chase finds
* `exists_leads_or_leadsAstray` — one of the two is the case
* `Stays.exists_feeder` — control comes to a block that stays from one that stays
-/

namespace FlowFacts

variable {n : Nat} {blocks : List (Block n)}

/-! ### Redirects -/

/-- Block `b` is a redirect to block `t`. -/
inductive Redirects (blocks : List (Block n)) : Nat → Nat → Prop
  | intro {b t : Nat} {block : Block n} (hne : b ≠ 0) (hb : blocks[b]? = some block)
      (hbody : block.body = []) (hjump : block.terminator = .jump t) : Redirects blocks b t

/-- From block `b`, following `k` redirects leads to block `c`, which is no redirect. -/
inductive Leads (blocks : List (Block n)) : Nat → Nat → Nat → Prop
  | here {c : Nat} (hc : ∀ t, ¬Redirects blocks c t) : Leads blocks 0 c c
  | onward {k b t c : Nat} (hb : Redirects blocks b t) (ht : Leads blocks k t c) :
      Leads blocks (k + 1) b c

/-- From block `b`, redirects can be followed for ever. -/
def LeadsAstray (blocks : List (Block n)) (b : Nat) : Prop :=
  ∃ path : Nat → Nat, path 0 = b ∧ ∀ k, Redirects blocks (path k) (path (k + 1))

theorem Redirects.unique {b t t' : Nat} (h : Redirects blocks b t) (h' : Redirects blocks b t') :
    t = t' := by
  cases h with
  | intro _ hb _ hjump =>
    cases h' with
    | intro _ hb' _ hjump' =>
      obtain rfl := Option.some.inj (hb.symm.trans hb')
      exact Terminator.jump.inj (hjump.symm.trans hjump')

theorem Redirects.ne_zero {b t : Nat} (h : Redirects blocks b t) : b ≠ 0 := by
  cases h with
  | intro hne _ _ _ => exact hne

/-- A redirect has no other target. -/
theorem Redirects.eq_of_mem {b t s : Nat} {block : Block n} (h : Redirects blocks b t)
    (hb : blocks[b]? = some block) (hs : s ∈ block.successors) : s = t := by
  cases h with
  | intro _ hb' _ hjump =>
    obtain rfl := Option.some.inj (hb'.symm.trans hb)
    rw [Block.successors, hjump] at hs
    exact List.mem_singleton.mp hs

theorem Redirects.lt_length {b t : Nat} (h : Redirects blocks b t) : b < blocks.length := by
  cases h with
  | intro _ hb _ _ => exact (List.getElem?_eq_some_iff.mp hb).1

namespace Leads

variable {k k' b c c' : Nat}

/-- Where redirects lead, and how many they are, is determined by the block. -/
theorem unique (h : Leads blocks k b c) (h' : Leads blocks k' b c') : k = k' ∧ c = c' := by
  induction h generalizing k' with
  | here hc =>
    cases h' with
    | here _ => exact ⟨rfl, rfl⟩
    | onward hb _ => exact absurd hb (hc _)
  | onward hb _ ih =>
    cases h' with
    | here hc => exact absurd hb (hc _)
    | onward hb' ht' =>
      obtain rfl := hb.unique hb'
      obtain ⟨rfl, rfl⟩ := ih ht'
      exact ⟨rfl, rfl⟩

/-- Some block on the way is `j` redirects away from the end, for every smaller `j`. -/
theorem exists_of_le (h : Leads blocks k b c) {j : Nat} (hj : j ≤ k) :
    ∃ b', Leads blocks j b' c := by
  induction h with
  | here hc =>
    obtain rfl := Nat.le_zero.mp hj
    exact ⟨_, .here hc⟩
  | onward hb ht ih =>
    rcases Nat.le_succ_iff.mp hj with hj | rfl
    · exact ih hj
    · exact ⟨_, .onward hb ht⟩

/-- There are no more redirects on the way than there are blocks. -/
theorem le_length (h : Leads blocks k b c) : k ≤ blocks.length := by
  have hway : ∀ j : Fin k, ∃ b' : Fin blocks.length, Leads blocks (j + 1) b' c := by
    intro j
    obtain ⟨b', hb'⟩ := h.exists_of_le (Nat.succ_le_of_lt j.isLt)
    cases hb' with
    | onward hb ht => exact ⟨⟨b', hb.lt_length⟩, .onward hb ht⟩
  choose way hway using hway
  have hinj : Function.Injective way := by
    intro i j hij
    have heq := ((hway i).unique (hij ▸ hway j)).1
    exact Fin.ext (Nat.succ.inj heq)
  simpa using Fintype.card_le_of_injective way hinj

end Leads

theorem LeadsAstray.next {b : Nat} (h : LeadsAstray blocks b) :
    ∃ t, Redirects blocks b t ∧ LeadsAstray blocks t := by
  obtain ⟨path, rfl, hpath⟩ := h
  exact ⟨path 1, hpath 0, fun k => path (k + 1), rfl, fun k => hpath (k + 1)⟩

theorem exists_leads_or_leadsAstray (blocks : List (Block n)) (b : Nat) :
    (∃ k c, Leads blocks k b c) ∨ LeadsAstray blocks b := by
  refine or_iff_not_imp_left.mpr fun hb => ?_
  -- a block from which redirects lead nowhere is a redirect to another such block
  have hnext : ∀ b, (¬∃ k c, Leads blocks k b c) →
      ∃ t, Redirects blocks b t ∧ ¬∃ k c, Leads blocks k t c := by
    intro b hb
    by_contra hno
    by_cases hr : ∃ t, Redirects blocks b t
    · obtain ⟨t, ht⟩ := hr
      refine hno ⟨t, ht, ?_⟩
      rintro ⟨k, c, hc⟩
      exact hb ⟨k + 1, c, .onward ht hc⟩
    · exact hb ⟨0, b, .here fun t ht => hr ⟨t, ht⟩⟩
  choose! next hnext using hnext
  have hpath : ∀ k, ¬∃ j c, Leads blocks j (next^[k] b) c := by
    intro k
    induction k with
    | zero => exact hb
    | succ k ih =>
      rw [Function.iterate_succ_apply']
      exact (hnext _ ih).2
  refine ⟨fun k => next^[k] b, rfl, fun k => ?_⟩
  simp only [Function.iterate_succ_apply']
  exact (hnext _ (hpath k)).1

/-! ### Chasing -/

theorem exists_of_newNumber? {i k : Nat}
    (h : newNumber? blocks i = some k) : ∃ b, blocks[i]? = some b ∧ b.cancelled = false := by
  unfold newNumber? at h
  split at h
  · rename_i b hb
    split at h
    · cases h
    · rename_i hc
      exact ⟨b, hb, by simpa using hc⟩
  · cases h

theorem chase_of_stays {i : Nat} {b : Block n} (hi : blocks[i]? = some b)
    (hb : b.cancelled = false) (limit : Nat) : chase blocks limit i = .ok i := by
  rw [chase.eq_def, hi]
  simp [hb]

theorem chase_of_cancelled {limit i c : Nat} {b : Block n}
    (hi : blocks[i]? = some b) (hb : b.cancelled = true) (h : chase blocks limit i = .ok c) :
    ∃ limit' t, limit = limit' + 1 ∧ b.terminator = .jump t ∧ chase blocks limit' t = .ok c := by
  rw [chase.eq_def, hi] at h
  simp only [hb, if_true] at h
  split at h
  · cases h
  · rename_i t limit' ht
    exact ⟨limit', t, rfl, ht, h⟩
  · cases h

/-- Control that arrives somewhere is at a block. -/
theorem lt_length_of_chase {limit i c k : Nat}
    (h : chase blocks limit i = .ok c) (hk : newNumber? blocks c = some k) : i < blocks.length := by
  by_contra hge
  have hi : blocks[i]? = none := List.getElem?_eq_none (Nat.le_of_not_lt hge)
  rw [chase.eq_def, hi] at h
  obtain rfl : i = c := Except.ok.inj h
  obtain ⟨b, hb, -⟩ := exists_of_newNumber? hk
  rw [hi] at hb
  cases hb

theorem chase_of_jump {i t : Nat} {b : Block n} (hi : blocks[i]? = some b)
    (hb : b.cancelled = true) (hjump : b.terminator = .jump t) (limit : Nat) :
    chase blocks (limit + 1) i = chase blocks limit t := by
  rw [chase.eq_def, hi]
  simp only [hb, if_true, hjump]

theorem chase_zero_of_jump {i t : Nat} {b : Block n} (hi : blocks[i]? = some b)
    (hb : b.cancelled = true) (hjump : b.terminator = .jump t) :
    chase blocks 0 i = .error .circle := by
  rw [chase.eq_def, hi]
  simp only [hb, if_true, hjump]

theorem Block.isRedirect_iff {b : Block n} :
    b.isRedirect = true ↔ b.body = [] ∧ ∃ t, b.terminator = .jump t := by
  have hkind : (b.terminator.kind == .jump) = true ↔ ∃ t, b.terminator = .jump t := by
    cases b.terminator <;> simp [Terminator.kind]
  rw [Block.isRedirect, Block.isEmpty, Bool.and_eq_true, hkind, List.isEmpty_iff]

/-- The blocks that stay are the entry, and the others that may run and are no redirects. -/
theorem removal?_eq_none_iff {i : Nat} {b : Block n} :
    removal? (liveCounts blocks) i b = none ↔
      MayRun blocks i ∧ (i = 0 ∨ b.isRedirect = false) := by
  rw [removal?, MayRun]
  generalize (liveCounts blocks).getD i 0 = count
  by_cases hi : i = 0
  · simp [hi]
  · by_cases hcount : count ≤ 0
    · simp [hi, hcount]
    · simp [hi, hcount, Int.not_le.mp hcount]

/-- Of the blocks that may run, those that are removed are the redirects. -/
theorem cancelled_iff_redirects {i : Nat} {b : Block n} (hi : (marked blocks)[i]? = some b)
    (hrun : MayRun blocks i) : b.cancelled = true ↔ ∃ t, Redirects blocks i t := by
  rw [getElem?_marked] at hi
  obtain ⟨b₀, hb₀, rfl⟩ := Option.map_eq_some_iff.mp hi
  have hremoved : (removal? (liveCounts blocks) i b₀).isSome = true ↔
      i ≠ 0 ∧ b₀.isRedirect = true := by
    rw [Option.isSome_iff_ne_none, ne_eq, removal?_eq_none_iff]
    simp [hrun]
  rw [hremoved, Block.isRedirect_iff]
  constructor
  · rintro ⟨hne, hbody, t, hjump⟩
    exact ⟨t, .intro hne hb₀ hbody hjump⟩
  · rintro ⟨t, hne, hb, hbody, hjump⟩
    obtain rfl := Option.some.inj (hb.symm.trans hb₀)
    exact ⟨hne, hbody, t, hjump⟩

/-- A removed block that may run does nothing: it is removed because it is a redirect. -/
theorem ops_of_cancelled {i : Nat} {b : Block n} (hi : (marked blocks)[i]? = some b)
    (hb : b.cancelled = true) (hrun : MayRun blocks i) : i ≠ 0 ∧ b.ops = [] := by
  obtain ⟨_, hne, hb₀, hbody, -⟩ := (cancelled_iff_redirects hi hrun).mp hb
  rw [getElem?_marked, hb₀, Option.map_some] at hi
  obtain rfl := Option.some.inj hi
  exact ⟨hne, by rw [Block.ops, hbody]; rfl⟩

/-- Where a redirect leads to may run if the redirect may. -/
theorem Redirects.mayRun {b t : Nat} (h : Redirects blocks b t) (hblocks : TargetsExist blocks)
    (hrun : MayRun blocks b) : MayRun blocks t ∧ t < blocks.length := by
  obtain ⟨-, hb, -, hjump⟩ := h
  rename_i block
  have ht : t ∈ block.successors := by
    rw [Block.successors, hjump]
    exact List.mem_singleton_self t
  have hlt := hblocks block (List.mem_of_getElem? hb) t ht
  exact ⟨hrun.successor hb ht hlt, hlt⟩

theorem Redirects.exists_marked {b t : Nat} (h : Redirects blocks b t) (hrun : MayRun blocks b) :
    ∃ block, (marked blocks)[b]? = some block ∧ block.cancelled = true ∧
      block.terminator = .jump t := by
  have hlt : b < (marked blocks).length := length_marked blocks ▸ h.lt_length
  have hb := List.getElem?_eq_getElem hlt
  refine ⟨_, hb, (cancelled_iff_redirects hb hrun).mpr ⟨t, h⟩, ?_⟩
  obtain ⟨-, hb₀, -, hjump⟩ := h
  rw [getElem?_marked, hb₀, Option.map_some] at hb
  rw [← Option.some.inj hb]
  exact hjump

/-- Pruning keeps block `b`. -/
def Stays (blocks : List (Block n)) (b : Nat) : Prop :=
  ∃ block, (marked blocks)[b]? = some block ∧ block.cancelled = false

/-- The blocks that stay are those that may run and are no redirects. -/
theorem stays_iff {b : Nat} :
    Stays blocks b ↔ b < blocks.length ∧ MayRun blocks b ∧ ∀ t, ¬Redirects blocks b t := by
  constructor
  · rintro ⟨block, hb, hstays⟩
    have hrun : MayRun blocks b := by
      rw [getElem?_marked] at hb
      obtain ⟨b₀, -, rfl⟩ := Option.map_eq_some_iff.mp hb
      exact (removal?_eq_none_iff.mp (Option.not_isSome_iff_eq_none.mp (by simpa using hstays))).1
    refine ⟨length_marked blocks ▸ (List.getElem?_eq_some_iff.mp hb).1, hrun, fun t ht => ?_⟩
    rw [(cancelled_iff_redirects hb hrun).mpr ⟨t, ht⟩] at hstays
    cases hstays
  · rintro ⟨hlt, hrun, hno⟩
    rw [← length_marked blocks] at hlt
    have hb := List.getElem?_eq_getElem hlt
    refine ⟨_, hb, Bool.eq_false_iff.mpr fun hc => ?_⟩
    obtain ⟨t, ht⟩ := (cancelled_iff_redirects hb hrun).mp hc
    exact hno t ht

section Chase

variable {k limit b c : Nat} (hblocks : TargetsExist blocks)
include hblocks

/-- A block that control is led to by redirects stays. -/
theorem Leads.stays (h : Leads blocks k b c) (hrun : MayRun blocks b) (hlt : b < blocks.length) :
    Stays blocks c := by
  induction h with
  | here hc => exact stays_iff.mpr ⟨hlt, hrun, hc⟩
  | onward hb _ ih =>
    obtain ⟨hrun, hlt⟩ := hb.mayRun hblocks hrun
    exact ih hrun hlt

/-- A chase that may take enough steps finds where redirects lead. -/
theorem chase_of_leads (h : Leads blocks k b c) (hrun : MayRun blocks b)
    (hlt : b < blocks.length) (hk : k ≤ limit) : chase (marked blocks) limit b = .ok c := by
  induction h generalizing limit with
  | here hc =>
    obtain ⟨block, hb, hstays⟩ := stays_iff.mpr ⟨hlt, hrun, hc⟩
    exact chase_of_stays hb hstays limit
  | onward hr _ ih =>
    obtain ⟨block, hb, hcancelled, hjump⟩ := hr.exists_marked hrun
    obtain ⟨limit, rfl⟩ := Nat.exists_eq_add_of_le' (Nat.le_trans (Nat.le_add_left 1 _) hk)
    obtain ⟨hrun, hlt⟩ := hr.mayRun hblocks hrun
    rw [chase_of_jump hb hcancelled hjump]
    exact ih hrun hlt (Nat.le_of_succ_le_succ hk)

/-- A chase goes round in a circle where redirects lead nowhere. -/
theorem chase_of_leadsAstray (h : LeadsAstray blocks b) (hrun : MayRun blocks b) (limit : Nat) :
    chase (marked blocks) limit b = .error .circle := by
  obtain ⟨t, hr, ht⟩ := h.next
  obtain ⟨block, hb, hcancelled, hjump⟩ := hr.exists_marked hrun
  induction limit generalizing b t block with
  | zero => exact chase_zero_of_jump hb hcancelled hjump
  | succ limit ih =>
    rw [chase_of_jump hb hcancelled hjump]
    obtain ⟨hrun, -⟩ := hr.mayRun hblocks hrun
    obtain ⟨u, hr, hu⟩ := ht.next
    obtain ⟨block, hb, hcancelled, hjump⟩ := hr.exists_marked hrun
    exact ih ht hrun u hr hu block hb hcancelled hjump

end Chase

/-- Control comes to a block that stays, other than the entry, from a block that stays. Otherwise
every way to it would begin with a redirect, and could be made longer by another redirect. -/
theorem Stays.exists_feeder {b : Nat} (h : Stays blocks b) (hne : b ≠ 0) :
    ∃ c block s k, Stays blocks c ∧ blocks[c]? = some block ∧ s ∈ block.successors ∧
      Leads blocks k s b := by
  by_contra hno
  obtain ⟨hlt, hrun, hredirect⟩ := stays_iff.mp h
  have hway : ∀ k, ∃ c, c ≠ 0 ∧ c < blocks.length ∧ MayRun blocks c ∧ Leads blocks k c b := by
    intro k
    induction k with
    | zero => exact ⟨b, hne, hlt, hrun, .here hredirect⟩
    | succ k ih =>
      obtain ⟨c, hc, hclt, hcrun, hlead⟩ := ih
      obtain ⟨d, block, hdrun, hd, hmem⟩ := hcrun.exists_predecessor hc hclt
      have hdlt := (List.getElem?_eq_some_iff.mp hd).1
      by_cases hr : ∃ t, Redirects blocks d t
      · obtain ⟨t, ht⟩ := hr
        obtain rfl := ht.eq_of_mem hd hmem
        exact ⟨d, ht.ne_zero, hdlt, hdrun, .onward ht hlead⟩
      · have hstays : Stays blocks d := stays_iff.mpr ⟨hdlt, hdrun, not_exists.mp hr⟩
        exact absurd ⟨d, block, c, k, hstays, hd, hmem, hlead⟩ hno
  obtain ⟨c, -, -, -, hlead⟩ := hway (blocks.length + 1)
  exact absurd hlead.le_length (Nat.not_succ_le_self _)

end FlowFacts
