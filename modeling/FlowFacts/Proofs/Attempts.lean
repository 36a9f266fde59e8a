/-!
# Attempts

Cutting, pruning and searching can fail, and are composed from parts that can. If the whole succeeds
then so does every part, and the result is made up of theirs. If it fails, it does so with the first
part that fails. These lemmas take both apart.
-/

namespace FlowFacts

variable {ε α β γ : Type}

/-! ### Success -/

theorem exists_eq_ok {x : Except ε α} (h : x.isOk = true) : ∃ a, x = .ok a := by
  cases x with
  | ok a => exact ⟨a, rfl⟩
  | error e => cases h

theorem bind_eq_ok_iff {x : Except ε α} {f : α → Except ε β} {b : β} :
    x >>= f = .ok b ↔ ∃ a, x = .ok a ∧ f a = .ok b := by
  cases x <;> simp [bind, Except.bind]

theorem exists_bind_eq_ok {x : Except ε α} {f : α → Except ε β} (hx : ∃ a, x = .ok a)
    (hf : ∀ a, ∃ b, f a = .ok b) : ∃ b, x >>= f = .ok b := by
  obtain ⟨a, rfl⟩ := hx
  exact hf a

theorem map_eq_ok_iff {x : Except ε α} {f : α → β} {b : β} :
    f <$> x = .ok b ↔ ∃ a, x = .ok a ∧ f a = b := by
  cases x <;> simp [Functor.map, Except.map]

theorem seq_eq_ok_iff {x : Except ε (α → β)} {y : Except ε α} {b : β} :
    x <*> y = .ok b ↔ ∃ f a, x = .ok f ∧ y = .ok a ∧ f a = b := by
  cases x <;> cases y <;> simp [Seq.seq, Except.bind, Except.map]

theorem mapError_eq_ok_iff {δ : Type} {x : Except ε α} {f : ε → δ} {a : α} :
    x.mapError f = .ok a ↔ x = .ok a := by
  cases x with
  | ok a => constructor <;> (intro h; cases h; rfl)
  | error e => constructor <;> (intro h; cases h)

theorem mapM_cons_eq_ok_iff {f : α → Except ε β} {a : α} {as : List α} {bs : List β} :
    (a :: as).mapM f = .ok bs ↔ ∃ b bs', f a = .ok b ∧ as.mapM f = .ok bs' ∧ bs = b :: bs' := by
  rw [List.mapM_cons, bind_eq_ok_iff]
  constructor
  · rintro ⟨b, hb, h⟩
    obtain ⟨bs', hbs, h⟩ := bind_eq_ok_iff.mp h
    cases h
    exact ⟨b, bs', hb, hbs, rfl⟩
  · rintro ⟨b, bs', hb, hbs, rfl⟩
    exact ⟨b, hb, bind_eq_ok_iff.mpr ⟨bs', hbs, rfl⟩⟩

theorem length_of_mapM {f : α → Except ε β} {as : List α} {bs : List β}
    (h : as.mapM f = .ok bs) : bs.length = as.length := by
  induction as generalizing bs with
  | nil => cases h; rfl
  | cons a as ih =>
    obtain ⟨b, bs', -, hbs, rfl⟩ := mapM_cons_eq_ok_iff.mp h
    rw [List.length_cons, List.length_cons, ih hbs]

/-- Every member of the list has its result, at the same position. -/
theorem getElem?_of_mapM {f : α → Except ε β} {as : List α} {bs : List β}
    (h : as.mapM f = .ok bs) {i : Nat} {a : α} (ha : as[i]? = some a) :
    ∃ b, f a = .ok b ∧ bs[i]? = some b := by
  induction as generalizing bs i with
  | nil => simp at ha
  | cons a' as ih =>
    obtain ⟨b, bs', hb, hbs, rfl⟩ := mapM_cons_eq_ok_iff.mp h
    cases i with
    | zero =>
      cases ha
      exact ⟨b, hb, rfl⟩
    | succ i => exact ih hbs ha

/-- Every result is that of a member of the list, at the same position. -/
theorem exists_of_mapM_getElem? {f : α → Except ε β} {as : List α} {bs : List β}
    (h : as.mapM f = .ok bs) {i : Nat} {b : β} (hb : bs[i]? = some b) :
    ∃ a, as[i]? = some a ∧ f a = .ok b := by
  have hi : i < as.length := length_of_mapM h ▸ (List.getElem?_eq_some_iff.mp hb).1
  obtain ⟨b', hf, hb'⟩ := getElem?_of_mapM h (List.getElem?_eq_getElem hi)
  obtain rfl : b' = b := Option.some.inj (hb'.symm.trans hb)
  exact ⟨_, List.getElem?_eq_getElem hi, hf⟩

theorem exists_mapM_eq_ok {f : α → Except ε β} {as : List α} (h : ∀ a ∈ as, ∃ b, f a = .ok b) :
    ∃ bs, as.mapM f = .ok bs := by
  induction as with
  | nil => exact ⟨[], rfl⟩
  | cons a as ih =>
    obtain ⟨b, hb⟩ := h a List.mem_cons_self
    obtain ⟨bs, hbs⟩ := ih fun a ha => h a (List.mem_cons_of_mem _ ha)
    exact ⟨b :: bs, mapM_cons_eq_ok_iff.mpr ⟨b, bs, hb, hbs, rfl⟩⟩

/-! ### Failure -/

theorem bind_eq_error_iff {x : Except ε α} {f : α → Except ε β} {e : ε} :
    x >>= f = .error e ↔ x = .error e ∨ ∃ a, x = .ok a ∧ f a = .error e := by
  cases x <;> simp [bind, Except.bind]

theorem map_eq_error_iff {x : Except ε α} {f : α → β} {e : ε} :
    f <$> x = .error e ↔ x = .error e := by
  cases x <;> simp [Functor.map, Except.map]

theorem seq_eq_error_iff {x : Except ε (α → β)} {y : Except ε α} {e : ε} :
    x <*> y = .error e ↔ x = .error e ∨ ∃ f, x = .ok f ∧ y = .error e := by
  cases x <;> cases y <;> simp [Seq.seq, Except.bind, Except.map]

theorem mapError_eq_error_iff {δ : Type} {x : Except ε α} {f : ε → δ} {d : δ} :
    x.mapError f = .error d ↔ ∃ e, x = .error e ∧ f e = d := by
  cases x with
  | ok a =>
    constructor
    · intro h
      cases h
    · rintro ⟨e, h, -⟩
      cases h
  | error e =>
    constructor
    · intro h
      cases h
      exact ⟨e, rfl, rfl⟩
    · rintro ⟨e', h, rfl⟩
      cases h
      rfl

/-- An attempt at all members of a list fails with the first member that fails. -/
theorem exists_of_mapM_eq_error {f : α → Except ε β} {as : List α} {e : ε}
    (h : as.mapM f = .error e) :
    ∃ (i : Nat) (a : α), as[i]? = some a ∧ f a = .error e ∧
      ∀ {j : Nat} {a' : α}, j < i → as[j]? = some a' → ∃ b, f a' = .ok b := by
  induction as with
  | nil => cases h
  | cons a as ih =>
    rw [List.mapM_cons, bind_eq_error_iff] at h
    rcases h with h | ⟨b, hb, h⟩
    · exact ⟨0, a, rfl, h, fun hj => absurd hj (Nat.not_lt_zero _)⟩
    · obtain h | ⟨bs, -, h⟩ := bind_eq_error_iff.mp h
      · obtain ⟨i, a', ha', herror, hfront⟩ := ih h
        refine ⟨i + 1, a', ha', herror, fun {j c} hj hc => ?_⟩
        cases j with
        | zero =>
          cases hc
          exact ⟨b, hb⟩
        | succ j => exact hfront (Nat.lt_of_succ_lt_succ hj) hc
      · cases h

theorem exists_of_mapM_zipIdx_eq_error {f : α × Nat → Except ε β} {as : List α} {e : ε}
    (h : as.zipIdx.mapM f = .error e) :
    ∃ (i : Nat) (a : α), as[i]? = some a ∧ f (a, i) = .error e ∧
      ∀ {j : Nat} {a' : α}, j < i → as[j]? = some a' → ∃ b, f (a', j) = .ok b := by
  have hget : ∀ {i : Nat} {a : α}, as[i]? = some a → as.zipIdx[i]? = some (a, i) := by
    intro i a ha
    rw [List.getElem?_zipIdx, ha, Nat.zero_add]
    rfl
  obtain ⟨i, ⟨a, k⟩, hi, herror, hfront⟩ := exists_of_mapM_eq_error h
  rw [List.getElem?_zipIdx, Option.map_eq_some_iff] at hi
  obtain ⟨_, ha, hpair⟩ := hi
  rw [Nat.zero_add] at hpair
  cases hpair
  exact ⟨i, a, ha, herror, fun hj ha' => hfront hj (hget ha')⟩

end FlowFacts
