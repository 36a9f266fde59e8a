import FlowFacts.Execution.Graph

/-!
# Paths on which a value survives

Liveness and chains are about paths through blocks on which no operation writes a given temp. Such a
path is clear for the temp. A temp is live at a point if a clear path leads from there to a point
that reads it; the uses of a definition are the points that clear paths from right behind it reach.

Nothing here is computed: these are the notions that the analyses are measured against.
-/

namespace FlowFacts

variable {n : Nat}

/-- Does the operation or the terminator at a point read the temp? -/
inductive Reads (blocks : List (Block n)) (t : Temp) : Point → Prop
  | line {b i : Nat} {block : Block n} {o : Op} (hb : blocks[b]? = some block)
      (ho : block.ops[i]? = some o) (ht : t ∈ o.sources) : Reads blocks t ⟨b, i⟩
  | terminator {b : Nat} {block : Block n} (hb : blocks[b]? = some block)
      (ht : block.operand = some t) : Reads blocks t ⟨b, block.ops.length⟩

/-- Control goes from one point to the next, and does not write the temp on the way. -/
inductive Passes (blocks : List (Block n)) (t : Temp) : Point → Point → Prop
  | line {b i : Nat} {block : Block n} {o : Op} (hb : blocks[b]? = some block)
      (ho : block.ops[i]? = some o) (ht : o.dest ≠ some t) : Passes blocks t ⟨b, i⟩ ⟨b, i + 1⟩
  | edge {b s : Nat} {block : Block n} (hb : blocks[b]? = some block)
      (hs : s ∈ block.successors) : Passes blocks t ⟨b, block.ops.length⟩ (.start s)

/-- A path on which the temp is not written. -/
inductive Clear (blocks : List (Block n)) (t : Temp) : Point → Point → Prop
  | refl (p : Point) : Clear blocks t p p
  | step {p q r : Point} (hp : Passes blocks t p q) (hq : Clear blocks t q r) : Clear blocks t p r

/-- The temp may be read before it is written. -/
def LiveAt (blocks : List (Block n)) (t : Temp) (p : Point) : Prop :=
  ∃ q, Clear blocks t p q ∧ Reads blocks t q

/-- The use that stands at a point: the line behind which control has not gone yet, or the end of
the block. -/
def Point.use (blocks : List (Block n)) (p : Point) : Use :=
  match blocks[p.block]?.bind fun b => b.ops[p.index]? with
  | some _ => ⟨p.block, .line (p.index + 1)⟩
  | none => ⟨p.block, .blockEnd⟩

/-- The value that the temp has at a point may be read by the use. -/
def Reaches (blocks : List (Block n)) (t : Temp) (p : Point) (u : Use) : Prop :=
  ∃ q, Clear blocks t p q ∧ Reads blocks t q ∧ q.use blocks = u

theorem liveAt_of_passes {blocks : List (Block n)} {t : Temp} {p q : Point}
    (h : Passes blocks t p q) (hq : LiveAt blocks t q) : LiveAt blocks t p := by
  obtain ⟨r, hc, hr⟩ := hq
  exact ⟨r, .step h hc, hr⟩

/-- A temp is live at a point just if it is read there, or live at a point that control goes on to
without writing it. -/
theorem liveAt_iff {blocks : List (Block n)} {t : Temp} {p : Point} :
    LiveAt blocks t p ↔ Reads blocks t p ∨ ∃ q, Passes blocks t p q ∧ LiveAt blocks t q := by
  constructor
  · rintro ⟨r, hc, hr⟩
    cases hc with
    | refl _ => exact .inl hr
    | step hp hq => exact .inr ⟨_, hp, r, hq, hr⟩
  · rintro (hr | ⟨q, hp, hq⟩)
    · exact ⟨p, .refl p, hr⟩
    · exact liveAt_of_passes hp hq

end FlowFacts
