import FlowFacts.Text.Quoted

/-!
# What to analyse

A plan says which analyses run once the structure of a graph is final, and how many visits the
liveness solve may make. Analyses are a set of flags in one byte; bits without a meaning are kept.
-/

namespace FlowFacts

/-- A set of analyses. -/
structure Analyses where
  bits : UInt8
deriving DecidableEq

namespace Analyses

def none : Analyses := ⟨0⟩

/-- Liveness of blocks. -/
def liveness : Analyses := ⟨1⟩

/-- Liveness of single lines. -/
def lineLiveness : Analyses := ⟨2⟩

/-- Def-use chains. -/
def chains : Analyses := ⟨4⟩

def all : Analyses := ⟨7⟩

def union (a b : Analyses) : Analyses := ⟨a.bits ||| b.bits⟩

/-- Are all analyses of `b` in `a`? -/
def contains (a b : Analyses) : Bool := a.bits &&& b.bits == b.bits

def isEmpty (a : Analyses) : Bool := a.bits == 0

/-- The analyses with a meaning, by name. -/
def named : List (String × Analyses) :=
  [("LIVENESS", liveness), ("INSTRUCTION_LIVENESS", lineLiveness), ("DU_CHAINS", chains)]

/-- The names of the analyses in the set. -/
def names (a : Analyses) : List String :=
  (named.filter fun p => a.contains p.2).map Prod.fst

/-- The bits without a meaning. -/
def unknown (a : Analyses) : UInt8 := a.bits &&& ~~~all.bits

/-- The names in the set, then the bits without a meaning. -/
def text (a : Analyses) : String :=
  let rest := if a.unknown == 0 then [] else ["0x" ++ Text.hex a.unknown.toNat]
  let parts := a.names ++ rest
  Text.applied "Analyses" (if parts.isEmpty then "0x0" else " | ".intercalate parts)

end Analyses

/-- What to do once the structure of a graph is final. -/
structure Plan where
  analyses : Analyses
  /-- The number of visits that the liveness solve may make. -/
  maxVisits : Option Nat
deriving DecidableEq

namespace Plan

/-- Every analysis, with a bound on the visits that depends on the graph. -/
def full : Plan := ⟨.all, none⟩

/-- No analysis. -/
def structureOnly : Plan := ⟨.none, none⟩

/-- Liveness of blocks and lines. -/
def livenessOnly : Plan := ⟨Analyses.liveness.union .lineLiveness, none⟩

/-- The analyses to run. Liveness of lines needs liveness of blocks. -/
def effective (p : Plan) : Analyses :=
  if p.analyses.contains .lineLiveness then p.analyses.union .liveness else p.analyses

end Plan

end FlowFacts
