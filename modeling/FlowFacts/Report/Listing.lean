import FlowFacts.Graph.Basic

/-!
# Listings

Plain-text listings of a graph for people to read: its blocks, its live sets, or its chains.
-/

namespace FlowFacts

namespace Listing

/-- Lines of text, each closed by a newline. -/
def joinLines (lines : List String) : String := String.join (lines.map (· ++ "\n"))

/-- A numbered line. -/
def numbered (k : Nat) (text : String) : String :=
  "    " ++ Text.lineNumber k ++ " " ++ text

/-- A listing: the routine, and for each block its number and the lines about it. -/
def ofBlocks (g : Graph) (lines : Block g.tempCount → List String) : String :=
  joinLines <| ("FUNCTION " ++ g.name ++ ":") :: g.blocks.flatMap fun b =>
    ("BASIC BLOCK " ++ toString b.number ++ ":") :: lines b

variable {n : Nat}

/-- The line of the terminator, one behind the body. -/
def terminatorLine (b : Block n) : String := numbered (b.body.length + 1) b.terminator.text

/-- The line number at which a use is shown. The end of a block is the line behind its body. -/
def useLine (blocks : List (Block n)) (u : Use) : Nat :=
  match u.position with
  | .line k => k
  | .blockEnd => (blocks[u.block]?.map fun b => b.body.length).getD 0 + 1

/-- The chain of a line, nothing if it has none. -/
def chainText (blocks : List (Block n)) : Option (List Use) → String
  | none => ""
  | some uses =>
    let shown := uses.map fun u =>
      "(" ++ toString u.block ++ "," ++ toString (useLine blocks u) ++ ") "
    " [ " ++ String.join shown ++ "]"

end Listing

open Listing

namespace Graph

/-- Every block with its numbered lines. -/
def listBlocks (g : Graph) : String :=
  ofBlocks g fun b =>
    b.body.zipIdx.map (fun p => numbered (p.2 + 1) p.1.op.text) ++ [terminatorLine b]

/-- Every block with its sets, and every line with what is live after it. -/
def listLiveness (g : Graph) : String :=
  ofBlocks g fun b =>
    ["  Def     = " ++ b.defs.text, "  liveUse = " ++ b.uses.text,
      "  liveIn  = " ++ b.liveIn.text, "  liveOut = " ++ b.liveOut.text] ++
    b.body.map (fun l => "    " ++ l.op.text ++ " " ++ l.liveOut.text) ++
    ["    " ++ b.terminator.text]

/-- Every block with its numbered lines, each with its chain. -/
def listChains (g : Graph) : String :=
  ofBlocks g fun b =>
    b.body.zipIdx.map
      (fun p => numbered (p.2 + 1) p.1.op.text ++ chainText g.blocks p.1.chain) ++
    [terminatorLine b]

end Graph

/-- Text that did not fit, with as much of it as did. -/
structure ShortWrite where
  written : String

def ShortWrite.message (_ : ShortWrite) : String := "failed to write whole buffer"

/-- Writes text to a place with room for a number of bytes. -/
def writeWithin (room : Nat) (text : String) : Except ShortWrite String :=
  if text.utf8ByteSize ≤ room then .ok text
  else
    let fits := text.toList.foldl
      (fun (acc : String × Bool) c =>
        if acc.2 ∧ acc.1.utf8ByteSize + c.utf8Size ≤ room then (acc.1.push c, true)
        else (acc.1, false))
      ("", true)
    .error ⟨fits.1⟩

end FlowFacts
