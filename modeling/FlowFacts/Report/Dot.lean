import FlowFacts.Graph.Basic

/-!
# Drawings

A graph in the language of a graph-drawing program. Program text stands inside quoted strings, where
`escape` keeps quotes, backslashes and newlines from ending them. A drawing is a list of lines: a
header, one line for each block, one for each edge, and a closing brace.
-/

namespace FlowFacts

namespace Dot

/-- A character inside a quoted string. A carriage return is dropped. -/
def escapeChar : Char → List Char
  | '\\' => ['\\', '\\']
  | '"' => ['\\', '"']
  | '\n' => ['\\', 'n']
  | '\r' => []
  | '<' => ['\\', '<']
  | '>' => ['\\', '>']
  | c => [c]

/-- Text that can stand inside a quoted string. -/
def escape (s : String) : String := String.ofList (s.toList.flatMap escapeChar)

/-- A line of a block's label, flush left. -/
def labelLine (s : String) : String := s ++ "\\l"

/-- The lines in front of the blocks. -/
def header (title : String) : List String :=
  ["digraph CFG \x7b",
   "    label=\"CFG: " ++ escape title ++ "\";",
   "    labelloc=t;",
   "    node [shape=box, fontname=\"Courier\", fontsize=10];",
   "    edge [fontname=\"Courier\", fontsize=9];",
   ""]

variable {n : Nat}

/-- The label of block `k`: its lines, and its live sets if liveness has been stored. -/
def label (withLiveness : Bool) (k : Nat) (b : Block n) : String :=
  let title := "B" ++ toString k ++ (if k = 0 then " (entry)" else "") ++
    (if b.successors.isEmpty then " (exit)" else "")
  let live (s : String) (set : TempSet n) :=
    if withLiveness then [labelLine (s ++ escape set.text)] else []
  let body := b.body.zipIdx.map fun p =>
    labelLine (toString (p.2 + 1) ++ ": " ++ escape p.1.op.text)
  String.join ([labelLine title] ++ live "in: " b.liveIn ++ body ++
    [labelLine (escape b.terminator.text)] ++ live "out: " b.liveOut)

/-- How block `k` is filled. -/
def style (k : Nat) (b : Block n) : String :=
  if k = 0 then ", style=filled, fillcolor=lightgreen"
  else if b.successors.isEmpty then ", style=filled, fillcolor=lightcoral"
  else ""

/-- The line of block `k`. -/
def blockLine (withLiveness : Bool) (k : Nat) (b : Block n) : String :=
  "    B" ++ toString k ++ " [label=\"" ++ label withLiveness k b ++ "\"" ++ style k b ++ "];"

/-- The text at an edge, and its colour. -/
def edgeLook : EdgeKind → String × String
  | .unconditional => ("", "black")
  | .taken => ("taken", "green")
  | .fallthrough => ("fallthrough", "red")

/-- The line of an edge. -/
def edgeLine (e : Edge) : String :=
  let look := edgeLook e.kind
  "    B" ++ toString e.source ++ " -> B" ++ toString e.target ++ " [label=\"" ++ look.1 ++
    "\", color=" ++ look.2 ++ "];"

/-- The lines of a drawing. -/
def lines (g : Graph) (title : String) : List String :=
  header title ++ g.blocks.zipIdx.map (fun p => blockLine (g.computed.contains .liveness) p.2 p.1) ++
    [""] ++ g.edges.map edgeLine ++ ["\x7d"]

end Dot

/-- The graph as a drawing, with the name of the routine if there is no other title. -/
def Graph.draw (g : Graph) (title : Option String) : String :=
  String.join ((Dot.lines g (title.getD g.name)).map (· ++ "\n"))

end FlowFacts
