import Mathlib.Data.List.Forall2
import FlowFacts.Report.Dot

/-!
# Drawings keep their lines and quotes

A drawing is read line by line. On a line, a quote opens a string and the next one closes it, but
inside a string a backslash takes the character behind it with it. `Reader` is that rule as a machine
that reads one character after the other, and `parts` is what it makes of a line: the texts outside
and inside of quoted strings by turns, or nothing if the line ends inside a string.

Text can stand inside a string if reading it leaves the reader inside the same string and it has no
newline (`Quotable`). Escaped text can, because what one character is escaped to can, and so can
texts that are put together from such texts. So every line of a drawing has just the parts that it is
meant to have, whatever the names and constants of the program are.

## Main definitions

* `Dot.Reader`, `Dot.parts` — the rule for quoted strings, and the parts of a line
* `Dot.Quotable` — text that can stand inside a string
* `Dot.unescape` — undoes the escapes

## Main results

* `Dot.quotable_escape`, `Dot.unescape_escape` — what escaping does
* `Dot.quotable_label` — the label of a block can stand inside a string
* `Dot.forall₂_lines` — every line has the parts that it is meant to have
* `Graph.draw_unbroken` — a drawing is read as it is meant
-/

namespace FlowFacts

namespace Dot

/-! ### Reading a line -/

/-- Where a reader stands: outside of quoted strings, inside one, or inside one and behind a
backslash. -/
inductive Mode where
  | outside | inside | escaped
deriving DecidableEq

/-- A reader of a line. -/
structure Reader where
  mode : Mode
  /-- The texts that are complete, outside and inside of quoted strings by turns. -/
  parts : List String
  /-- The text that is being read. -/
  part : String

namespace Reader

/-- Reads one character. -/
def step (r : Reader) (c : Char) : Reader :=
  match r.mode with
  | .outside =>
    if c = '"' then ⟨.inside, r.parts ++ [r.part], ""⟩ else { r with part := r.part.push c }
  | .inside =>
    if c = '"' then ⟨.outside, r.parts ++ [r.part], ""⟩
    else if c = '\\' then { r with mode := .escaped, part := r.part.push c }
    else { r with part := r.part.push c }
  | .escaped => { r with mode := .inside, part := r.part.push c }

def read (r : Reader) (cs : List Char) : Reader := cs.foldl step r

theorem read_append (r : Reader) (cs ds : List Char) : r.read (cs ++ ds) = (r.read cs).read ds :=
  List.foldl_append

/-- Characters that a reader does no more than note are noted as a whole. -/
theorem read_of_step {m : Mode} {ps : List String} {cs : List Char}
    (h : ∀ c ∈ cs, ∀ p, step ⟨m, ps, p⟩ c = ⟨m, ps, p.push c⟩) (p : String) :
    read ⟨m, ps, p⟩ cs = ⟨m, ps, p ++ String.ofList cs⟩ := by
  induction cs generalizing p with
  | nil => simp [read]
  | cons c cs ih =>
    have hc : step ⟨m, ps, p⟩ c = ⟨m, ps, p.push c⟩ := h c List.mem_cons_self p
    have hpart : p.push c ++ String.ofList cs = p ++ String.ofList (c :: cs) := by
      simp [← String.toList_inj]
    rw [← hpart, ← ih fun d hd => h d (List.mem_cons_of_mem c hd), ← hc]
    rfl

end Reader

/-- The texts outside and inside of the quoted strings of a line, by turns. There are none if the line
ends inside a string. -/
def parts (line : List Char) : Option (List String) :=
  let r := Reader.read ⟨.outside, [], ""⟩ line
  if r.mode = .outside then some (r.parts ++ [r.part]) else none

/-! ### Text for quoted strings -/

/-- Reading the text inside a string meets no quote that closes the string, no newline, and no
backslash that is left without a character. -/
structure Quotable (s : String) : Prop where
  newline_not_mem : '\n' ∉ s.toList
  read_eq : ∀ ps p, Reader.read ⟨.inside, ps, p⟩ s.toList = ⟨.inside, ps, p ++ s⟩

/-- Text without quotes, backslashes and newlines. -/
def Bare (s : String) : Prop := ∀ c ∈ s.toList, c ≠ '"' ∧ c ≠ '\\' ∧ c ≠ '\n'

instance (s : String) : Decidable (Bare s) := List.decidableBAll _ s.toList

theorem Bare.append {s t : String} (hs : Bare s) (ht : Bare t) : Bare (s ++ t) := by
  intro c hc
  rw [String.toList_append, List.mem_append] at hc
  exact hc.elim (hs c) (ht c)

theorem bare_toString (k : Nat) : Bare (toString k) := by
  intro c hc
  rw [Nat.toString_eq_ofList_toDigits, String.toList_ofList] at hc
  have hdigit := Nat.isDigit_of_mem_toDigits (by decide) (by decide) hc
  refine ⟨?_, ?_, ?_⟩ <;> rintro rfl <;> exact absurd hdigit (by decide)

theorem Bare.newline_not_mem {s : String} (h : Bare s) : '\n' ∉ s.toList :=
  fun hmem => (h _ hmem).2.2 rfl

theorem Bare.read_outside {s : String} (h : Bare s) (ps : List String) (p : String) :
    Reader.read ⟨.outside, ps, p⟩ s.toList = ⟨.outside, ps, p ++ s⟩ := by
  rw [Reader.read_of_step fun c hc p => ?_, String.ofList_toList]
  simp [Reader.step, h c hc]

theorem Bare.quotable {s : String} (h : Bare s) : Quotable s where
  newline_not_mem := h.newline_not_mem
  read_eq ps p := by
    rw [Reader.read_of_step fun c hc p => ?_, String.ofList_toList]
    simp [Reader.step, h c hc]

theorem Quotable.append {s t : String} (hs : Quotable s) (ht : Quotable t) : Quotable (s ++ t) where
  newline_not_mem := by
    rw [String.toList_append, List.mem_append]
    exact fun h => h.elim hs.newline_not_mem ht.newline_not_mem
  read_eq ps p := by
    rw [String.toList_append, Reader.read_append, hs.read_eq, ht.read_eq, String.append_assoc]

theorem quotable_join {l : List String} (h : ∀ s ∈ l, Quotable s) : Quotable (String.join l) := by
  induction l with
  | nil => exact Bare.quotable (by decide)
  | cons s l ih =>
    rw [String.join_cons]
    exact (h s List.mem_cons_self).append (ih fun t ht => h t (List.mem_cons_of_mem s ht))

/-! ### Escapes -/

/-- A backslash and the character that it takes with it. -/
theorem quotable_pair {c : Char} (h : c ≠ '\n') : Quotable (String.ofList ['\\', c]) where
  newline_not_mem := by simp [h.symm]
  read_eq ps p := by
    have hpart : (p.push '\\').push c = p ++ String.ofList ['\\', c] := by
      simp [← String.toList_inj]
    rw [String.toList_ofList, ← hpart]
    rfl

theorem quotable_escapeChar (c : Char) : Quotable (String.ofList (escapeChar c)) := by
  unfold escapeChar
  split
  · exact quotable_pair (by decide)
  · exact quotable_pair (by decide)
  · exact quotable_pair (by decide)
  · exact Bare.quotable (by decide)
  · exact quotable_pair (by decide)
  · exact quotable_pair (by decide)
  · refine Bare.quotable fun d hd => ?_
    rw [String.toList_ofList, List.mem_singleton] at hd
    subst hd
    exact ⟨‹_›, ‹_›, ‹_›⟩

theorem quotable_escape (s : String) : Quotable (escape s) := by
  have hjoin : escape s = String.join (s.toList.map fun c => String.ofList (escapeChar c)) := by
    simp [escape, ← String.toList_inj, List.flatMap_map]
  rw [hjoin]
  refine quotable_join fun t ht => ?_
  obtain ⟨c, -, rfl⟩ := List.mem_map.mp ht
  exact quotable_escapeChar c

/-- Undoes the escapes: a backslash and `n` stand for a newline, and a backslash before any other
character for that character. -/
def unescape : List Char → List Char
  | '\\' :: 'n' :: cs => '\n' :: unescape cs
  | '\\' :: c :: cs => c :: unescape cs
  | c :: cs => c :: unescape cs
  | [] => []

theorem unescape_escapeChar_append (c : Char) (cs : List Char) :
    unescape (escapeChar c ++ cs) = [c].filter (· ≠ '\r') ++ unescape cs := by
  unfold escapeChar
  split
  case h_7 hbackslash _ _ hreturn _ _ =>
    have hkept : [c].filter (· ≠ '\r') = [c] := by simpa using hreturn
    rw [hkept, List.singleton_append, unescape]
    · rfl
    · rintro _ rfl
      exact absurd rfl hbackslash
    · rintro _ _ rfl
      exact absurd rfl hbackslash
  all_goals rfl

theorem unescape_escape (s : String) :
    unescape (escape s).toList = s.toList.filter (· ≠ '\r') := by
  rw [escape, String.toList_ofList]
  induction s.toList with
  | nil => rfl
  | cons c cs ih =>
    rw [List.flatMap_cons, unescape_escapeChar_append, ih, ← List.filter_append,
      List.singleton_append]

/-! ### Lines -/

/-- The line has no newline, and its parts are these. -/
def Reads (line : String) (ps : List String) : Prop :=
  '\n' ∉ line.toList ∧ parts line.toList = some ps

theorem Bare.reads {s : String} (h : Bare s) : Reads s [s] := by
  refine ⟨h.newline_not_mem, ?_⟩
  simp [parts, h.read_outside]

/-- A quote outside of strings opens one. -/
theorem read_opening (ps : List String) (p : String) :
    Reader.read ⟨.outside, ps, p⟩ "\"".toList = ⟨.inside, ps ++ [p], ""⟩ := rfl

/-- A quote inside a string closes it. -/
theorem read_closing (ps : List String) (p : String) :
    Reader.read ⟨.inside, ps, p⟩ "\"".toList = ⟨.outside, ps ++ [p], ""⟩ := rfl

/-- A line with one quoted string closes it behind the text that it is for. -/
theorem Quotable.reads {s a b line : String} (hs : Quotable s) (ha : Bare a) (hb : Bare b)
    (hline : line = a ++ "\"" ++ s ++ "\"" ++ b) : Reads line [a, s, b] := by
  subst hline
  constructor
  · simp [ha.newline_not_mem, hs.newline_not_mem, hb.newline_not_mem]
  · have hread : Reader.read ⟨.outside, [], ""⟩ (a ++ "\"" ++ s ++ "\"" ++ b).toList =
        ⟨.outside, [a, s], b⟩ := by
      simp only [String.toList_append, Reader.read_append, ha.read_outside, read_opening,
        hs.read_eq, read_closing, hb.read_outside]
      simp
    rw [parts, hread]
    rfl

/-- The quote behind a backslash does not close the string. -/
example : parts "a=\"b\\\"c\";".toList = some ["a=", "b\\\"c", ";"] := by decide

/-- Lines that are closed by newlines are told apart again. Nothing is left behind the last one. -/
theorem map_parts_splitOn {ls : List String} {pss : List (List String)}
    (h : List.Forall₂ Reads ls pss) :
    ((String.join (ls.map (· ++ "\n"))).toList.splitOn '\n').map parts =
      (pss ++ [[""]]).map some := by
  induction h with
  | nil => rfl
  | @cons line ps ls pss hline _ ih =>
    have hcons : (String.join ((line :: ls).map (· ++ "\n"))).toList =
        line.toList ++ '\n' :: (String.join (ls.map (· ++ "\n"))).toList := by
      simp
    rw [hcons, List.splitOn_append_cons_self_of_not_mem hline.1, List.map_cons, ih, hline.2]
    rfl

/-! ### The lines of a drawing -/

variable {n : Nat}

theorem quotable_labelLine {s : String} (h : Quotable s) : Quotable (labelLine s) :=
  h.append (quotable_pair (by decide))

/-- The label of a block can stand inside a string, whatever text is in the block. -/
theorem quotable_label (withLiveness : Bool) (k : Nat) (b : Block n) :
    Quotable (label withLiveness k b) := by
  have htitle : Quotable ("B" ++ toString k ++ (if k = 0 then " (entry)" else "") ++
      (if b.successors.isEmpty then " (exit)" else "")) := by
    refine Bare.quotable ((Bare.append (Bare.append (by decide) (bare_toString k)) ?_).append ?_)
    · split <;> decide
    · split <;> decide
  have hlive : ∀ s, Bare s → ∀ set : TempSet n, ∀ t ∈
      (if withLiveness then [labelLine (s ++ escape set.text)] else []), Quotable t := by
    intro s hs set t ht
    split at ht
    · rw [List.mem_singleton.mp ht]
      exact quotable_labelLine (hs.quotable.append (quotable_escape _))
    · cases ht
  refine quotable_join fun t ht => ?_
  simp only [List.mem_append, List.mem_map, List.mem_singleton] at ht
  rcases ht with (((rfl | ht) | ⟨p, -, rfl⟩) | rfl) | ht
  · exact quotable_labelLine htitle
  · exact hlive _ (by decide) _ t ht
  · exact quotable_labelLine ((((bare_toString _).append (by decide)).quotable).append
      (quotable_escape _))
  · exact quotable_labelLine (quotable_escape _)
  · exact hlive _ (by decide) _ t ht

/-- The parts of the five lines in front. -/
def headerParts (title : String) : List (List String) :=
  [["digraph CFG \x7b"],
   ["    label=", "CFG: " ++ escape title, ";"],
   ["    labelloc=t;"],
   ["    node [shape=box, fontname=", "Courier", ", fontsize=10];"],
   ["    edge [fontname=", "Courier", ", fontsize=9];"]]

/-- The parts of the line of block `k`. -/
def blockParts (withLiveness : Bool) (k : Nat) (b : Block n) : List String :=
  ["    B" ++ toString k ++ " [label=", label withLiveness k b, style k b ++ "];"]

/-- The parts of the line of an edge. -/
def edgeParts (e : Edge) : List String :=
  ["    B" ++ toString e.source ++ " -> B" ++ toString e.target ++ " [label=", (edgeLook e.kind).1,
    ", color=" ++ (edgeLook e.kind).2 ++ "];"]

theorem forall₂_header (title : String) :
    List.Forall₂ Reads (header title) (headerParts title ++ [[""]]) := by
  have hfont : Quotable "Courier" := Bare.quotable (by decide)
  have htitle : Quotable ("CFG: " ++ escape title) :=
    (Bare.quotable (by decide)).append (quotable_escape title)
  refine .cons (Bare.reads (by decide)) (.cons (htitle.reads (by decide) (by decide) ?_)
    (.cons (Bare.reads (by decide)) (.cons (hfont.reads (by decide) (by decide) (by simp))
      (.cons (hfont.reads (by decide) (by decide) (by simp))
        (.cons (Bare.reads (by decide)) .nil)))))
  rw [show "    label=\"CFG: " = "    label=" ++ "\"" ++ "CFG: " by simp,
    show "\";" = "\"" ++ ";" by simp]
  simp only [String.append_assoc]

theorem reads_blockLine (withLiveness : Bool) (k : Nat) (b : Block n) :
    Reads (blockLine withLiveness k b) (blockParts withLiveness k b) := by
  have hline : blockLine withLiveness k b = "    B" ++ toString k ++ " [label=" ++ "\"" ++
      label withLiveness k b ++ "\"" ++ (style k b ++ "];") := by
    have hlabel : " [label=\"" = " [label=" ++ "\"" := by simp
    unfold blockLine
    rw [hlabel]
    simp only [String.append_assoc]
  have hfront : Bare ("    B" ++ toString k ++ " [label=") :=
    (Bare.append (by decide) (bare_toString k)).append (by decide)
  have hstyle : Bare (style k b) := by
    unfold style
    split
    · decide
    · split <;> decide
  exact (quotable_label withLiveness k b).reads hfront (hstyle.append (by decide)) hline

theorem reads_edgeLine (e : Edge) : Reads (edgeLine e) (edgeParts e) := by
  have hline : edgeLine e = "    B" ++ toString e.source ++ " -> B" ++ toString e.target ++
      " [label=" ++ "\"" ++ (edgeLook e.kind).1 ++ "\"" ++
        (", color=" ++ (edgeLook e.kind).2 ++ "];") := by
    have hlabel : " [label=\"" = " [label=" ++ "\"" := by simp
    have hcolor : "\", color=" = "\"" ++ ", color=" := by simp
    unfold edgeLine
    rw [hlabel, hcolor]
    simp only [String.append_assoc]
  have hfront : Bare ("    B" ++ toString e.source ++ " -> B" ++ toString e.target ++ " [label=") :=
    (((Bare.append (by decide) (bare_toString _)).append (by decide)).append
      (bare_toString _)).append (by decide)
  have hlook : Bare (edgeLook e.kind).1 ∧ Bare (edgeLook e.kind).2 := by
    cases e.kind <;> decide
  exact hlook.1.quotable.reads hfront ((Bare.append (by decide) hlook.2).append (by decide)) hline

/-- Every line of a drawing has the parts that it is meant to have. -/
theorem forall₂_lines (g : Graph) (title : String) :
    List.Forall₂ Reads (lines g title)
      (headerParts title ++ [[""]] ++
        g.blocks.zipIdx.map (fun p => blockParts (g.computed.contains .liveness) p.2 p.1) ++
        [[""]] ++ g.edges.map edgeParts ++ [["\x7d"]]) := by
  have hempty : List.Forall₂ Reads [""] [[""]] := .cons (Bare.reads (by decide)) .nil
  have hbrace : List.Forall₂ Reads ["\x7d"] [["\x7d"]] := .cons (Bare.reads (by decide)) .nil
  refine List.rel_append (List.rel_append (List.rel_append (List.rel_append
    (forall₂_header title) ?_) hempty) ?_) hbrace
  · rw [List.forall₂_map_left_iff, List.forall₂_map_right_iff, List.forall₂_same]
    exact fun p _ => reads_blockLine _ p.2 p.1
  · rw [List.forall₂_map_left_iff, List.forall₂_map_right_iff, List.forall₂_same]
    exact fun e _ => reads_edgeLine e

end Dot

/-- **Drawings are read as they are meant.** Escaped text can stand inside a quoted string, and undoing
the escapes gives the text without its carriage returns. So whatever names and constants occur in a
graph and its title, the lines of a drawing are five lines in front, an empty one, one for each block
in order, an empty one, one for each edge in order, and a brace that is followed by nothing; and the
quoted string of a line, if there is one, closes on the line behind the text that it is for. -/
theorem Graph.draw_unbroken :
    (∀ s, Dot.Quotable (Dot.escape s) ∧
      Dot.unescape (Dot.escape s).toList = s.toList.filter (· ≠ '\r')) ∧
    ∀ (g : Graph) (title : Option String),
      ((g.draw title).toList.splitOn '\n').map Dot.parts =
        (Dot.headerParts (title.getD g.name) ++ [[""]] ++
          g.blocks.zipIdx.map
            (fun p => Dot.blockParts (g.computed.contains .liveness) p.2 p.1) ++
          [[""]] ++ g.edges.map Dot.edgeParts ++ [["\x7d"], [""]]).map some := by
  refine ⟨fun s => ⟨Dot.quotable_escape s, Dot.unescape_escape s⟩, fun g title => ?_⟩
  rw [Graph.draw, Dot.map_parts_splitOn (Dot.forall₂_lines g _)]
  simp only [List.append_assoc, List.singleton_append]

end FlowFacts
