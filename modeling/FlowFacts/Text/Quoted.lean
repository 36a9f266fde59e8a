import FlowFacts.Text.Printable

/-!
# Quoted text and records

How strings, numbers and constructor-like records are written out. A quoted string escapes the
quote, the backslash and four control characters by a backslash and one letter, and every other
character that cannot stand for itself by its code point in braces.
-/

namespace FlowFacts.Text

/-- Lower-case hexadecimal digits without leading zeros. -/
def hex (n : Nat) : String := String.ofList (Nat.toDigits 16 n)

/-- A number that always carries a sign. -/
def signed (i : Int) : String :=
  if 0 ≤ i then "+" ++ toString i else toString i

/-- A character inside a quoted string. -/
def quotedChar (c : Char) : List Char :=
  if c = '\x00' then ['\\', '0']
  else if c = '\t' then ['\\', 't']
  else if c = '\r' then ['\\', 'r']
  else if c = '\n' then ['\\', 'n']
  else if c = '"' then ['\\', '"']
  else if c = '\\' then ['\\', '\\']
  else if isPrintable c then [c]
  else '\\' :: 'u' :: '\x7b' :: Nat.toDigits 16 c.toNat ++ ['\x7d']

/-- A string between quotes. -/
def quoted (s : String) : String :=
  String.ofList ('"' :: s.toList.flatMap quotedChar ++ ['"'])

/-- A named record with named fields. -/
def record (name : String) (fields : List (String × String)) : String :=
  name ++ " \x7b " ++ ", ".intercalate (fields.map fun f => f.1 ++ ": " ++ f.2) ++ " \x7d"

/-- A constructor applied to one argument. -/
def applied (name argument : String) : String := name ++ "(" ++ argument ++ ")"

/-- An optional value, given the text of the value. -/
def optional : Option String → String
  | some s => applied "Some" s
  | none => "None"

/-- A number padded with blanks on the right to two places. -/
def lineNumber (n : Nat) : String :=
  let digits := toString n
  if n < 10 then digits ++ " " else digits

end FlowFacts.Text
