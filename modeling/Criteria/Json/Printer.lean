import Criteria.Json.Token
import Criteria.Tree

/-!
# Json/Printer — a tree as JSON text

A node is an object with the fields kind, value, left and right in this order.  Every character but
printable ASCII is escaped, those beyond the basic plane as two surrogates.  With an indentation
every field stands on a line of its own, that many spaces further in for each level.
-/

namespace Criteria.Json

/-! ## Quoted strings -/

/-- A digit value in lower-case hexadecimal. -/
def hexDigit (n : Nat) : Char :=
  if n < 10 then Char.ofNat (0x30 + n) else Char.ofNat (0x61 + (n - 10))

/-- A sixteen-bit unit as an escape. -/
def unitEscape (n : Nat) : Text :=
  ['\\', 'u', hexDigit (n / 0x1000 % 16), hexDigit (n / 0x100 % 16), hexDigit (n / 16 % 16),
    hexDigit (n % 16)]

/-- The letter that stands for a character after a backslash. -/
def shortLetter? (c : Char) : Option Char :=
  if c = '"' ∨ c = '\\' then some c
  else if c = '\x08' then some 'b'
  else if c = '\x0c' then some 'f'
  else if c = '\n' then some 'n'
  else if c = '\r' then some 'r'
  else if c = '\t' then some 't'
  else none

/-- A character as it stands between quotes. -/
def escape (c : Char) : Text :=
  match shortLetter? c with
  | some letter => ['\\', letter]
  | none =>
    let n := c.toNat
    if 0x20 ≤ n ∧ n ≤ 0x7E then [c]
    else if n < 0x10000 then unitEscape n
    else
      unitEscape (0xD800 + (n - 0x10000) / 0x400) ++ unitEscape (0xDC00 + (n - 0x10000) % 0x400)

/-- A text in quotes. -/
def quote (s : Text) : Text := '"' :: s.flatMap escape ++ ['"']

/-! ## Objects -/

/-- The space before the first field of an object on a level, and before its closing brace. -/
def lineBreak (indent : Option Nat) (level : Nat) : Text :=
  match indent with
  | none => []
  | some n => '\n' :: List.replicate (n * level) ' '

/-- What stands between two fields of an object on a level. -/
def fieldBreak (indent : Option Nat) (level : Nat) : Text :=
  match indent with
  | none => [',', ' ']
  | some _ => ',' :: lineBreak indent level

/-- A field whose value is printed. -/
def field (name : Text) (printed : Text) : Text := quote name ++ ':' :: ' ' :: printed

/-- The fields of a node on a level, in braces. -/
def node (indent : Option Nat) (level : Nat) (kind value left right : Text) : Text :=
  '\x7b' :: lineBreak indent (level + 1) ++ field "kind".toList (quote kind) ++
    fieldBreak indent (level + 1) ++ field "value".toList (quote value) ++
    fieldBreak indent (level + 1) ++ field "left".toList left ++
    fieldBreak indent (level + 1) ++ field "right".toList right ++
    lineBreak indent level ++ ['\x7d']

end Criteria.Json

namespace Criteria.Tree

open Json in
/-- A tree on a level as JSON text. -/
def printAt (indent : Option Nat) (level : Nat) : Tree → Text
  | operand clause =>
    node indent level "operand".toList clause "null".toList "null".toList
  | operator word left right =>
    node indent level "operator".toList word (left.printAt indent (level + 1))
      (right.printAt indent (level + 1))

/-- A tree as JSON text; a negative indentation counts as none on every line. -/
def toJson (indent : Option Int) (tree : Tree) : Text :=
  tree.printAt (indent.map Int.toNat) 0

/-- A tree as JSON text, unless the indentation is no length that a text can have. -/
def toJson? (indent : Option Int) (tree : Tree) : Option Text :=
  if indent.all Text.fitsWord then some (tree.toJson indent) else none

end Criteria.Tree
