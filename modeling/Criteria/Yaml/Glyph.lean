import Criteria.Text

/-!
# Yaml/Glyph — the characters of a document with their places

The reader of a document looks at lines and columns as often as at characters, so every character
carries its place, and a last glyph marks the end of the text.
-/

namespace Criteria.Yaml

/-- A character and its place; `index` counts the characters before it. -/
structure Glyph where
  char : Char
  line : Nat
  column : Nat
  index : Nat
  deriving DecidableEq, Repr, Inhabited

/-! ## Classes of characters -/

/-- The character of the last glyph, which no document may hold. -/
def endMark : Char := '\x00'

/-- Line breaks. -/
def isBreak (c : Char) : Bool :=
  c = '\r' || c = '\n' || c = '\x85' || c = '\u2028' || c = '\u2029'

/-- Line breaks and the end of the text. -/
def endsLine (c : Char) : Bool := isBreak c || c = endMark

/-- Spaces and tabs. -/
def isBlank (c : Char) : Bool := c = ' ' || c = '\t'

/-- Spaces, tabs, line breaks and the end of the text. -/
def isGap (c : Char) : Bool := isBlank c || endsLine c

/-- The characters that a document may hold. -/
def isPrintable (c : Char) : Bool :=
  let n := c.toNat
  n == 0x9 || n == 0xA || n == 0xD || (0x20 ≤ n && n ≤ 0x7E) || n == 0x85 ||
    (0xA0 ≤ n && n ≤ 0xD7FF) || (0xE000 ≤ n && n ≤ 0xFFFD) || 0x10000 ≤ n

/-! ## Placing -/

/-- The mark of byte order, which takes no column. -/
def byteOrderMark : Char := '\ufeff'

/-- The glyphs of a text that begins at a place.  A carriage return and a line feed are one
break. -/
def placeFrom (line column index : Nat) : Text → List Glyph
  | [] => [⟨endMark, line, column, index⟩]
  | c :: cs =>
    ⟨c, line, column, index⟩ ::
      if isBreak c && !(c = '\r' && cs.head? = some '\n') then placeFrom (line + 1) 0 (index + 1) cs
      else placeFrom line (if c = byteOrderMark then column else column + 1) (index + 1) cs

/-- The glyphs of a text. -/
def place (source : Text) : List Glyph := placeFrom 0 0 0 source

/-! ## Looking ahead -/

/-- The character so many glyphs ahead. -/
def peek (gs : List Glyph) (ahead : Nat) : Char := (gs[ahead]?.map Glyph.char).getD endMark

/-- The column of the first glyph. -/
def column (gs : List Glyph) : Nat := (gs.head?.map Glyph.column).getD 0

/-- The characters of glyphs. -/
def chars (gs : List Glyph) : Text := gs.map Glyph.char

/-- Whether the glyphs begin with a character three times and a gap. -/
def startsTriple (c : Char) (gs : List Glyph) : Bool :=
  peek gs 0 = c && peek gs 1 = c && peek gs 2 = c && isGap (peek gs 3)

/-- Whether the glyphs begin with the start or the end of a document. -/
def atMarker (gs : List Glyph) : Bool := startsTriple '-' gs || startsTriple '.' gs

theorem length_dropWhile_le (p : Glyph → Bool) (gs : List Glyph) :
    (gs.dropWhile p).length ≤ gs.length :=
  (List.dropWhile_sublist p).length_le

/-! ## Line breaks -/

/-- The break at the head, as it is kept: a line feed, or a separator as it is. -/
def takeBreak? : List Glyph → Option (Text × List Glyph)
  | [] => none
  | g :: gs =>
    if g.char = '\r' then some (['\n'], if peek gs 0 = '\n' then gs.tail else gs)
    else if g.char = '\n' ∨ g.char = '\x85' then some (['\n'], gs)
    else if isBreak g.char then some ([g.char], gs)
    else none

theorem length_of_takeBreak? {gs rest : List Glyph} {s : Text}
    (h : takeBreak? gs = some (s, rest)) : rest.length < gs.length := by
  cases gs with
  | nil => simp [takeBreak?] at h
  | cons g gs => grind [takeBreak?, List.length_tail]

/-- What a line break and the breaks of the empty lines after it stand for inside a scalar: one
break alone is a space. -/
def foldBreak (first others : Text) : Text :=
  (if first ≠ ['\n'] then first else if others = [] then [' '] else []) ++ others

/-- Past a comment that begins here. -/
def skipComment (gs : List Glyph) : List Glyph :=
  if peek gs 0 = '#' then gs.dropWhile (!endsLine ·.char) else gs

/-- Past the spaces that begin here, and a comment after them. -/
def skipSpaces (gs : List Glyph) : List Glyph := skipComment (gs.dropWhile (·.char = ' '))

theorem length_skipSpaces_le (gs : List Glyph) : (skipSpaces gs).length ≤ gs.length := by
  unfold skipSpaces skipComment
  have := length_dropWhile_le (·.char = ' ') gs
  have := length_dropWhile_le (!endsLine ·.char) (gs.dropWhile (·.char = ' '))
  split <;> omega

/-- Past spaces, comments and line breaks; whether a line ended on the way. -/
def skipToToken (gs : List Glyph) : Bool × List Glyph :=
  match _ : takeBreak? (skipSpaces gs) with
  | some (_, rest) => (true, (skipToToken rest).2)
  | none => (false, skipSpaces gs)
termination_by gs.length
decreasing_by
  have := length_skipSpaces_le gs
  have := length_of_takeBreak? ‹_›
  omega

theorem length_skipToToken_le (gs : List Glyph) : (skipToToken gs).2.length ≤ gs.length := by
  fun_induction skipToToken gs <;> grind [length_skipSpaces_le, → length_of_takeBreak?]

end Criteria.Yaml
