import Criteria.Text.Digit
import Criteria.Yaml.Glyph

/-!
# Yaml/Block — block scalars

A block scalar is the lines after its header that are indented at least as far as its first line.
A literal one keeps its line breaks, a folded one turns a single break between two lines that begin
with text into a space.  The header says what becomes of the breaks at the end.
-/

namespace Criteria.Yaml

/-- What becomes of the line breaks at the end of a block scalar. -/
inductive Chomping
  | strip
  | clip
  | keep
  deriving DecidableEq, Repr

/-- What the header of a block scalar says; `indent` counts from the enclosing indentation. -/
structure BlockHeader where
  chomping : Chomping
  indent : Option Nat
  deriving DecidableEq, Repr

/-! ## The header -/

/-- The chomping that a character asks for. -/
def chomping? (c : Char) : Option Chomping :=
  if c = '+' then some .keep else if c = '-' then some .strip else none

/-- The indicators at the head, in either order; a zero is refused. -/
def blockIndicators (gs : List Glyph) : Option (BlockHeader × List Glyph) :=
  let first := peek gs 0
  let second := peek gs 1
  match chomping? first, Text.asciiDigit? first with
  | some chomping, _ =>
    match Text.asciiDigit? second with
    | some 0 => none
    | some n => some (⟨chomping, some n⟩, gs.drop 2)
    | none => some (⟨chomping, none⟩, gs.drop 1)
  | none, some 0 => none
  | none, some n =>
    match chomping? second with
    | some chomping => some (⟨chomping, some n⟩, gs.drop 2)
    | none => some (⟨.clip, some n⟩, gs.drop 1)
  | none, none => some (⟨.clip, none⟩, gs)

/-- The header at the head, and the line after it.  A comment needs a space before it. -/
def blockHeader (gs : List Glyph) : Option (BlockHeader × List Glyph) := do
  let (header, gs) ← blockIndicators gs
  if peek gs 0 = ' ' || endsLine (peek gs 0) then
    let gs := skipSpaces gs
    if endsLine (peek gs 0) then
      pure (header, ((takeBreak? gs).map (·.2)).getD gs)
    else none
  else none

theorem length_of_blockIndicators {gs rest : List Glyph} {header : BlockHeader}
    (h : blockIndicators gs = some (header, rest)) : rest.length ≤ gs.length := by
  grind [blockIndicators]

theorem length_of_blockHeader {gs rest : List Glyph} {header : BlockHeader}
    (h : blockHeader gs = some (header, rest)) : rest.length ≤ gs.length := by
  simp only [blockHeader, Option.bind_eq_bind, Option.bind_eq_some_iff] at h
  obtain ⟨⟨_, after⟩, hi, h⟩ := h
  have := length_of_blockIndicators hi
  have := length_skipSpaces_le after
  have := @length_of_takeBreak? (skipSpaces after)
  cases hb : takeBreak? (skipSpaces after) <;> grind

/-! ## The lines -/

/-- The line breaks before the first line with text, the furthest column that their spaces reach,
and what follows. -/
def leadingBreaks : List Glyph → Text × Nat × List Glyph
  | [] => ([], 0, [])
  | g :: gs =>
    if g.char = ' ' then
      let (breaks, furthest, rest) := leadingBreaks gs
      (breaks, max furthest (g.column + 1), rest)
    else
      match _ : takeBreak? (g :: gs) with
      | none => ([], 0, g :: gs)
      | some (s, rest) =>
        let (breaks, furthest, rest) := leadingBreaks rest
        (s ++ breaks, furthest, rest)
termination_by gs => gs.length
decreasing_by
  · simp
  · exact length_of_takeBreak? ‹_›

theorem length_leadingBreaks_le (gs : List Glyph) : (leadingBreaks gs).2.2.length ≤ gs.length := by
  fun_induction leadingBreaks gs <;> grind [→ length_of_takeBreak?]

/-- The glyphs past the spaces before a column. -/
def skipIndent (indent : Nat) (gs : List Glyph) : List Glyph :=
  gs.dropWhile fun g => g.char = ' ' && g.column < indent

/-- The line breaks of empty lines, and the next line past its indentation. -/
def blockBreaks (indent : Nat) (gs : List Glyph) : Text × List Glyph :=
  match _ : takeBreak? (skipIndent indent gs) with
  | none => ([], skipIndent indent gs)
  | some (s, rest) =>
    let (breaks, rest) := blockBreaks indent rest
    (s ++ breaks, rest)
termination_by gs.length
decreasing_by
  have := length_of_takeBreak? ‹_›
  have : (skipIndent indent gs).length ≤ gs.length := length_dropWhile_le _ gs
  omega

theorem length_blockBreaks_le (indent : Nat) (gs : List Glyph) :
    (blockBreaks indent gs).2.length ≤ gs.length := by
  fun_induction blockBreaks indent gs with
  | case1 gs => exact length_dropWhile_le _ gs
  | case2 gs =>
    have := length_of_takeBreak? ‹_›
    have : (skipIndent indent gs).length ≤ gs.length := length_dropWhile_le _ gs
    simp_all
    omega

/-- Whether a line of a block scalar begins here. -/
def beginsLine (indent : Nat) (gs : List Glyph) : Bool :=
  column gs = indent && peek gs 0 ≠ endMark

/-- The first line, its break, the breaks of the empty lines after it, and what follows. -/
def blockLine (indent : Nat) (gs : List Glyph) : Text × Text × Text × List Glyph :=
  let line := chars (gs.takeWhile (!endsLine ·.char))
  let rest := gs.dropWhile (!endsLine ·.char)
  let (lineBreak, rest) := (takeBreak? rest).getD ([], rest)
  let (breaks, rest) := blockBreaks indent rest
  (line, lineBreak, breaks, rest)

theorem length_blockLine_lt {indent : Nat} {gs : List Glyph} (h : beginsLine indent gs) :
    (blockLine indent gs).2.2.2.length < gs.length := by
  cases gs with
  | nil => simp [beginsLine, peek] at h
  | cons g gs =>
    have hend : g.char ≠ endMark := by
      simp [beginsLine, peek] at h
      exact h.2
    have hd := length_dropWhile_le (!endsLine ·.char) gs
    simp only [blockLine]
    have hb := length_blockBreaks_le indent
    by_cases hl : endsLine g.char
    · have ht : (takeBreak? (g :: gs)).isSome := by
        simp only [endsLine, hend, decide_false, Bool.or_false] at hl
        grind [takeBreak?]
      obtain ⟨⟨s, rest⟩, ht⟩ := Option.isSome_iff_exists.1 ht
      have := length_of_takeBreak? ht
      have := hb rest
      simp only [List.dropWhile, hl, Bool.not_true, ht, Option.getD_some]
      omega
    · simp only [List.dropWhile, hl, Bool.not_false]
      cases ht : takeBreak? (gs.dropWhile (!endsLine ·.char)) with
      | none =>
        have := hb (gs.dropWhile (!endsLine ·.char))
        simp only [Option.getD_none, List.length_cons]
        omega
      | some p =>
        obtain ⟨s, rest⟩ := p
        have := length_of_takeBreak? ht
        have := hb rest
        simp only [Option.getD_some, List.length_cons]
        omega

/-- The text of the lines of a block scalar after `breaks`, its last break, the breaks after it, and
what follows. -/
def blockLines (folded : Bool) (indent : Nat) (breaks : Text) (gs : List Glyph) :
    Text × Text × Text × List Glyph :=
  if h : beginsLine indent gs then
    match hl : blockLine indent gs with
    | (line, lineBreak, later, rest) =>
      have : rest.length < gs.length := by simpa [hl] using length_blockLine_lt h
      if beginsLine indent rest then
        let folds := folded && lineBreak = ['\n'] && !isBlank (peek gs 0) && !isBlank (peek rest 0)
        let join := if folds then (if later = [] then [' '] else []) else lineBreak
        let (more, last) := blockLines folded indent later rest
        (breaks ++ line ++ join ++ more, last)
      else (breaks ++ line, lineBreak, later, rest)
  else ([], [], breaks, gs)
termination_by gs.length

theorem length_blockLines_le (folded : Bool) (indent : Nat) (breaks : Text) (gs : List Glyph) :
    (blockLines folded indent breaks gs).2.2.2.length ≤ gs.length := by
  fun_induction blockLines folded indent breaks gs <;> grind

/-- The text of the block scalar whose header begins here, inside the enclosing indentation, and
what follows. -/
def block (folded : Bool) (enclosing : Int) (gs : List Glyph) : Option (Text × List Glyph) := do
  let (header, gs) ← blockHeader gs
  let least := (enclosing + 1).toNat.max 1
  let (indent, breaks, gs) :=
    match header.indent with
    | some n =>
      let (breaks, rest) := blockBreaks (least + n - 1) gs
      (least + n - 1, breaks, rest)
    | none =>
      let (breaks, furthest, rest) := leadingBreaks gs
      (max least furthest, breaks, rest)
  let (text, lineBreak, breaks, rest) := blockLines folded indent breaks gs
  pure <|
    match header.chomping with
    | .strip => (text, rest)
    | .clip => (text ++ lineBreak, rest)
    | .keep => (text ++ lineBreak ++ breaks, rest)

theorem length_of_block {folded : Bool} {enclosing : Int} {gs rest : List Glyph} {s : Text}
    (h : block folded enclosing gs = some (s, rest)) : rest.length ≤ gs.length := by
  simp only [block, Option.bind_eq_bind, Option.bind_eq_some_iff] at h
  obtain ⟨⟨header, after⟩, hh, h⟩ := h
  have := length_of_blockHeader hh
  have := length_blockLines_le folded
  have := fun indent => length_blockBreaks_le indent after
  have := length_leadingBreaks_le after
  cases hi : header.indent <;> cases hc : header.chomping <;> simp [hi, hc] at h <;> grind

end Criteria.Yaml
