import Criteria.Yaml.Glyph

/-!
# Yaml/Plain — scalars without quotes

A plain scalar is runs of text with gaps between them; a gap that holds line breaks is folded.  It
ends before a comment, a colon, a mark of the flow around it, or a line that is not further in.
-/

namespace Criteria.Yaml

/-- The marks that end a plain scalar inside a flow collection. -/
def isFlowMark (c : Char) : Bool :=
  c = ',' || c = '[' || c = ']' || c = '\x7b' || c = '\x7d'

/-- Whether a plain scalar ends before a character, given the one after it. -/
def stopsPlain (inFlow : Bool) (c next : Char) : Bool :=
  isGap c || (c = ':' && (isGap next || (inFlow && isFlowMark next))) ||
    (inFlow && (isFlowMark c || c = '?'))

/-- The run of text at the head, and what follows it. -/
def plainRun (inFlow : Bool) : List Glyph → Text × List Glyph
  | [] => ([], [])
  | g :: gs =>
    if stopsPlain inFlow g.char (peek gs 0) then ([], g :: gs)
    else
      let (run, rest) := plainRun inFlow gs
      (g.char :: run, rest)

/-- The line breaks among the spaces and breaks at the head, or `none` at a marker of documents;
and what follows. -/
def plainBreaks : List Glyph → Option Text × List Glyph
  | [] => (some [], [])
  | g :: gs =>
    if g.char = ' ' then plainBreaks gs
    else
      match _ : takeBreak? (g :: gs) with
      | none => (some [], g :: gs)
      | some (s, rest) =>
        if atMarker rest then (none, rest)
        else
          let (others, rest) := plainBreaks rest
          (others.map (s ++ ·), rest)
termination_by gs => gs.length
decreasing_by
  · simp
  · exact length_of_takeBreak? ‹_›

/-- What stands between two runs. -/
structure Gap where
  /-- The folded text of the gap; `none` at a marker of documents. -/
  text : Option Text
  /-- Whether a line ends in the gap. -/
  crossesLine : Bool
  rest : List Glyph

/-- The gap at the head. -/
def plainGap (gs : List Glyph) : Gap :=
  let spaces := gs.takeWhile (·.char = ' ')
  let rest := gs.dropWhile (·.char = ' ')
  match takeBreak? rest with
  | none => ⟨some (chars spaces), false, rest⟩
  | some (s, rest) =>
    if atMarker rest then ⟨none, true, rest⟩
    else
      let (others, rest) := plainBreaks rest
      ⟨others.map (foldBreak s), true, rest⟩

theorem length_plainRun (inFlow : Bool) (gs : List Glyph) :
    (plainRun inFlow gs).1.length + (plainRun inFlow gs).2.length = gs.length := by
  fun_induction plainRun inFlow gs <;> simp_all
  omega

theorem length_plainBreaks_le (gs : List Glyph) : (plainBreaks gs).2.length ≤ gs.length := by
  fun_induction plainBreaks gs with
  | case1 => simp
  | case2 => simp; omega
  | case3 => simp
  | case4 => exact Nat.le_of_lt (length_of_takeBreak? ‹_›)
  | case5 =>
    have := length_of_takeBreak? ‹_›
    simp_all
    omega

theorem length_plainGap_le (gs : List Glyph) : (plainGap gs).rest.length ≤ gs.length := by
  have := length_dropWhile_le (·.char = ' ') gs
  unfold plainGap
  dsimp only
  split
  · exact this
  · rename_i rest h
    have := length_of_takeBreak? h
    have := length_plainBreaks_le rest
    split <;> dsimp only <;> omega

/-- A scalar that was read: its text, whether a key may follow it, and what follows. -/
structure PlainScalar where
  text : Text
  keyAllowed : Bool
  rest : List Glyph

/-- The rest of a plain scalar after a gap.  Its lines must reach `least` columns in, unless it is
inside a flow collection. -/
def plainFrom (inFlow : Bool) (least : Int) (gap : Text) (keyAllowed : Bool) (gs : List Glyph) :
    PlainScalar :=
  if peek gs 0 = '#' then ⟨[], keyAllowed, gs⟩
  else
    match _ : plainRun inFlow gs with
    | ([], _) => ⟨[], keyAllowed, gs⟩
    | (c :: cs, rest) =>
      let run := gap ++ c :: cs
      let next := plainGap rest
      match next.text with
      | none | some [] => ⟨run, next.crossesLine, next.rest⟩
      | some (d :: ds) =>
        if peek next.rest 0 = '#' || (!inFlow && column next.rest < least) then
          ⟨run, next.crossesLine, next.rest⟩
        else
          let more := plainFrom inFlow least (d :: ds) next.crossesLine next.rest
          { more with text := run ++ more.text }
termination_by gs.length
decreasing_by
  have hr := length_plainRun inFlow gs
  have hg := length_plainGap_le rest
  simp_all
  omega

/-- The plain scalar at the head. -/
def plain (inFlow : Bool) (least : Int) (gs : List Glyph) : PlainScalar :=
  plainFrom inFlow least [] false gs

theorem length_plainFrom_le (inFlow : Bool) (least : Int) (gap : Text) (keyAllowed : Bool)
    (gs : List Glyph) : (plainFrom inFlow least gap keyAllowed gs).rest.length ≤ gs.length := by
  fun_induction plainFrom inFlow least gap keyAllowed gs <;>
    grind [length_plainRun, length_plainGap_le]

/-- A plain scalar takes the glyph at which it begins. -/
theorem length_plain_lt {inFlow : Bool} {least : Int} {g : Glyph} {gs : List Glyph}
    (hc : g.char ≠ '#') (hs : stopsPlain inFlow g.char (peek gs 0) = false) :
    (plain inFlow least (g :: gs)).rest.length < (g :: gs).length := by
  have := length_plainRun inFlow (g :: gs)
  have := length_plainFrom_le inFlow least
  unfold plain plainFrom
  grind [plainRun, length_plainGap_le, peek]

end Criteria.Yaml
