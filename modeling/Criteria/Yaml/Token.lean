import Criteria.Yaml.Block
import Criteria.Yaml.Plain
import Criteria.Yaml.Quoted

/-!
# Yaml/Token — the tokens of a document

Indentation becomes tokens that begin and end block collections.  A key is known to be one only at
the colon after it, so the place where one may have begun is kept for every flow collection that is
open, and its token is inserted there once the colon is reached.
-/

namespace Criteria.Yaml

open Outcome

/-- A token of a document. -/
inductive Token
  | documentStart
  | documentEnd
  | blockSequenceStart
  | blockMappingStart
  | blockEnd
  | flowSequenceStart
  | flowSequenceEnd
  | flowMappingStart
  | flowMappingEnd
  | blockEntry
  | flowEntry
  | key
  | value
  | scalar (text : Text) (isPlain : Bool)
  /-- The end of what can be read, for a reason. -/
  | failure (reason : Failure)
  deriving DecidableEq, Repr, Inhabited

/-- A place where a key may have begun: its glyph and the number of tokens before it.  A required
one must turn out to be a key. -/
structure Candidate where
  glyph : Glyph
  tokensBefore : Nat
  required : Bool
  deriving Repr

/-- What is known of a document up to a place in it. -/
structure Layout where
  /-- The indentation of the innermost block collection, `-1` outside of all. -/
  indent : Int := -1
  /-- The indentations around it, the innermost first. -/
  outer : List Int := []
  /-- How many flow collections are open. -/
  flowDepth : Nat := 0
  /-- Whether a key or an entry may begin here. -/
  keyAllowed : Bool := true
  /-- The possible key at the current depth. -/
  candidate : Option Candidate := none
  /-- The possible keys at the depths around it, the innermost first. -/
  suspended : List (Option Candidate) := []
  /-- The tokens, the last one first. -/
  tokens : List Token := []
  /-- How many tokens there are. -/
  count : Nat := 0

namespace Layout

/-- Whether a flow collection is open. -/
def inFlow (l : Layout) : Bool := l.flowDepth ≠ 0

/-- The layout with another token. -/
def push (token : Token) (l : Layout) : Layout :=
  { l with tokens := token :: l.tokens, count := l.count + 1 }

/-- The layout with a token inserted after so many others. -/
def insertAfter (count : Nat) (token : Token) (l : Layout) : Layout :=
  { l with tokens := l.tokens.insertIdx (l.count - count) token, count := l.count + 1 }

/-! ## Possible keys -/

/-- The longest key, in characters. -/
def maxKeyLength : Nat := 1024

/-- A possible key is given up when its line ends or it gets too long, and then it must not be a
required one. -/
def refresh (g : Glyph) : Option Candidate → Option (Option Candidate)
  | none => some none
  | some c =>
    if c.glyph.line ≠ g.line || maxKeyLength < g.index - c.glyph.index then
      if c.required then none else some none
    else some (some c)

/-- The layout without the keys that are impossible from a glyph on. -/
def dropStale (g : Glyph) (l : Layout) : Option Layout := do
  let candidate ← refresh g l.candidate
  let suspended ← l.suspended.mapM (refresh g)
  pure { l with candidate, suspended }

/-- The layout without the possible key at the current depth. -/
def dropCandidate (l : Layout) : Option Layout :=
  if l.candidate.any (·.required) then none else some { l with candidate := none }

/-- The layout in which a key may begin at a glyph. -/
def saveCandidate (g : Glyph) (l : Layout) : Option Layout :=
  if l.keyAllowed then do
    let l ← l.dropCandidate
    let required := !l.inFlow && l.indent = g.column
    pure { l with candidate := some ⟨g, l.count, required⟩ }
  else some l

/-! ## Indentation -/

/-- How many block collections end left of a column, the indentation after them, and the ones
around it. -/
def unwindFrom (column indent : Int) : List Int → Nat × Int × List Int
  | [] => (0, indent, [])
  | next :: outer =>
    if column < indent then
      let (ended, rest) := unwindFrom column next outer
      (ended + 1, rest)
    else (0, indent, next :: outer)

/-- The layout with the block collections ended that end left of a column. -/
def unwind (column : Int) (l : Layout) : Layout :=
  if l.inFlow then l
  else
    let (ended, indent, outer) := unwindFrom column l.indent l.outer
    { l with
      indent, outer
      tokens := List.replicate ended .blockEnd ++ l.tokens
      count := l.count + ended }

/-- The layout with a block collection that begins at a column, after so many tokens, unless the
column is in one already. -/
def beginBlock (column : Nat) (count : Nat) (token : Token) (l : Layout) : Layout :=
  if l.indent < column then
    insertAfter count token { l with indent := column, outer := l.indent :: l.outer }
  else l

/-! ## Tokens -/

/-- A marker of documents, which ends all block collections. -/
def marker (token : Token) (l : Layout) : Option Layout := do
  let l ← (l.unwind (-1)).dropCandidate
  pure ({ l with keyAllowed := false }.push token)

/-- The start of a flow collection, which may be a key. -/
def openFlow (g : Glyph) (token : Token) (l : Layout) : Option Layout := do
  let l ← l.saveCandidate g
  pure (push token
    { l with
      flowDepth := l.flowDepth + 1
      keyAllowed := true
      candidate := none
      suspended := l.candidate :: l.suspended })

/-- The end of a flow collection. -/
def closeFlow (token : Token) (l : Layout) : Option Layout := do
  let l ← l.dropCandidate
  match l.flowDepth, l.suspended with
  | depth + 1, candidate :: suspended =>
    pure (push token { l with flowDepth := depth, keyAllowed := false, candidate, suspended })
  | _, _ => none

/-- A comma between the items of a flow collection. -/
def flowComma (l : Layout) : Option Layout := do
  let l ← { l with keyAllowed := true }.dropCandidate
  pure (l.push .flowEntry)

/-- The dash of an item of a block sequence.  The grammar refuses one in a flow collection. -/
def dash (g : Glyph) (l : Layout) : Option Layout := do
  if !l.inFlow && !l.keyAllowed then none
  else
    let l := if l.inFlow then l else l.beginBlock g.column l.count .blockSequenceStart
    let l ← { l with keyAllowed := true }.dropCandidate
    pure (l.push .blockEntry)

/-- A question mark before a key. -/
def question (g : Glyph) (l : Layout) : Option Layout := do
  if !l.inFlow && !l.keyAllowed then none
  else
    let l := if l.inFlow then l else l.beginBlock g.column l.count .blockMappingStart
    let l ← { l with keyAllowed := !l.inFlow }.dropCandidate
    pure (l.push .key)

/-- The colon after a key. -/
def colon (g : Glyph) (l : Layout) : Option Layout :=
  match l.candidate with
  | some c =>
    let l := { l with candidate := none, keyAllowed := false }.insertAfter c.tokensBefore .key
    let l := if l.inFlow then l else l.beginBlock c.glyph.column c.tokensBefore .blockMappingStart
    some (l.push .value)
  | none =>
    if !l.inFlow && !l.keyAllowed then none
    else
      let l := if l.inFlow then l else l.beginBlock g.column l.count .blockMappingStart
      some ({ l with keyAllowed := !l.inFlow }.push .value)

/-- A scalar on one line or more, which may be a key. -/
def scalar (text : Text) (isPlain keyAllowed : Bool) (l : Layout) : Layout :=
  { l with keyAllowed }.push (.scalar text isPlain)

end Layout

/-! ## Scanning -/

/-- Whether a plain scalar may begin with a character, given the one after it. -/
def startsPlain (inFlow : Bool) (c next : Char) : Bool :=
  !(isGap c || c ∈ ['-', '?', ':', ',', '[', ']', '\x7b', '\x7d', '#', '&', '*', '!', '|', '>',
      '\'', '"', '%', '@', '\x60']) ||
    (!isGap next && (c = '-' || (!inFlow && (c = '?' || c = ':'))))

/-- A character that starts a plain scalar does not stop it, so the scalar has a first character. -/
theorem not_stopsPlain {inFlow : Bool} {c next : Char} (h : startsPlain inFlow c next) :
    c ≠ '#' ∧ stopsPlain inFlow c next = false := by
  simp only [startsPlain, List.mem_cons, Bool.or_eq_true, Bool.not_eq_true', Bool.and_eq_true,
    decide_eq_true_eq, Bool.or_eq_false_iff, decide_eq_false_iff_not, not_or] at h
  rcases h with h | ⟨hn, rfl | ⟨hf, rfl | rfl⟩⟩
  · simp [stopsPlain, isFlowMark, h]
  · simp [stopsPlain, isFlowMark, isGap, isBlank, endsLine, isBreak, endMark]
  · simp [stopsPlain, isFlowMark, isGap, isBlank, endsLine, isBreak, endMark, hf]
  · simp [stopsPlain, isFlowMark, hn, hf]
    decide

/-- Why no token begins with a character: anchors, aliases and tags are not supported. -/
def unread (c : Char) : Failure :=
  if c = '&' ∨ c = '*' ∨ c = '!' then .unsupported else .malformed

/-- The layout after the scalar that begins at a glyph, and what follows it. -/
def scalarToken (l : Layout) (g : Glyph) (gs : List Glyph) :
    Except Failure (Layout × List Glyph) :=
  let c := g.char
  if (c = '|' || c = '>') && !l.inFlow then do
    let l ← demand { l with keyAllowed := true }.dropCandidate
    let (text, rest) ← demand (block (c = '>') l.indent gs)
    pure (l.scalar text false true, rest)
  else if c = '\'' then do
    let l ← demand (l.saveCandidate g)
    let (text, rest) ← demand (singleQuoted gs)
    pure (l.scalar text false false, rest)
  else if c = '"' then do
    let l ← demand (l.saveCandidate g)
    let (text, rest) ← doubleQuoted gs
    pure (l.scalar text false false, rest)
  else if startsPlain l.inFlow c (peek gs 0) then do
    let s := plain l.inFlow (l.indent + 1) (g :: gs)
    let l ← demand (l.saveCandidate g)
    pure (l.scalar s.text true s.keyAllowed, s.rest)
  else .error (unread c)

/-- What becomes of the layout at a mark of one character, given the character after it; `none` if
there is no mark. -/
def mark? (l : Layout) (g : Glyph) (next : Char) : Option (Option Layout) :=
  match g.char with
  | '[' => some (l.openFlow g .flowSequenceStart)
  | '\x7b' => some (l.openFlow g .flowMappingStart)
  | ']' => some (l.closeFlow .flowSequenceEnd)
  | '\x7d' => some (l.closeFlow .flowMappingEnd)
  | ',' => some l.flowComma
  | '-' => if isGap next then some (l.dash g) else none
  | '?' => if l.inFlow || isGap next then some (l.question g) else none
  | ':' => if l.inFlow || isGap next then some (l.colon g) else none
  | _ => none

/-- The layout after the token that begins at a glyph, and what follows it.  Directives are not
supported, nor are anchors, aliases and tags. -/
def token (l : Layout) (g : Glyph) (gs : List Glyph) : Except Failure (Layout × List Glyph) :=
  if g.column = 0 && g.char = '%' then .error .unsupported
  else if g.column = 0 && startsTriple '-' (g :: gs) then
    demand ((l.marker .documentStart).map (·, gs.drop 2))
  else if g.column = 0 && startsTriple '.' (g :: gs) then
    demand ((l.marker .documentEnd).map (·, gs.drop 2))
  else
    match mark? l g (peek gs 0) with
    | some layout => demand (layout.map (·, gs))
    | none => scalarToken l g gs

theorem length_of_scalarToken {l m : Layout} {g : Glyph} {gs rest : List Glyph}
    (h : scalarToken l g gs = .ok (m, rest)) : rest.length ≤ gs.length := by
  simp only [scalarToken] at h
  repeat' split at h
  · obtain ⟨_, _, h⟩ := bind_eq_ok_iff.1 h
    obtain ⟨⟨_, _⟩, hb, h⟩ := bind_eq_ok_iff.1 h
    obtain ⟨-, rfl⟩ := by simpa using h
    exact length_of_block (demand_eq_ok_iff.1 hb)
  · obtain ⟨_, _, h⟩ := bind_eq_ok_iff.1 h
    obtain ⟨⟨_, _⟩, hq, h⟩ := bind_eq_ok_iff.1 h
    obtain ⟨-, rfl⟩ := by simpa using h
    exact length_of_singleQuoted (demand_eq_ok_iff.1 hq)
  · obtain ⟨_, _, h⟩ := bind_eq_ok_iff.1 h
    obtain ⟨⟨_, _⟩, hq, h⟩ := bind_eq_ok_iff.1 h
    obtain ⟨-, rfl⟩ := by simpa using h
    exact length_of_doubleQuoted hq
  · rename_i hs
    obtain ⟨_, _, h⟩ := bind_eq_ok_iff.1 h
    obtain ⟨-, rfl⟩ := by simpa using h
    exact Nat.le_of_lt_succ (length_plain_lt (not_stopsPlain hs).1 (not_stopsPlain hs).2)
  · simp at h

/-- Every token takes at least its first character, so reading tokens ends. -/
theorem length_of_token {l m : Layout} {g : Glyph} {gs rest : List Glyph}
    (h : token l g gs = .ok (m, rest)) : rest.length ≤ gs.length := by
  grind [token, demand_eq_ok_iff, Option.map_eq_some_iff, → length_of_scalarToken]

/-- The tokens up to a glyph at which reading fails: those before the first possible key that is
still open there, and the failure.  No grammar can tell what the open ones are. -/
def stop (reason : Failure) (gs : List Glyph) (l : Layout) : List Token :=
  let l := ((gs.head?.map l.dropStale).getD none).getD l
  let certain := (l.candidate :: l.suspended).foldl
    (fun count c => (c.map (min count ·.tokensBefore)).getD count) l.count
  l.tokens.reverse.take certain ++ [.failure reason]

/-- The tokens of a document from a place on. -/
def scanFrom (l : Layout) (gs : List Glyph) : List Token :=
  let here := if (skipToToken gs).1 && !l.inFlow then { l with keyAllowed := true } else l
  match _ : (skipToToken gs).2 with
  | [] => stop .malformed gs l
  | g :: rest =>
    match here.dropStale g with
    | none => stop .malformed gs l
    | some here =>
      let here := here.unwind g.column
      if g.char = endMark then
        match (here.unwind (-1)).dropCandidate with
        | none => stop .malformed gs l
        | some l => l.tokens.reverse
      else
        match _ : token here g rest with
        | .error reason => stop reason gs l
        | .ok (l, rest) => scanFrom l rest
termination_by gs.length
decreasing_by
  have := length_skipToToken_le gs
  have := length_of_token ‹_›
  simp_all
  omega

/-- The tokens of a document, past a mark of byte order at its start.  If it cannot be read to its
end the last token is a failure. -/
def scan (source : Text) : List Token :=
  if source.all isPrintable then
    scanFrom {} (place (if source.head? = some byteOrderMark then source.tail else source))
  else [.failure .malformed]

end Criteria.Yaml
