import Criteria.Text.Digit
import Criteria.Text.Encoding
import Criteria.Yaml.Failure
import Criteria.Yaml.Glyph

/-!
# Yaml/Quoted — scalars in quotes

Between single quotes only a doubled quote is special; between double quotes a backslash escapes.
In both, a gap with line breaks is folded, and a marker of documents must not stand at the start of
a line.
-/

namespace Criteria.Yaml

open Outcome

/-- The line breaks among the blanks and breaks at the head, and what follows. -/
def quotedBreaks (gs : List Glyph) : Option (Text × List Glyph) :=
  if atMarker gs then none
  else
    match _ : takeBreak? (gs.dropWhile (isBlank ·.char)) with
    | none => some ([], gs.dropWhile (isBlank ·.char))
    | some (s, rest) => (quotedBreaks rest).map fun (others, rest) => (s ++ others, rest)
termination_by gs.length
decreasing_by
  have := length_of_takeBreak? ‹_›
  have := length_dropWhile_le (isBlank ·.char) gs
  omega

theorem length_of_quotedBreaks {gs rest : List Glyph} {s : Text}
    (h : quotedBreaks gs = some (s, rest)) : rest.length ≤ gs.length := by
  fun_induction quotedBreaks gs generalizing s rest with
  | case1 => simp at h
  | case2 =>
    obtain ⟨-, rfl⟩ := by simpa using h
    exact length_dropWhile_le _ _
  | case3 gs _ _ _ _ ih =>
    obtain ⟨⟨_, _⟩, hb, h⟩ := Option.map_eq_some_iff.1 h
    have := ih hb
    have := length_of_takeBreak? ‹_›
    have := length_dropWhile_le (isBlank ·.char) gs
    obtain ⟨-, rfl⟩ := by simpa using h
    omega

/-- The gap at the head, folded, and what follows. -/
def quotedGap (gs : List Glyph) : Option (Text × List Glyph) :=
  let rest := gs.dropWhile (isBlank ·.char)
  if peek rest 0 = endMark then none
  else
    match takeBreak? rest with
    | none => some (chars (gs.takeWhile (isBlank ·.char)), rest)
    | some (s, rest) => (quotedBreaks rest).map fun (others, rest) => (foldBreak s others, rest)

theorem length_of_quotedGap {g : Glyph} {gs rest : List Glyph} {s : Text}
    (hg : isGap g.char) (h : quotedGap (g :: gs) = some (s, rest)) :
    rest.length < (g :: gs).length := by
  have hle := length_dropWhile_le (isBlank ·.char) (g :: gs)
  unfold quotedGap at h
  dsimp only at h
  split at h
  · simp at h
  · rename_i hend
    split at h
    · rename_i hb
      obtain ⟨-, rfl⟩ := by simpa using h
      by_cases hblank : isBlank g.char
      · have := length_dropWhile_le (isBlank ·.char) gs
        simp [List.dropWhile, hblank]
        omega
      · simp [List.dropWhile, hblank, peek] at hend
        simp [List.dropWhile, hblank, takeBreak?] at hb
        simp [isGap, endsLine, hblank, hend] at hg
        grind
    · rename_i hb
      obtain ⟨⟨_, _⟩, hq, h⟩ := Option.map_eq_some_iff.1 h
      have := length_of_takeBreak? hb
      have := length_of_quotedBreaks hq
      obtain ⟨-, rfl⟩ := by simpa using h
      omega

/-- The scalar that begins after a single quote, and what follows its closing quote. -/
def singleQuoted : List Glyph → Option (Text × List Glyph)
  | [] => none
  | g :: gs =>
    if g.char = '\'' then
      match gs with
      | h :: rest =>
        if h.char = '\'' then (singleQuoted rest).map fun (s, rest) => ('\'' :: s, rest)
        else some ([], h :: rest)
      | [] => some ([], [])
    else if hg : isGap g.char then
      match hq : quotedGap (g :: gs) with
      | none => none
      | some (gap, rest) =>
        have := length_of_quotedGap hg hq
        (singleQuoted rest).map fun (s, rest) => (gap ++ s, rest)
    else (singleQuoted gs).map fun (s, rest) => (g.char :: s, rest)
termination_by gs => gs.length
decreasing_by
  all_goals
    simp only [List.length_cons] at *
    omega

theorem length_of_singleQuoted {gs rest : List Glyph} {s : Text}
    (h : singleQuoted gs = some (s, rest)) : rest.length ≤ gs.length := by
  fun_induction singleQuoted gs generalizing s rest <;> grind [Option.map_eq_some_iff]

/-- The character that a letter after a backslash stands for. -/
def shortEscape? (c : Char) : Option Char :=
  [('0', '\x00'), ('a', '\x07'), ('b', '\x08'), ('t', '\t'), ('\t', '\t'), ('n', '\n'),
    ('v', '\x0b'), ('f', '\x0c'), ('r', '\r'), ('e', '\x1b'), (' ', ' '), ('"', '"'), ('\\', '\\'),
    ('/', '/'), ('N', '\x85'), ('_', '\xa0'), ('L', '\u2028'), ('P', '\u2029')].lookup c

/-- How many hexadecimal digits follow a letter after a backslash. -/
def escapeWidth? (c : Char) : Option Nat :=
  if c = 'x' then some 2 else if c = 'u' then some 4 else if c = 'U' then some 8 else none

/-- The character with a code; codes have up to 31 bits. -/
def ofCode (n : Nat) : Except Failure Char :=
  match Text.Encoding.char? n with
  | some c => .ok c
  | none => .error (if n < 0x80000000 then .malformed else .tooLarge)

/-- The character that hexadecimal digits stand for, and what follows. -/
def codeEscape (width : Nat) (gs : List Glyph) : Except Failure (Text × List Glyph) := do
  let digits ← demand (((chars gs).take width).mapM Text.hexDigit?)
  if digits.length = width then
    let c ← ofCode (Text.ofDigits 16 digits)
    pure ([c], gs.drop width)
  else .error .malformed

/-- What an escape stands for, read after its backslash, and what follows.  An escaped line break
stands for nothing, and so do the blanks after it. -/
def escape : List Glyph → Except Failure (Text × List Glyph)
  | [] => .error .malformed
  | g :: gs =>
    match shortEscape? g.char with
    | some c => .ok ([c], gs)
    | none =>
      match escapeWidth? g.char with
      | some width => codeEscape width gs
      | none => demand ((takeBreak? (g :: gs)).bind fun (_, rest) => quotedBreaks rest)

theorem length_of_codeEscape {width : Nat} {gs rest : List Glyph} {s : Text}
    (h : codeEscape width gs = .ok (s, rest)) : rest.length ≤ gs.length := by
  obtain ⟨_, _, h⟩ := bind_eq_ok_iff.1 h
  split at h
  · obtain ⟨_, _, h⟩ := bind_eq_ok_iff.1 h
    obtain ⟨-, rfl⟩ := by simpa using h
    simp
  · simp at h

theorem length_of_escape {gs rest : List Glyph} {s : Text} (h : escape gs = .ok (s, rest)) :
    rest.length < gs.length := by
  cases gs with
  | nil => simp [escape] at h
  | cons g gs =>
    simp only [escape] at h
    split at h
    · simp_all
    · split at h
      · exact Nat.lt_succ_of_le (length_of_codeEscape h)
      · obtain ⟨⟨_, _⟩, hb, hq⟩ := Option.bind_eq_some_iff.1 (demand_eq_ok_iff.1 h)
        have := length_of_takeBreak? hb
        have : rest.length ≤ _ := length_of_quotedBreaks hq
        dsimp only at this
        omega

/-- The scalar that begins after a double quote, and what follows its closing quote. -/
def doubleQuoted : List Glyph → Except Failure (Text × List Glyph)
  | [] => .error .malformed
  | g :: gs =>
    if g.char = '"' then .ok ([], gs)
    else if g.char = '\\' then
      match he : escape gs with
      | .error failure => .error failure
      | .ok (e, rest) =>
        have := length_of_escape he
        (fun (s, rest) => (e ++ s, rest)) <$> doubleQuoted rest
    else if hg : isGap g.char then
      match hq : quotedGap (g :: gs) with
      | none => .error .malformed
      | some (gap, rest) =>
        have := length_of_quotedGap hg hq
        (fun (s, rest) => (gap ++ s, rest)) <$> doubleQuoted rest
    else (fun (s, rest) => (g.char :: s, rest)) <$> doubleQuoted gs
termination_by gs => gs.length
decreasing_by
  all_goals
    simp only [List.length_cons] at *
    omega

theorem length_of_doubleQuoted {gs rest : List Glyph} {s : Text}
    (h : doubleQuoted gs = .ok (s, rest)) : rest.length ≤ gs.length := by
  fun_induction doubleQuoted gs generalizing s rest <;> grind [map_eq_ok_iff]

end Criteria.Yaml
