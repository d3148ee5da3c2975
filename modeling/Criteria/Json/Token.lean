import Criteria.Number.Numeral
import Criteria.Text.Encoding
import Criteria.Value

/-!
# Json/Token — the tokens of a JSON text

Braces, brackets, commas and colons are tokens of their own; a string is read with its escapes, and
a number, a truth value or null as the value it is.  `NaN` and `Infinity` are numbers.  The tokens
end with `bad` where the text has none.
-/

namespace Criteria.Json

/-- A token of a JSON text. -/
inductive Token
  | openObject
  | closeObject
  | openArray
  | closeArray
  | comma
  | colon
  | text (s : Text)
  | scalar (value : Value)
  | bad
  deriving Repr, Inhabited

/-! ## Strings -/

/-- White space between tokens. -/
def isSpace (c : Char) : Bool := c = ' ' || c = '\t' || c = '\n' || c = '\r'

/-- The number that four hexadecimal digits write. -/
def hex4? : Text → Option (Nat × Text)
  | a :: b :: c :: d :: rest => do
    let a ← Text.hexDigit? a
    let b ← Text.hexDigit? b
    let c ← Text.hexDigit? c
    let d ← Text.hexDigit? d
    pure (Text.ofDigits 16 [a, b, c, d], rest)
  | _ => none

/-- The character that a letter after a backslash stands for. -/
def shortEscape? (c : Char) : Option Char :=
  if c = '"' ∨ c = '\\' ∨ c = '/' then some c
  else if c = 'b' then some '\x08'
  else if c = 'f' then some '\x0c'
  else if c = 'n' then some '\n'
  else if c = 'r' then some '\r'
  else if c = 't' then some '\t'
  else none

/-- The character that an escape stands for, read after its backslash.  Characters beyond the basic
plane take two numbers, a surrogate each. -/
def escaped? : Text → Option (Char × Text)
  | [] => none
  | c :: cs =>
    if c = 'u' then
      match hex4? cs with
      | none => none
      | some (n, rest) =>
        if Text.Encoding.isHigh n then
          match rest with
          | '\\' :: 'u' :: rest => do
            let (m, rest) ← hex4? rest
            if Text.Encoding.isLow m then
              pure (Char.ofNat (Text.Encoding.joinSurrogates n m), rest)
            else none
          | _ => none
        else (Text.Encoding.char? n).map (·, rest)
    else (shortEscape? c).map (·, cs)

theorem length_of_hex4? {s rest : Text} {n : Nat} (h : hex4? s = some (n, rest)) :
    rest.length < s.length := by
  unfold hex4? at h
  split at h
  · simp only [Option.bind_eq_bind, Option.bind_eq_some_iff] at h
    obtain ⟨_, _, _, _, _, _, _, _, h⟩ := h
    simp only [Option.pure_def, Option.some.injEq, Prod.mk.injEq] at h
    simp [← h.2]
    omega
  · simp at h

theorem length_of_escaped? {s rest : Text} {c : Char} (h : escaped? s = some (c, rest)) :
    rest.length < s.length := by
  unfold escaped? at h
  split at h
  · simp at h
  · split at h
    · split at h
      · simp at h
      · rename_i h4
        have := length_of_hex4? h4
        split at h
        · split at h
          · simp only [Option.bind_eq_bind, Option.bind_eq_some_iff] at h
            obtain ⟨⟨m, rest'⟩, h4', h⟩ := h
            have := length_of_hex4? h4'
            split at h
            · simp only [Option.pure_def, Option.some.injEq, Prod.mk.injEq] at h
              simp_all
              omega
            · simp at h
          · simp at h
        · obtain ⟨_, _, h⟩ := Option.map_eq_some_iff.1 h
          simp_all
          omega
    · obtain ⟨_, _, h⟩ := Option.map_eq_some_iff.1 h
      simp_all

/-- The string that begins after a quote, and what follows its closing quote. -/
def string? : Text → Option (Text × Text)
  | [] => none
  | c :: cs =>
    if c = '"' then some ([], cs)
    else if c = '\\' then
      match _ : escaped? cs with
      | some (d, rest) => (string? rest).map fun (s, rest) => (d :: s, rest)
      | none => none
    else if c.toNat < 0x20 then none
    else (string? cs).map fun (s, rest) => (c :: s, rest)
termination_by s => s.length
decreasing_by
  · have := length_of_escaped? ‹_›
    simp
    omega
  · simp

/-- A string takes at least its closing quote. -/
theorem length_of_string? {s t rest : Text} (h : string? s = some (t, rest)) :
    rest.length < s.length := by
  fun_induction string? s generalizing t rest with
  | case1 => simp at h
  | case2 => simp_all
  | case3 _ _ _ _ _ ih =>
    obtain ⟨⟨_, _⟩, hs, h⟩ := Option.map_eq_some_iff.1 h
    have := length_of_escaped? ‹_›
    have := ih hs
    simp_all
    omega
  | case4 => simp at h
  | case5 => simp at h
  | case6 _ _ _ _ _ ih =>
    obtain ⟨⟨_, _⟩, hs, h⟩ := Option.map_eq_some_iff.1 h
    have := ih hs
    simp_all
    omega

/-! ## Numbers and words -/

/-- The digits before a point: a zero alone, or digits that do not begin with one. -/
def whole (s : Text) : List Nat × Text :=
  match s with
  | '0' :: rest => ([0], rest)
  | s => Text.spanDigits Text.asciiDigit? s

/-- A point and the digits after it, if there are any. -/
def fraction (s : Text) : Option (List Nat) × Text :=
  match s with
  | '.' :: rest =>
    match Text.spanDigits Text.asciiDigit? rest with
    | ([], _) => (none, s)
    | (ds, rest) => (some ds, rest)
  | _ => (none, s)

/-- An exponent, if its digits are there. -/
def exponent (s : Text) : Option Int × Text :=
  match s with
  | c :: rest =>
    if c = 'e' ∨ c = 'E' then
      let (negative, rest) := Numeral.takeSign rest
      match Text.spanDigits Text.asciiDigit? rest with
      | ([], _) => (none, s)
      | (ds, rest) => (some (signed negative (Text.ofDigits 10 ds)), rest)
    else (none, s)
  | [] => (none, s)

/-- The number at the head of a text, its sign being read. -/
def unsigned? (negative : Bool) (s : Text) : Option (Value × Text) :=
  match whole s with
  | ([], _) => none
  | (whole, rest) =>
    let (fraction, rest) := fraction rest
    let (exponent, rest) := exponent rest
    let n : Numeral := { negative, whole, fraction, exponent }
    if n.isWhole then
      if whole.length ≤ Text.maxDigits then some (.int n.toInt, rest) else none
    else some (.float n.toBinary64, rest)

/-- The number at the head of a text. -/
def number? : Text → Option (Value × Text)
  | '-' :: s => unsigned? true s
  | s => unsigned? false s

/-- The words that are values. -/
def words : List (Text × Value) :=
  [("null".toList, .null), ("true".toList, .bool true), ("false".toList, .bool false),
    ("NaN".toList, .float .nan), ("Infinity".toList, .float (.infinite false)),
    ("-Infinity".toList, .float (.infinite true))]

/-- The word or number at the head of a text. -/
def scalar? (s : Text) : Option (Value × Text) :=
  match words.findSome? fun (word, value) => (Text.after? word s).map (value, ·) with
  | some found => some found
  | none => number? s

theorem length_whole_lt {s rest : Text} {ds : List Nat} (h : whole s = (ds, rest))
    (hd : ds ≠ []) : rest.length < s.length := by
  unfold whole at h
  split at h
  · simp_all
  · have hl := Text.length_spanDigits Text.asciiDigit? s
    have := List.length_pos_iff.2 hd
    rw [h] at hl
    simp only at hl
    omega

theorem length_fraction_le (s : Text) : (fraction s).2.length ≤ s.length := by
  unfold fraction
  split
  · rename_i rest
    have := Text.length_spanDigits Text.asciiDigit? rest
    split <;> simp_all
    omega
  · simp

theorem length_exponent_le (s : Text) : (exponent s).2.length ≤ s.length := by
  unfold exponent
  split
  · rename_i c rest
    have hs : (Numeral.takeSign rest).2.length ≤ rest.length := by
      unfold Numeral.takeSign
      split <;> simp
    have := Text.length_spanDigits Text.asciiDigit? (Numeral.takeSign rest).2
    split
    · dsimp only
      split <;> simp_all
      omega
    · simp
  · simp

theorem length_of_unsigned? {negative : Bool} {s rest : Text} {value : Value}
    (h : unsigned? negative s = some (value, rest)) : rest.length < s.length := by
  unfold unsigned? at h
  split at h
  · simp at h
  · rename_i ds t hne hw
    have := length_whole_lt hw (by simpa using hne)
    have := length_fraction_le t
    have := length_exponent_le (fraction t).2
    dsimp only at h
    split at h
    · split at h
      · simp_all
        omega
      · simp at h
    · simp_all
      omega

theorem length_of_number? {s rest : Text} {value : Value} (h : number? s = some (value, rest)) :
    rest.length < s.length := by
  unfold number? at h
  split at h
  · exact Nat.lt_succ_of_lt (length_of_unsigned? h)
  · exact length_of_unsigned? h

theorem length_of_scalar? {s rest : Text} {value : Value} (h : scalar? s = some (value, rest)) :
    rest.length < s.length := by
  unfold scalar? at h
  split at h
  · rename_i found hf
    obtain rfl := Option.some.inj h
    obtain ⟨⟨word, v⟩, hm, hw⟩ := List.exists_of_findSome?_eq_some hf
    obtain ⟨rest', ha, he⟩ := Option.map_eq_some_iff.1 hw
    obtain rfl := Text.after?_eq_some_iff.1 ha
    have : 0 < word.length := by
      simp only [words, List.mem_cons, Prod.mk.injEq, List.not_mem_nil, or_false] at hm
      rcases hm with h | h | h | h | h | h <;> simp [h.1]
    simp_all
  · exact length_of_number? h

/-- The mark that a character is. -/
def mark? (c : Char) : Option Token :=
  if c = '\x7b' then some .openObject
  else if c = '\x7d' then some .closeObject
  else if c = '[' then some .openArray
  else if c = ']' then some .closeArray
  else if c = ',' then some .comma
  else if c = ':' then some .colon
  else none

/-! ## Scanning -/

/-- The tokens of a text. -/
def scan : Text → List Token
  | [] => []
  | c :: cs =>
    if isSpace c then scan cs
    else
      match mark? c with
      | some token => token :: scan cs
      | none =>
        if c = '"' then
          match _ : string? cs with
          | some (s, rest) => .text s :: scan rest
          | none => [.bad]
        else
          match _ : scalar? (c :: cs) with
          | some (value, rest) => .scalar value :: scan rest
          | none => [.bad]
termination_by s => s.length
decreasing_by
  · simp
  · simp
  · have := length_of_string? ‹_›
    simp
    omega
  · exact length_of_scalar? ‹_›

end Criteria.Json
