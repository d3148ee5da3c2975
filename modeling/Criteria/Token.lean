import Criteria.Text

/-!
# Token — the words and marks of a rule

`Token.scan` reads a rule from left to right: a run of word characters, a quoted literal, a
comparator or a parenthesis is a token, and any other character is dropped.  A quote opens a literal
only if a later quote closes it and at least one character stands between the two.
-/

namespace Criteria

/-- What a token is to the grammar of rules. -/
inductive Token.Kind
  | word
  | quoted
  | comparator
  | and
  | or
  | opening
  | closing
  deriving DecidableEq, Repr

/-- A slice of a rule, with the position of its first character. -/
structure Token where
  kind : Token.Kind
  value : Text
  position : Nat
  deriving DecidableEq, Repr

/-- The keyword that joins two conditions which must both hold. -/
def andWord : Text := ['A', 'N', 'D']

/-- The keyword that joins two conditions of which one must hold. -/
def orWord : Text := ['O', 'R']

/-- Whether a text is one of the two keywords. -/
def isConnective (s : Text) : Bool := s = andWord || s = orWord

namespace Token

/-! ## Characters -/

/-- ASCII letters, digits and the underscore. -/
def isWordChar (c : Char) : Bool := c.isAlphanum || c = '_'

/-- The character that opens and closes a quoted literal. -/
def isQuote (c : Char) : Bool := c = '\''

/-- The kind of a token that is one character long. -/
def markKind? (c : Char) : Option Kind :=
  if c = '>' || c = '<' || c = '=' then some .comparator
  else if c = '(' then some .opening
  else if c = ')' then some .closing
  else none

/-- A run of word characters is a keyword only as a whole. -/
def wordKind (w : Text) : Kind :=
  if w = andWord then .and else if w = orWord then .or else .word

/-! ## Scanning -/

/-- The tokens of a text whose first character stands at `position`. -/
def scanFrom (position : Nat) : Text → List Token
  | [] => []
  | c :: cs =>
    if isWordChar c then
      let w := c :: cs.takeWhile isWordChar
      ⟨wordKind w, w, position⟩ :: scanFrom (position + w.length) (cs.dropWhile isWordChar)
    else if isQuote c then
      let body := cs.takeWhile (!isQuote ·)
      match h : cs.dropWhile (!isQuote ·), body with
      | close :: rest, _ :: _ =>
        ⟨.quoted, c :: body ++ [close], position⟩ :: scanFrom (position + body.length + 2) rest
      | _, _ => scanFrom (position + 1) cs
    else
      match markKind? c with
      | some kind => ⟨kind, [c], position⟩ :: scanFrom (position + 1) cs
      | none => scanFrom (position + 1) cs
termination_by s => s.length
decreasing_by
  · exact Nat.lt_succ_of_le (Text.length_dropWhile_le _ cs)
  · have := Text.length_dropWhile_le (!isQuote ·) cs
    simp only [h, List.length_cons] at this ⊢
    omega
  all_goals simp

/-- The tokens of a rule. -/
def scan (source : Text) : List Token := scanFrom 0 source

end Token

end Criteria
