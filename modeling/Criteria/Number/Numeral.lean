import Criteria.Number

/-!
# Number/Numeral — decimal numerals

A numeral is a sign, digits with or without a point, and an optional exponent.  `Numeral.read?`
reads a whole text as one, with the digits of any script; `toBinary64` rounds its value, and `toInt`
is its exact value when it has neither point nor exponent.
-/

namespace Criteria

/-- A decimal numeral taken apart; `fraction` is `none` without a point, `exponent` without an
exponent part. -/
structure Numeral where
  negative : Bool
  whole : List Nat
  fraction : Option (List Nat)
  exponent : Option Int
  deriving DecidableEq, Repr

namespace Numeral

/-- Whether the text starts with a minus, and what follows its sign. -/
def takeSign : Text → Bool × Text
  | '-' :: cs => (true, cs)
  | '+' :: cs => (false, cs)
  | cs => (false, cs)

/-- The part of a numeral after its digits: empty, or an exponent. -/
def readExponent? (digit? : Char → Option Nat) : Text → Option (Option Int)
  | [] => some none
  | c :: cs =>
    if c = 'e' ∨ c = 'E' then
      let (negative, cs) := takeSign cs
      match Text.spanDigits digit? cs with
      | (d :: ds, []) => some (some (signed negative (Text.ofDigits 10 (d :: ds))))
      | _ => none
    else none

/-- The numeral that a whole text writes with digits of the given kind, if it writes one. -/
def readWith? (digit? : Char → Option Nat) (s : Text) : Option Numeral := do
  let (negative, s) := takeSign s
  let (whole, s) := Text.spanDigits digit? s
  let (fraction, s) :=
    match s with
    | '.' :: s => let (ds, s) := Text.spanDigits digit? s; (some ds, s)
    | s => (none, s)
  if whole = [] ∧ fraction.getD [] = [] then none
  else
    let exponent ← readExponent? digit? s
    pure { negative, whole, fraction, exponent }

/-- The numeral that a whole text writes, with decimal digits of any script. -/
def read? (s : Text) : Option Numeral := readWith? Text.digit? s

/-- Neither point nor exponent. -/
def isWhole (n : Numeral) : Bool := n.fraction.isNone && n.exponent.isNone

/-- The value of the digits alone, as a whole number. -/
def toInt (n : Numeral) : Int := signed n.negative (Text.ofDigits 10 n.whole)

/-- The binary64 number nearest to the value. -/
def toBinary64 (n : Numeral) : Binary64 :=
  let fraction := n.fraction.getD []
  Binary64.ofDecimal n.negative (Text.ofDigits 10 (n.whole ++ fraction))
    (n.exponent.getD 0 - fraction.length)

end Numeral

end Criteria
