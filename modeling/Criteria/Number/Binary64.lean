import Criteria.Text.Digit

/-!
# Number/Binary64 — binary floating point in 64 bits

Every finite number of the format is a whole multiple of the smallest positive one, `2 ^ -1074`, the
*quantum*; so a finite number is a sign and a count of quanta, and comparing or rounding it is
arithmetic on whole numbers.  `ofDecimal` rounds a decimal to the nearest number of the format.
Powers are `Nat.pow` itself: which instance `^` stands for depends on what is imported.
-/

namespace Criteria

/-- The integer of this sign and magnitude. -/
def signed (negative : Bool) (n : Nat) : Int := if negative then -(n : Int) else n

/-- A binary64 number; `finite` counts quanta of `2 ^ -1074`. -/
inductive Binary64
  | nan
  | infinite (negative : Bool)
  | finite (negative : Bool) (quanta : Nat)
  deriving DecidableEq, Repr, Inhabited

namespace Binary64

/-- How many quanta make one. -/
def unit : Nat := Nat.pow 2 1074

/-- The first count of quanta beyond the largest finite number. -/
def overflow : Nat := Nat.pow 2 2098

/-- The whole quotient nearest to `num / den`, a half going to the even neighbour. -/
def roundDiv (num den : Nat) : Nat :=
  let q := num / den
  let r := num % den
  if 2 * r < den ∨ (2 * r = den ∧ q % 2 = 0) then q else q + 1

/-- The count of quanta with at most 53 significant bits that is nearest to `num / den` ones. -/
def roundRatio (num den : Nat) : Nat :=
  let scaled := num * unit
  let step := Nat.pow 2 ((scaled / den).log2 - 52)
  roundDiv scaled (den * step) * step

/-- The product of two counts of quanta that is nearest to the exact one. -/
def mulQuanta (a b : Nat) : Nat := roundRatio (a * b) (unit * unit)

/-- The sum of two counts of quanta that is nearest to the exact one. -/
def addQuanta (a b : Nat) : Nat := roundRatio (a + b) unit

/-- The number of this sign and magnitude, infinite if the format has no room for it. -/
def ofQuanta (negative : Bool) (quanta : Nat) : Binary64 :=
  if quanta < overflow then finite negative quanta else infinite negative

/-- The number nearest to `digits * 10 ^ exponent`.  The two outer cases are decided by the exponent
alone: beyond them the exact power of ten is of no use. -/
def ofDecimal (negative : Bool) (digits : Nat) (exponent : Int) : Binary64 :=
  if digits = 0 then finite negative 0
  else if exponent > 400 then infinite negative
  else if exponent + digits.log2 < -400 then finite negative 0
  else if 0 ≤ exponent then ofQuanta negative (roundRatio (digits * Nat.pow 10 exponent.toNat) 1)
  else ofQuanta negative (roundRatio digits (Nat.pow 10 (-exponent).toNat))

/-- The interchange bits: sign, biased exponent, fraction.  All nan are the quiet one. -/
def toBits : Binary64 → Nat
  | nan => 0x7FF8000000000000
  | infinite negative => (if negative then 0x8000000000000000 else 0) + 0x7FF0000000000000
  | finite negative quanta =>
    let shift := quanta.log2 - 52
    (if negative then 0x8000000000000000 else 0) + shift * 0x10000000000000 +
      quanta / Nat.pow 2 shift

end Binary64

end Criteria
