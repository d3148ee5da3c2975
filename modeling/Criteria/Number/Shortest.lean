import Criteria.Number.Binary64

/-!
# Number/Shortest — the shortest decimal of a binary64 number

The multiples of `10 ^ e` are a grid, and every grid holds the ones with a larger exponent.  So the
shortest decimal that rounds to a number lies on the first grid, from the largest exponent down,
that has such a decimal; and if one has, it has one next to the number.
-/

namespace Criteria.Binary64

/-! ## Grids -/

/-- A count of quanta in steps of `10 ^ exponent`, as a fraction. -/
def steps (quanta : Nat) (exponent : Int) : Nat × Nat :=
  if 0 ≤ exponent then (quanta, unit * Nat.pow 10 exponent.toNat)
  else (quanta * Nat.pow 10 (-exponent).toNat, unit)

/-- The numbers of whole steps around a count of quanta, the nearer one first. -/
def neighbours (quanta : Nat) (exponent : Int) : List Nat :=
  let (num, den) := steps quanta exponent
  let below := num / den
  let nearest := roundDiv num den
  [nearest, if nearest = below then below + 1 else below]

/-- The decimal on a grid that rounds to a count of quanta. -/
def onGrid? (quanta : Nat) (exponent : Int) : Option (Nat × Int) :=
  ((neighbours quanta exponent).find? fun digits =>
    ofDecimal false digits exponent = finite false quanta).map (·, exponent)

/-- The exponents of the grids that matter, from that of the largest number down to that of the
quantum. -/
def gridExponents : List Int := (List.range 633).map fun i : Nat => 308 - (i : Int)

/-- The digits and the exponent of the shortest decimal that rounds to a count of quanta. -/
def shortest? (quanta : Nat) : Option (Nat × Int) := gridExponents.findSome? (onGrid? quanta)

/-! ## Text -/

/-- Digits with the point `point` places after the start of them, before or behind them if there
are not so many. -/
def plainText (digits : Text) (point : Int) : Text :=
  let whole := digits.take point.toNat ++ List.replicate (point.toNat - digits.length) '0'
  let fraction := List.replicate (-point).toNat '0' ++ digits.drop point.toNat
  (if whole = [] then ['0'] else whole) ++ '.' :: (if fraction = [] then ['0'] else fraction)

/-- Digits with the point behind the first one, and an exponent of two digits or more. -/
def scientificText (digits : Text) (exponent : Int) : Text :=
  let fraction := digits.drop 1
  let size := Text.ofInt exponent.natAbs
  digits.take 1 ++ (if fraction = [] then [] else '.' :: fraction) ++
    ['e', if exponent < 0 then '-' else '+'] ++ List.replicate (2 - size.length) '0' ++ size

/-- The text of a finite magnitude, with an exponent if it is very large or very small. -/
def magnitudeText (quanta : Nat) : Text :=
  match shortest? quanta with
  | some (digits + 1, exponent) =>
    let shown := Text.ofInt (digits + 1)
    let point := shown.length + exponent
    if -4 < point ∧ point ≤ 16 then plainText shown point else scientificText shown (point - 1)
  | _ => "0.0".toList

/-- A minus, if the number has one. -/
def signText (negative : Bool) : Text := if negative then ['-'] else []

/-- The shortest text that stands for a number. -/
def toText : Binary64 → Text
  | nan => "nan".toList
  | infinite negative => signText negative ++ "inf".toList
  | finite negative quanta => signText negative ++ magnitudeText quanta

end Criteria.Binary64
