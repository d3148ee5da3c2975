import Criteria.Number.Numeral
import Criteria.Value

/-!
# Value/Integer — the integer a value stands for

A truth value stands for one or zero, a float for its whole part, and a text or bytes for the
numeral it writes: blanks around it, a sign, and digits with single underscores between them.
-/

namespace Criteria

/-- Why a value stands for no integer. -/
inductive IntegerError
  | malformed
  | infinite
  | wrongType
  deriving DecidableEq, Repr

/-- White space around a numeral: the separators of the control range are not part of it. -/
def Text.isPadding (c : Char) : Bool :=
  isBlank c && !(0x1C ≤ c.toNat && c.toNat ≤ 0x1F)

namespace Value

/-- Digit values written with single underscores between digits. -/
def readGrouped? (digit? : Char → Option Nat) : Text → Option (List Nat)
  | [] => none
  | c :: cs => do
    let d ← digit? c
    match cs with
    | [] => pure [d]
    | '_' :: rest => pure (d :: (← readGrouped? digit? rest))
    | rest => pure (d :: (← readGrouped? digit? rest))

/-- The integer that a text writes. -/
def readInteger (digit? : Char → Option Nat) (s : Text) : Except IntegerError Int :=
  let (negative, s) := Numeral.takeSign (Text.trim Text.isPadding s)
  match readGrouped? digit? s with
  | none => .error .malformed
  | some digits =>
    if digits.length ≤ Text.maxDigits then
      .ok (signed negative (Text.ofDigits 10 digits))
    else .error .malformed

/-- The integer that a value stands for. -/
def toInt : Value → Except IntegerError Int
  | bool b => .ok (if b then 1 else 0)
  | int n => .ok n
  | float .nan => .error .malformed
  | float (.infinite _) => .error .infinite
  | float (.finite negative quanta) => .ok (signed negative (quanta / Binary64.unit))
  | text s => readInteger Text.digit? s
  | bytes bs =>
    if bs.all (· < 0x80) then
      readInteger Text.asciiDigit? (bs.map fun b => Char.ofNat b.toNat)
    else .error .malformed
  | _ => .error .wrongType

end Value

end Criteria
