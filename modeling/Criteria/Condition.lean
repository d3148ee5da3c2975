import Criteria.Number.Numeral
import Criteria.Value

/-!
# Condition — an attribute, a comparator and a literal

A condition is three words of a leaf's text.  Its literal is a number if the word is a decimal
numeral, otherwise the word itself without a quote at either end.
-/

namespace Criteria

/-- Why a tree has no truth value for a record. -/
inductive EvaluationError
  | malformed (condition : Text)
  | missingAttribute (name condition : Text)
  | unsupportedOperator (operator condition : Text)
  | incomparable (left right operator condition : Text)
  | unsupportedConnective (word : Text)
  deriving DecidableEq, Repr

/-- How evaluation can fail: with an error of its own, or on a whole number with more digits than
are read. -/
inductive EvaluationFailure
  | error (error : EvaluationError)
  | tooManyDigits
  deriving DecidableEq, Repr

namespace EvaluationError

/-- The message for a condition that is not three words. -/
def malformedMessage (condition : Text) : Text :=
  "Malformed condition '".toList ++ condition ++
    "': expected '<attribute> <operator> <literal>'".toList

/-- The message for an attribute that a record lacks. -/
def missingMessage (name : Text) : Text :=
  "Missing attribute '".toList ++ name ++ "' in input data".toList

/-- The message for a comparator that is none of the three. -/
def unsupportedMessage (operator : Text) : Text :=
  "Unsupported operator '".toList ++ operator ++ ['\'']

/-- The message for an evaluation that failed. -/
def message : EvaluationError → Text
  | malformed condition => malformedMessage condition
  | missingAttribute name _ => missingMessage name
  | unsupportedOperator operator _ => unsupportedMessage operator
  | incomparable left right operator _ =>
    "Cannot compare ".toList ++ left ++ " and ".toList ++ right ++ " with ".toList ++ operator
  | unsupportedConnective word => "Unsupported boolean operator '".toList ++ word ++ ['\'']

end EvaluationError

/-! ## Literals -/

/-- What a condition compares with. -/
inductive Literal
  | number (n : Number)
  | text (s : Text)
  deriving DecidableEq, Repr

namespace Literal

/-- A text without one line feed at its end. -/
def dropFinalNewline (raw : Text) : Text :=
  if raw.getLast? = some '\n' then raw.dropLast else raw

/-- A text without one quote at its start and one at its end. -/
def unquote (raw : Text) : Text :=
  let s := if raw.head? = some '\'' then raw.tail else raw
  if s.getLast? = some '\'' then s.dropLast else s

/-- The literal that a word writes. -/
def read (raw : Text) : Except EvaluationFailure Literal :=
  match Numeral.read? (dropFinalNewline raw) with
  | none => .ok (text (unquote raw))
  | some n =>
    if n.isWhole then
      if n.whole.length ≤ Text.maxDigits then .ok (number (.int n.toInt))
      else .error .tooManyDigits
    else .ok (number (.float n.toBinary64))

/-- The type of a literal, as an error about a condition calls it. -/
def kindName : Literal → Text
  | number _ => "number".toList
  | text _ => "string".toList

end Literal

/-! ## Conditions -/

/-- The text of a leaf taken apart: the name of an attribute, a comparator and a literal. -/
structure Condition where
  name : Text
  operator : Text
  literal : Literal
  source : Text
  deriving DecidableEq, Repr

/-- The condition that a leaf's text writes. -/
def Condition.read (source : Text) : Except EvaluationFailure Condition :=
  match Text.words source with
  | [name, operator, raw] => do
    let literal ← Literal.read raw
    pure { name, operator, literal, source }
  | _ => .error (.error (.malformed source))

end Criteria
