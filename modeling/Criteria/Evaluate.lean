import Criteria.Condition
import Criteria.Tree

/-!
# Evaluate — the truth of a tree for a record

Both subtrees of a node are evaluated before its connective is looked at, the left one first, so an
error anywhere in a tree is an error of the tree.  Numbers order against numbers and texts against
texts, by code point; equality holds only within one of the two.
-/

namespace Criteria

/-- The values of the named attributes. -/
abbrev Record := List (Text × Value)

/-- The value of an attribute, if the record has it. -/
def Record.find? (name : Text) (record : Record) : Option Value :=
  (List.find? (·.1 = name) record).map (·.2)

/-- The three comparators. -/
inductive Comparator
  | greater
  | less
  | equal
  deriving DecidableEq, Repr

namespace Comparator

/-- The comparator that a word writes. -/
def ofText? (s : Text) : Option Comparator :=
  if s = ['>'] then some greater
  else if s = ['<'] then some less
  else if s = ['='] then some equal
  else none

/-- Whether the comparator holds between two things that compare so. -/
def accepts : Comparator → Ordering → Bool
  | greater, .gt => true
  | less, .lt => true
  | equal, .eq => true
  | _, _ => false

end Comparator

/-- The order of texts, by code point. -/
def Text.compare (s t : Text) : Ordering :=
  if s < t then .lt else if t < s then .gt else .eq

namespace Literal

/-- How a value compares with a literal: not at all if their types differ, and with no order if
either is nan. -/
def compareWith? (value : Value) : Literal → Option (Option Ordering)
  | number n => value.number?.map (·.compare? n)
  | text s => value.text?.map fun t => some (t.compare s)

end Literal

namespace Condition

/-- Whether a condition holds for a record. -/
def holds (record : Record) (c : Condition) : Except EvaluationError Bool :=
  match record.find? c.name with
  | none => .error (.missingAttribute c.name c.source)
  | some value =>
    match Comparator.ofText? c.operator with
    | none => .error (.unsupportedOperator c.operator c.source)
    | some comparator =>
      match c.literal.compareWith? value with
      | some order => .ok (order.any comparator.accepts)
      | none =>
        if comparator = .equal then .ok false
        else .error (.incomparable value.kindName c.literal.kindName c.operator c.source)

end Condition

namespace Tree

/-- The truth of a leaf for a record. -/
def evaluateClause (record : Record) (clause : Text) : Except EvaluationFailure Bool := do
  let condition ← Condition.read clause
  (condition.holds record).mapError .error

/-- The truth of a tree for a record. -/
def evaluate (record : Record) : Tree → Except EvaluationFailure Bool
  | operand clause => evaluateClause record clause
  | operator word left right => do
    let l ← left.evaluate record
    let r ← right.evaluate record
    if word = andWord then pure (l && r)
    else if word = orWord then pure (l || r)
    else .error (.error (.unsupportedConnective word))

/-- The outcome of an evaluation that reports its own errors: false, with the error, if it fails
with one. -/
structure Verdict where
  value : Bool
  error : Option EvaluationError
  deriving DecidableEq, Repr

/-- The truth of a tree for a record, an evaluation error being part of the outcome; `none` if a
number has too many digits to be read. -/
def tryEvaluate (record : Record) (tree : Tree) : Option Verdict :=
  match tree.evaluate record with
  | .ok value => some ⟨value, none⟩
  | .error (.error error) => some ⟨false, some error⟩
  | .error .tooManyDigits => none

end Tree

end Criteria
