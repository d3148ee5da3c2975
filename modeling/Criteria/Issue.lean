import Criteria.Assoc
import Criteria.Text.Encoding
import Criteria.Value.Place

/-!
# Issue — what is wrong where in a value

Values from outside are checked part by part, and every fault is reported with the path that leads
to it.  The checks here are of one value, and know nothing of where it stands: `Checked.within` puts
the step to a part before what is wrong with that part.
-/

namespace Criteria

/-- A step from a value to one of its parts, or to the key of a field. -/
inductive Step
  | key (key : Value)
  | index (i : Nat)
  | keyItself
  deriving Repr, Inhabited

/-- The step to a named field. -/
def Step.field (name : Text) : Step := .key (.text name)

/-- How a step is shown. -/
def Step.place : Step → Place
  | key k => k.place
  | index i => .index i
  | keyItself => .name "[key]".toList

/-- How the children of a stored node disagree with its kind. -/
inductive ShapeFault
  | unknownConnective (word : Text)
  | missingChild
  | unexpectedChild
  deriving DecidableEq, Repr

namespace ShapeFault

/-- The message for a stored node of the wrong shape. -/
def message : ShapeFault → Text
  | unknownConnective word =>
    "operator value must be one of AND, OR, got '".toList ++ word ++ ['\'']
  | missingChild => "operator node requires both left and right".toList
  | unexpectedChild => "operand node must not have children".toList

end ShapeFault

/-- What can be wrong with a part of a value. -/
inductive Fault
  | missing
  | notText
  | notUnicode
  | notKind
  | notObject
  | notList
  | notRule
  | unexpected
  | badKey
  | shape (fault : ShapeFault)
  deriving DecidableEq, Repr

/-- A fault and where it is. -/
structure Issue where
  path : List Step
  fault : Fault
  deriving Repr

/-- An issue of a part as one of the whole. -/
def Issue.within (step : Step) (issue : Issue) : Issue :=
  { issue with path := step :: issue.path }

/-- A checked value, or everything that is wrong with it. -/
abbrev Checked (α : Type) := Except (List Issue) α

namespace Checked

variable {α : Type}

/-- One thing is wrong, with the value as a whole. -/
def fault (fault : Fault) : Checked α := .error [⟨[], fault⟩]

/-- The check of a part as one of the whole. -/
def within (step : Step) (check : Checked α) : Checked α :=
  check.mapError (List.map (Issue.within step))

/-- Everything that is wrong. -/
def issues : Checked α → List Issue
  | .ok _ => []
  | .error issues => issues

/-- The values of a list of checks, or everything that is wrong in any. -/
def all : List (Checked α) → Checked (List α)
  | [] => .ok []
  | check :: checks =>
    match check, all checks with
    | .ok a, .ok as => .ok (a :: as)
    | check, rest => .error (check.issues ++ rest.issues)

end Checked

namespace Value

/-! ## Values of one type -/

/-- A text, or bytes that are one in UTF-8. -/
def checkText : Value → Checked Text
  | text s => .ok s
  | bytes bs =>
    match Text.Encoding.decode .utf8 bs with
    | some s => .ok s
    | none => Checked.fault .notUnicode
  | _ => Checked.fault .notText

/-- One of the given texts. -/
def checkWord (words : List Text) : Value → Checked Text
  | text s => if s ∈ words then .ok s else Checked.fault .notKind
  | _ => Checked.fault .notKind

/-- A field of an object, whose key is a text or bytes that are one. -/
def checkEntry (field : Value × Value) : Checked (Text × Value) :=
  (((·, field.2) <$> field.1.checkText).within .keyItself).within (.key field.1)

/-- An object as entries under texts.  Of two keys that are one text the last value counts. -/
def checkEntries : Value → Checked (List (Text × Value))
  | object fields => Assoc.ofList <$> Checked.all (fields.map checkEntry)
  | _ => Checked.fault .notObject

/-- The items of a list or a tuple. -/
def checkItems : Value → Checked (List Value)
  | list items | tuple items => .ok items
  | _ => Checked.fault .notList

end Value

end Criteria
