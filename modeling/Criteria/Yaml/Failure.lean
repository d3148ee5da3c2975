import Criteria.Outcome

/-!
# Yaml/Failure — why a document has no value

Nearly every fault makes a document malformed.  A number may also be too large for the place where
it stands: a character code of more than 31 bits, or a count by sixties whose unit is beyond the
floats.  What the reader does not support is told apart from what is malformed: directives, anchors,
aliases and tags, which give a document a meaning that the reader here does not know.
-/

namespace Criteria.Yaml

/-- Why a document has no value. -/
inductive Failure
  | malformed
  | unsupported
  | tooLarge
  deriving DecidableEq, Repr

/-- What is there, or a malformed document. -/
def demand {α : Type} : Option α → Except Failure α
  | some a => .ok a
  | none => .error .malformed

@[simp] theorem demand_eq_ok_iff {α : Type} {o : Option α} {a : α} :
    demand o = .ok a ↔ o = some a := by
  cases o <;> simp [demand]

end Criteria.Yaml
