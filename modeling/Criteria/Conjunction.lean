import Criteria.Tree.Parse

/-!
# Conjunction — several rules in one tree

`Tree.conjoin` folds trees from the left with `AND`: three rules become `((r₁ AND r₂) AND r₃)`.
`Tree.combine` parses the rules first; both bound the number of rules, not the size of the result.
-/

namespace Criteria

/-- Why rules have no common tree: there are none, or one fails to parse or a limit is exceeded. -/
inductive CombineError
  | noRules
  | rule (error : ParseError)
  deriving DecidableEq, Repr

namespace CombineError

/-- The message for rules without a common tree. -/
def message : CombineError → Text
  | noRules => "At least one rule is required to combine".toList
  | rule error => error.message

end CombineError

namespace Tree

/-- Both trees must hold. -/
def and (left right : Tree) : Tree := operator andWord left right

/-- A first tree and others in one, folded from the left. -/
def conjoinFrom (limits : Limits) (first : Tree) (rest : List Tree) :
    Except LimitExceeded Tree := do
  limits.check .combinedRules (first :: rest).length
  pure (rest.foldl and first)

/-- The trees in one, folded from the left. -/
def conjoin (limits : Limits) : List Tree → Except CombineError Tree
  | [] => .error .noRules
  | first :: rest => (conjoinFrom limits first rest).mapError fun e => .rule (.limit e)

/-- The trees of rules in one.  The number of rules is checked before any is parsed. -/
def combine (limits : Limits) (rules : List Value) : Except CombineError Tree := do
  (limits.guard .combinedRules rules.length).mapError .rule
  let trees ← (rules.mapM (parseValue limits)).mapError .rule
  conjoin limits trees

end Tree

end Criteria
