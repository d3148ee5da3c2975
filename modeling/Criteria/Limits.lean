import Criteria.Text

/-!
# Limits — bounds on the size of rules and trees

A rule is bounded in length, its tree in depth and in nodes, and a conjunction in the number of its
rules.  The depth of a stored tree is bounded by the deepest tree a conjunction can have: one level
for every rule above the deepest rule.  `Limits.check` is the one test of a bound.
-/

namespace Criteria

/-- A quantity that is bounded. -/
inductive Limit
  | ruleLength
  | depth
  | nodes
  | combinedRules
  | storedDepth
  deriving DecidableEq, Repr

/-- The name of a bound in messages and in documents. -/
def Limit.name : Limit → Text
  | ruleLength => "max_rule_length".toList
  | depth => "max_ast_depth".toList
  | nodes => "max_ast_nodes".toList
  | combinedRules => "max_combined_rules".toList
  | storedDepth => "max_tree_depth".toList

/-- The bounds in force.  Nothing keeps a bound from being negative: then nothing passes it. -/
structure Limits where
  ruleLength : Int := 4096
  depth : Int := 32
  nodes : Int := 256
  combinedRules : Int := 256
  deriving DecidableEq, Repr, Inhabited

/-- A quantity beyond its bound. -/
structure LimitExceeded where
  limit : Limit
  bound : Int
  actual : Int
  deriving DecidableEq, Repr

namespace Limits

/-- The bound on the depth of a stored tree. -/
def storedDepth (l : Limits) : Int := l.combinedRules + l.depth

/-- The bound on a quantity. -/
def bound (l : Limits) : Limit → Int
  | .ruleLength => l.ruleLength
  | .depth => l.depth
  | .nodes => l.nodes
  | .combinedRules => l.combinedRules
  | .storedDepth => l.storedDepth

/-- Fails iff the quantity is above its bound. -/
def check (l : Limits) (limit : Limit) (actual : Int) : Except LimitExceeded Unit :=
  if l.bound limit < actual then .error ⟨limit, l.bound limit, actual⟩ else .ok ()

theorem check_eq_ok_iff {l : Limits} {limit : Limit} {actual : Int} :
    l.check limit actual = .ok () ↔ actual ≤ l.bound limit := by
  unfold check
  split <;> simp <;> omega

theorem check_eq_error_iff {l : Limits} {limit : Limit} {actual : Int} {e : LimitExceeded} :
    l.check limit actual = .error e ↔
      l.bound limit < actual ∧ e = ⟨limit, l.bound limit, actual⟩ := by
  unfold check
  split <;> simp [eq_comm] <;> omega

end Limits

/-- The message for a quantity beyond its bound, given the bound's name. -/
def limitMessage (name : Text) (bound actual : Int) : Text :=
  "Limit exceeded: ".toList ++ name ++ " (limit: ".toList ++ Text.ofInt bound ++
    ", actual: ".toList ++ Text.ofInt actual ++ ")".toList

namespace LimitExceeded

/-- The message for this failure; `Report` withholds it if its numbers have too many digits. -/
def message (e : LimitExceeded) : Text := limitMessage e.limit.name e.bound e.actual

end LimitExceeded

end Criteria
