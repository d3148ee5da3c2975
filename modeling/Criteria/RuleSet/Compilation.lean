import Criteria.Definition
import Criteria.RuleSet

/-!
# RuleSet/Compilation — from a definition to a rule set

The limits come first, then the rules in order, each parsed under its own id or the one of its
place.  Undeclared fields are warned about on the way: those of the set, then those of every rule up
to the first that fails.
-/

namespace Criteria

/-- Why a document describes no rule set: an error of the set, or something that is too large for
its place, such as an infinite limit. -/
inductive DocumentError
  | set (error : RuleSetError)
  | tooLarge
  deriving Repr

/-- The fields that were warned about, and the set or why there is none. -/
structure Compilation where
  warnings : List Text
  outcome : Except DocumentError RuleSet

namespace RuleSet

/-- The fields of a set that need no declaration. -/
def toleratedFields : List Text := ["version".toList, "$schema".toList]

/-- The fields of a rule that need no declaration. -/
def toleratedRuleFields : List Text := ["tags".toList]

/-- The warnings about undeclared fields. -/
def warnings (warn : Bool) (tolerated : List Text) (extra : List (Text × Value)) : List Text :=
  if warn then (extra.map (·.1)).filter (!tolerated.contains ·) else []

/-- The id of a rule of a definition: its own unless that is empty. -/
def effectiveId (index : Nat) (rule : RuleDefinition) : Text :=
  match rule.id with
  | none | some [] => defaultId index
  | some id => id

/-- The rules of a definition from an index on, with the warnings about them. -/
def compileRules (limits : Limits) (warn : Bool) (index : Nat) :
    List RuleDefinition → List Text × Except RuleSetError (List Rule)
  | [] => ([], .ok [])
  | d :: ds =>
    let warned := warnings warn toleratedRuleFields d.extra
    match Rule.compile limits (effectiveId index d) d.description (.text d.source) with
    | .error error => (warned, .error error)
    | .ok rule =>
      let (later, rules) := compileRules limits warn (index + 1) ds
      (warned ++ later, (rule :: ·) <$> rules)

/-- The limits a definition is compiled under. -/
def limitsFor (given : Option Limits) (d : Definition) : Except DocumentError Limits :=
  match given with
  | some limits => .ok limits
  | none =>
    match d.resolveLimits with
    | .ok limits => .ok (limits.getD {})
    | .error .infinite => .error .tooLarge
    | .error _ => .error (.set .badLimits)

/-- The set of a definition, under given limits or its own. -/
def ofDefinition (given : Option Limits) (warn : Bool) (d : Definition) : Compilation :=
  match limitsFor given d with
  | .error error => ⟨[], .error error⟩
  | .ok limits =>
    let warned := warnings warn toleratedFields d.extra
    let (later, rules) := compileRules limits warn 0 d.rules
    ⟨warned ++ later, (rules >>= ofRules limits d.name).mapError .set⟩

end RuleSet

end Criteria
