import Criteria.Limits.Entries
import Criteria.Schema

/-!
# Definition — rule sets as documents describe them

A definition has a name, a description, rules and limits, and every rule a text, an id and a
description.  The text and the limits are declared under names with an underscore, with `ruleString`
and `expressionLimits` as their aliases.  The fields that are not declared are kept, in order.
-/

namespace Criteria

/-- A rule of a document. -/
structure RuleDefinition where
  id : Option Text
  source : Text
  description : Option Text
  extra : List (Text × Value)
  deriving Repr, Inhabited

/-- A rule set of a document. -/
structure Definition where
  name : Option Text
  description : Option Text
  rules : List RuleDefinition
  limits : Option (List (Text × Value))
  extra : List (Text × Value)
  deriving Repr, Inhabited

/-! ## Fields -/

/-- The text of a rule, which is required. -/
def RuleDefinition.sourceField : Field where
  name := "rule_string".toList
  alias? := some "ruleString".toList
  type := .text

/-- The declared fields of a rule. -/
def RuleDefinition.schema : Schema where
  fields := [.optional "id".toList .text, sourceField, .optional "description".toList .text]
  isOpen := true

/-- The rules of a set: none if they are not given. -/
def Definition.rulesField : Field where
  name := "rules".toList
  type := .list RuleDefinition.schema
  default := some (.list [])

/-- The limits of a set. -/
def Definition.limitsField : Field :=
  .optional "expression_limits".toList .entries (some "expressionLimits".toList)

/-- The declared fields of a rule set. -/
def Definition.schema : Schema where
  fields := [.optional "name".toList .text, .optional "description".toList .text, rulesField,
    limitsField]
  isOpen := true

/-- The rule that an instance is. -/
def RuleDefinition.ofInstance (i : Instance) : RuleDefinition where
  id := i.text? "id".toList
  source := (i.text? "rule_string".toList).getD []
  description := i.text? "description".toList
  extra := i.extra

/-- The rule set that an instance is. -/
def Definition.ofInstance (i : Instance) : Definition where
  name := i.text? "name".toList
  description := i.text? "description".toList
  rules := (i.list "rules".toList).map .ofInstance
  limits := i.entries? "expression_limits".toList
  extra := i.extra

/-! ## Validation -/

namespace Validator

/-- The rule that an object describes. -/
def rule (v : Validator) (fields : Fields) : Checked RuleDefinition :=
  RuleDefinition.ofInstance <$> v RuleDefinition.schema (.object fields)

/-- The rule set that an object describes. -/
def definition (v : Validator) (fields : Fields) : Checked Definition :=
  Definition.ofInstance <$> v Definition.schema (.object fields)

end Validator

namespace Definition

/-- The rule set that an object describes, as `Schema.validate` has it. -/
def ofFields (fields : Fields) : Checked Definition := Validator.definition Schema.validate fields

/-- The limits that a definition sets, if it sets any. -/
def resolveLimits (d : Definition) : Except IntegerError (Option Limits) :=
  match d.limits with
  | none => .ok none
  | some entries => some <$> Limits.ofEntries entries

end Definition

end Criteria
