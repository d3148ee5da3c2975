import Criteria.Conjunction
import Criteria.Evaluate
import Criteria.Tree.Stored

/-!
# RuleSet — named rules, each with its tree, and their conjunction

A set keeps its rules in order, parsed, together with the tree of all of them.  It is built from
parsed rules by `ofRules`, which refuses a repeated id and more rules than the limits allow; an
edited set is built anew in the same way.
-/

namespace Criteria

/-- A rule of a set with its tree. -/
structure Rule where
  id : Text
  source : Text
  tree : Tree
  description : Option Text
  deriving DecidableEq, Repr, Inhabited

/-- Why there is no rule set. -/
inductive RuleSetError
  | badRule (id : Text) (error : ParseError)
  | duplicate (id : Text)
  | tooLarge (exceeded : LimitExceeded)
  | badLimits
  | unreadable (format : Text)
  | notObject (format reader : Text)
  | invalid (issues : List Issue)
  deriving Repr

namespace RuleSetError

/-- The message for a rule set that cannot be made. -/
def message : RuleSetError → Text
  | badRule id error => "Invalid rule \"".toList ++ id ++ "\": ".toList ++ error.message
  | duplicate id => "Duplicate rule id \"".toList ++ id ++ ['"']
  | tooLarge exceeded => "Rule set too large: ".toList ++ exceeded.message
  | badLimits => "Invalid expressionLimits: ".toList
  | unreadable format => "Invalid ".toList ++ format ++ " rule set document: ".toList
  | notObject format reader =>
    "Invalid ".toList ++ format ++ " rule set document: Parsed ".toList ++ reader ++
      " rule set must be an object".toList
  | invalid _ => "Invalid rule set definition: ".toList

end RuleSetError

/-- Parsed rules in order, under the limits they were parsed with.  `combined` is kept so that an
evaluation need not fold the trees again. -/
structure RuleSet where
  name : Option Text
  limits : Limits
  rules : List Rule
  combined : Option Tree
  deriving DecidableEq, Repr, Inhabited

/-- The rule of an id and a text. -/
def Rule.compile (limits : Limits) (id : Text) (description : Option Text) (value : Value) :
    Except RuleSetError Rule := do
  let source ← value.ruleText.mapError (.badRule id)
  let tree ← (Tree.parse limits source).mapError (.badRule id)
  pure { id, source, tree, description }

namespace RuleSet

/-! ## Building -/

/-- The first id that repeats one before it. -/
def repeated? (seen : List Text) : List Text → Option Text
  | [] => none
  | id :: ids => if id ∈ seen then some id else repeated? (id :: seen) ids

/-- The set of parsed rules. -/
def ofRules (limits : Limits) (name : Option Text) (rules : List Rule) :
    Except RuleSetError RuleSet :=
  match repeated? [] (rules.map Rule.id) with
  | some id => .error (.duplicate id)
  | none =>
    match rules with
    | [] => .ok { name, limits, rules, combined := none }
    | first :: rest => do
      let combined ←
        (Tree.conjoinFrom limits first.tree (rest.map Rule.tree)).mapError .tooLarge
      pure { name, limits, rules, combined := some combined }

/-- The id of a rule that has none of its own. -/
def defaultId (index : Nat) : Text := "rule_".toList ++ Text.ofInt index

/-- The set of rules under their ids. -/
def ofEntries (limits : Limits) (name : Option Text) (entries : List (Text × Value)) :
    Except RuleSetError RuleSet := do
  let rules ← entries.mapM fun (id, source) => Rule.compile limits id none source
  ofRules limits name rules

/-- The set of rules that are numbered from zero. -/
def ofList (limits : Limits) (name : Option Text) (sources : List Value) :
    Except RuleSetError RuleSet :=
  ofEntries limits name (sources.mapIdx fun i source => (defaultId i, source))

/-! ## Rules -/

/-- The ids, in order. -/
def ids (s : RuleSet) : List Text := s.rules.map Rule.id

/-- The rule with an id. -/
def find? (id : Text) (s : RuleSet) : Option Rule := s.rules.find? (·.id = id)

/-- Whether there is a rule with an id. -/
def contains (id : Text) (s : RuleSet) : Bool := (s.find? id).isSome

/-! ## Editing -/

/-- The set with a rule: in the place of the one with its id, or else at the end. -/
def withRule (id : Text) (source : Value) (description : Option Text) (s : RuleSet) :
    Except RuleSetError RuleSet := do
  let rule ← Rule.compile s.limits id description source
  ofRules s.limits s.name <|
    if s.contains id then s.rules.map fun r => if r.id = id then rule else r
    else s.rules ++ [rule]

/-- Why a rule could not be taken out of a set. -/
inductive RemoveError
  | unknownRule (id : Text)
  | set (error : RuleSetError)
  deriving Repr

/-- The message for an id that no rule has. -/
def unknownMessage (id : Text) : Text := "Unknown rule id \"".toList ++ id ++ ['"']

/-- The set without the rule with an id. -/
def withoutRule (id : Text) (s : RuleSet) : Except RemoveError RuleSet :=
  if s.contains id then
    (ofRules s.limits s.name (s.rules.filter (·.id ≠ id))).mapError .set
  else .error (.unknownRule id)

/-! ## Evaluating -/

/-- How the evaluation of a set can fail. -/
inductive RunError
  | noRules
  | unknownRule (id : Text)
  | evaluation (failure : EvaluationFailure)
  deriving DecidableEq, Repr

/-- The message for a set without rules. -/
def noRulesMessage : Text := "Rule set has no rules".toList

/-- Whether all rules hold for a record. -/
def evaluate (record : Record) (s : RuleSet) : Except RunError Bool :=
  match s.combined with
  | none => .error .noRules
  | some tree => (tree.evaluate record).mapError .evaluation

/-- Whether the rule with an id holds for a record. -/
def evaluateRule (id : Text) (record : Record) (s : RuleSet) : Except RunError Bool :=
  match s.find? id with
  | none => .error (.unknownRule id)
  | some rule => (rule.tree.evaluate record).mapError .evaluation

/-- What became of one rule of a set. -/
structure Finding where
  id : Text
  result : Bool
  source : Text
  error : Option EvaluationError
  deriving DecidableEq, Repr

/-- What becomes of every rule for a record; `none` if a number has too many digits to be read. -/
def explain (record : Record) (s : RuleSet) : Option (List Finding) :=
  s.rules.mapM fun rule => do
    let verdict ← rule.tree.tryEvaluate record
    pure { id := rule.id, result := verdict.value, source := rule.source, error := verdict.error }

/-! ## Storing -/

/-- A text, or null. -/
def optionalText : Option Text → Value
  | none => .null
  | some s => .text s

/-- The object that stores a rule. -/
def encodeRule (rule : Rule) : Value :=
  .object [(.text "id".toList, .text rule.id), (.text "ruleString".toList, .text rule.source),
    (.text "description".toList, optionalText rule.description),
    (.text "ast".toList, rule.tree.encode)]

/-- The object that stores a set. -/
def encode (s : RuleSet) : Value :=
  .object [(.text "name".toList, optionalText s.name),
    (.text "rules".toList, .list (s.rules.map encodeRule)),
    (.text "combined".toList, (s.combined.map Tree.encode).getD .null)]

end RuleSet

end Criteria
