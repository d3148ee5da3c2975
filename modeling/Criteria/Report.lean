import Criteria.Document
import Criteria.Tree.Json

/-!
# Report — failures as callers see them

A report gives the kind of a failure, its message and the details that belong to it.  Every error of
the library has one.  `context?` quotes the expression with a caret under the position.
-/

namespace Criteria

/-- The kinds of failures.  Those from `unknownRule` on are not about rules or documents as such. -/
inductive ErrorKind
  | expression
  | parse
  | limitExceeded
  | emptyInput
  | decode
  | evaluation
  | missingAttribute
  | unsupportedOperator
  | malformedCondition
  | ruleSet
  /-- An id that no rule has. -/
  | unknownRule
  /-- A numeral that cannot be read, or a number with too many digits to be written. -/
  | badNumber
  /-- A number that is too large for its place. -/
  | tooLarge
  /-- A value of a type that stands for no number. -/
  | wrongType
  | fileMissing
  | notUnicode
  deriving DecidableEq, Repr

/-- A failure with its details. -/
structure Report where
  kind : ErrorKind
  message : Option Text := none
  position : Option Int := none
  expression : Option Text := none
  condition : Option Text := none
  limitName : Option Text := none
  limit : Option Int := none
  actual : Option Int := none
  missing : Option Text := none
  operator : Option Text := none
  ruleId : Option Text := none
  cause : Option ErrorKind := none
  issues : Option (List Issue) := none

namespace Report

/-- The message, the expression and a caret under the position, if all are known. -/
def context? (r : Report) : Option Text := do
  let message ← r.message
  let expression ← r.expression
  let position ← r.position
  pure (message ++ "\n  ".toList ++ expression ++ "\n  ".toList ++
    List.replicate position.toNat ' ' ++ ['^'])

/-- The report itself, unless its context would need a margin that is no length of a text. -/
def settle (r : Report) : Report :=
  if r.expression.isSome && !r.position.all Text.fitsWord then { kind := .tooLarge } else r

/-! ## Single causes -/

/-- A quantity beyond the bound of a name.  A message has room for numbers that can be written. -/
def limitExceeded (name : Text) (limit actual : Int) : Report :=
  if Text.isWritable limit && Text.isWritable actual then
    { kind := .limitExceeded, message := limitMessage name limit actual, limitName := name,
      limit, actual }
  else { kind := .badNumber }

/-- An attribute that a record lacks. -/
def missingAttribute (name : Text) (condition : Option Text) : Report :=
  { kind := .missingAttribute, message := EvaluationError.missingMessage name, condition,
    missing := name }

/-- A comparator that is none of the three. -/
def unsupportedOperator (operator : Text) (condition : Option Text) : Report :=
  { kind := .unsupportedOperator, message := EvaluationError.unsupportedMessage operator, condition,
    operator }

/-- A condition that is not three words. -/
def malformedCondition (condition : Text) : Report :=
  { kind := .malformedCondition, message := EvaluationError.malformedMessage condition, condition }

/-- Rules that are combined but not there. -/
def emptyInput (message : Text) : Report := { kind := .emptyInput, message }

/-- An id that no rule has. -/
def unknownRule (id : Text) : Report :=
  { kind := .unknownRule, message := RuleSet.unknownMessage id }

end Report

/-! ## The reports of the errors -/

/-- The report of a quantity beyond its bound. -/
def LimitExceeded.report (e : LimitExceeded) : Report :=
  Report.limitExceeded e.limit.name e.bound e.actual

/-- The report of a value that stands for no integer. -/
def IntegerError.report (e : IntegerError) : Report :=
  match e with
  | malformed => { kind := .badNumber }
  | infinite => { kind := .tooLarge }
  | wrongType => { kind := .wrongType }

/-- The report of a rule without a tree. -/
def ParseError.report (e : ParseError) : Report :=
  match e with
  | notText _ => { kind := .parse, message := e.message }
  | limit exceeded => exceeded.report
  | unbalanced imbalance source =>
    { kind := .parse, message := e.message, position := some imbalance.position,
      expression := source }
  | noTokens source | incomplete _ source | noCondition source =>
    { kind := .parse, message := e.message, expression := source }

/-- The report of rules without a common tree. -/
def CombineError.report (e : CombineError) : Report :=
  match e with
  | noRules => Report.emptyInput e.message
  | rule error => error.report

/-- The report of an evaluation that failed with an error of its own. -/
def EvaluationError.report (e : EvaluationError) : Report :=
  match e with
  | malformed condition => Report.malformedCondition condition
  | missingAttribute name condition => Report.missingAttribute name condition
  | unsupportedOperator operator condition => Report.unsupportedOperator operator condition
  | incomparable _ _ _ condition => { kind := .evaluation, message := e.message, condition }
  | unsupportedConnective _ => { kind := .evaluation, message := e.message }

/-- The report of an evaluation that failed. -/
def EvaluationFailure.report (e : EvaluationFailure) : Report :=
  match e with
  | .error cause => cause.report
  | tooManyDigits => { kind := .badNumber }

/-- The report of a value that is no stored tree. -/
def DecodeError.report (e : DecodeError) : Report :=
  match e with
  | limit exceeded => exceeded.report
  | invalid issues => { kind := .decode, message := e.message, issues }
  | notObject _ | unreadable | tooDeep => { kind := .decode, message := e.message }

/-- The report of an error that another one caused; if that one has no message, neither has this. -/
def Report.causedBy (cause : Report) (report : Report) : Report :=
  if cause.message.isSome then { report with cause := cause.kind } else cause

/-- The report of a rule set that cannot be made. -/
def RuleSetError.report (e : RuleSetError) : Report :=
  match e with
  | badRule id error =>
    error.report.causedBy { kind := .ruleSet, message := e.message, ruleId := id }
  | duplicate id => { kind := .ruleSet, message := e.message, ruleId := id }
  | tooLarge exceeded => exceeded.report.causedBy { kind := .ruleSet, message := e.message }
  | invalid issues => { kind := .ruleSet, message := e.message, issues }
  | badLimits | unreadable _ | notObject .. => { kind := .ruleSet, message := e.message }

/-- The report of a set that could not be evaluated. -/
def RuleSet.RunError.report (e : RuleSet.RunError) : Report :=
  match e with
  | noRules => Report.emptyInput RuleSet.noRulesMessage
  | unknownRule id => Report.unknownRule id
  | evaluation failure => failure.report

/-- The report of a rule that could not be taken out of a set. -/
def RuleSet.RemoveError.report (e : RuleSet.RemoveError) : Report :=
  match e with
  | unknownRule id => Report.unknownRule id
  | set error => error.report

/-- The report of a document that describes no rule set. -/
def DocumentError.report (e : DocumentError) : Report :=
  match e with
  | set error => error.report
  | tooLarge => { kind := .tooLarge }

/-- The report of a file that describes no rule set. -/
def LoadError.report (e : LoadError) : Report :=
  match e with
  | fileMissing => { kind := .fileMissing }
  | notUnicode => { kind := .notUnicode }
  | document error => error.report

end Criteria
