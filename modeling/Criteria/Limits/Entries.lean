import Criteria.Limits
import Criteria.Value.Integer

/-!
# Limits/Entries — limits from the entries of a document

Four of the limits can be set, each by either of two keys.  The last entry for a limit counts, other
keys say nothing, and the first value that stands for no integer fails.
-/

namespace Criteria

/-- The limit that a key sets. -/
def Limit.ofKey? (key : Text) : Option Limit :=
  if key = "maxRuleLength".toList ∨ key = "max_rule_length".toList then some ruleLength
  else if key = "maxAstDepth".toList ∨ key = "max_ast_depth".toList then some depth
  else if key = "maxAstNodes".toList ∨ key = "max_ast_nodes".toList then some nodes
  else if key = "maxCombinedRules".toList ∨ key = "max_combined_rules".toList then
    some combinedRules
  else none

namespace Limits

/-- The limits with one of them set; the depth of stored trees follows from the others. -/
def set (l : Limits) (n : Int) : Limit → Limits
  | .ruleLength => { l with ruleLength := n }
  | .depth => { l with depth := n }
  | .nodes => { l with nodes := n }
  | .combinedRules => { l with combinedRules := n }
  | .storedDepth => l

/-- The limits after the entries, in order. -/
def update (l : Limits) : List (Text × Value) → Except IntegerError Limits
  | [] => .ok l
  | (key, value) :: entries =>
    match Limit.ofKey? key with
    | none => l.update entries
    | some limit => do
      let n ← value.toInt
      (l.set n limit).update entries

/-- The limits that the entries of a document set, the others at their defaults. -/
def ofEntries (entries : List (Text × Value)) : Except IntegerError Limits :=
  update {} entries

end Limits

end Criteria
