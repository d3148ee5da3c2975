import Criteria.Token

/-!
# Tree — the tree of a rule

A leaf holds the text of a condition, an inner node a connective and two subtrees.  A tree has a
size and a depth, is outlined for readers one node a line, and is written back as a rule, inner
children in parentheses.
-/

namespace Criteria

/-- The tree of a rule.  `word` is the connective of an inner node as it was written: only `AND` and
`OR` have a meaning. -/
inductive Tree
  | operand (clause : Text)
  | operator (word : Text) (left right : Tree)
  deriving DecidableEq, Repr, Inhabited

namespace Tree

/-- The number of nodes. -/
def size : Tree → Nat
  | operand _ => 1
  | operator _ left right => 1 + left.size + right.size

/-- The number of levels. -/
def depth : Tree → Nat
  | operand _ => 1
  | operator _ left right => 1 + max left.depth right.depth

/-- The conditions, from left to right. -/
def clauses : Tree → List Text
  | operand clause => [clause]
  | operator _ left right => left.clauses ++ right.clauses

/-- The connectives, from left to right. -/
def connectives : Tree → List Text
  | operand _ => []
  | operator word left right => left.connectives ++ word :: right.connectives

section

variable {P : Text → Prop} {word clause : Text} {left right : Tree}

@[simp] theorem clauses_operand : (operand clause).clauses = [clause] := rfl

@[simp] theorem connectives_operand : (operand clause).connectives = [] := rfl

@[simp] theorem forall_mem_clauses_operator : (∀ s ∈ (operator word left right).clauses, P s) ↔
    (∀ s ∈ left.clauses, P s) ∧ ∀ s ∈ right.clauses, P s :=
  List.forall_mem_append

@[simp] theorem forall_mem_connectives_operator :
    (∀ w ∈ (operator word left right).connectives, P w) ↔
      (∀ w ∈ left.connectives, P w) ∧ P word ∧ ∀ w ∈ right.connectives, P w := by
  rw [connectives, List.forall_mem_append, List.forall_mem_cons]

end

/-! ## Outline -/

/-- Two spaces for every level above zero. -/
def margin (level : Int) : Text := List.replicate (2 * level.toNat) ' '

/-- The tree in lines, a node before its subtrees, each a level further in. -/
def outline (level : Int) : Tree → Text
  | operand clause => margin level ++ "Operand: ".toList ++ clause
  | operator word left right =>
    margin level ++ "Operator: ".toList ++ word ++ '\n' :: (left.outline (level + 1) ++
      '\n' :: right.outline (level + 1))

/-- The outline, unless a margin in it is longer than a text can be. -/
def outline? (level : Int) (tree : Tree) : Option Text :=
  if -Text.wordBound ≤ level ∧ 2 * (level + tree.depth - 1) < Text.wordBound then
    some (tree.outline level)
  else none

/-! ## Writing a tree as a rule -/

/-- A text in parentheses. -/
def parenthesized (s : Text) : Text := '(' :: s ++ [')']

/-- The text of a child, in parentheses unless the child is a leaf. -/
def enclose : Tree → Text → Text
  | operand _, s => s
  | operator .., s => parenthesized s

/-- The rule that a tree stands for. -/
def render : Tree → Text
  | operand clause => clause
  | operator word left right =>
    left.enclose left.render ++ ' ' :: word ++ ' ' :: right.enclose right.render

end Tree

end Criteria
