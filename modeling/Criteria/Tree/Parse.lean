import Criteria.Group
import Criteria.Limits
import Criteria.Tree
import Criteria.Value

/-!
# Tree/Parse — from a rule to its tree

`Tree.parse` nests the tokens of a rule and splits every group at its first connective: there is no
precedence between `AND` and `OR`.  A group without a connective of its own is one condition, whose
text is its tokens joined by single spaces, those of nested groups included.  Parentheses around a
single item add no level to the tree.
-/

namespace Criteria

/-- Why a rule has no tree, with the rule where the failure points into it. -/
inductive ParseError
  | notText (className : Text)
  | limit (exceeded : LimitExceeded)
  | noTokens (source : Text)
  | unbalanced (imbalance : Imbalance) (source : Text)
  | incomplete (token : Text) (source : Text)
  | noCondition (source : Text)
  deriving DecidableEq, Repr

namespace ParseError

/-- The message for a rule without a tree. -/
def message : ParseError → Text
  | notText className => "Rule must be a string, got ".toList ++ className
  | limit exceeded => exceeded.message
  | noTokens _ => "No tokens found in rule".toList
  | unbalanced imbalance _ => imbalance.message
  | incomplete token _ => "Incomplete condition: '".toList ++ token ++ ['\'']
  | noCondition _ => "Expected a condition".toList

end ParseError

/-- The check of a limit, as a step of parsing. -/
def Limits.guard (l : Limits) (limit : Limit) (actual : Int) : Except ParseError Unit :=
  (l.check limit actual).mapError .limit

/-- The rule that a value is, which must be a text. -/
def Value.ruleText : Value → Except ParseError Text
  | .text source => .ok source
  | value => .error (.notText value.className)

/-- The tokens of a rule that is not too long. -/
def Token.scanWithin (limits : Limits) (source : Text) : Except ParseError (List Token) := do
  limits.guard .ruleLength source.length
  pure (Token.scan source)

namespace Group

/-- The first connective of a group itself, with the items before and after it. -/
def split? : Group → Option (Group × Text × Group)
  | [] => none
  | .token value :: items =>
    if isConnective value then some ([], value, items)
    else (split? items).map fun (left, word, right) => (.token value :: left, word, right)
  | .group inner :: items =>
    (split? items).map fun (left, word, right) => (.group inner :: left, word, right)

/-- Both parts of a split are lighter than the whole: the keyword between them has a weight. -/
theorem weight_of_split? : ∀ {items left right : Group} {word : Text},
    split? items = some (left, word, right) →
      Item.weightAll left < Item.weightAll items ∧ Item.weightAll right < Item.weightAll items
  | [], _, _, _, h => by simp [split?] at h
  | .token value :: items, left, right, word, h => by
    simp only [split?] at h
    split at h
    · obtain ⟨rfl, rfl, rfl⟩ := by simpa using h
      simp only [Item.weightAll, Item.weight]
      omega
    · obtain ⟨⟨l, w, r⟩, hs, he⟩ := Option.map_eq_some_iff.1 h
      obtain ⟨rfl, rfl, rfl⟩ := by simpa using he
      have := weight_of_split? hs
      simp only [Item.weightAll, Item.weight]
      omega
  | .group inner :: items, left, right, word, h => by
    obtain ⟨⟨l, w, r⟩, hs, he⟩ := Option.map_eq_some_iff.1 h
    obtain ⟨rfl, rfl, rfl⟩ := by simpa using he
    have := weight_of_split? hs
    have := Item.weight_pos (.group inner)
    simp only [Item.weightAll]
    omega

/-- The measure of the parse: the parts of an item's split are lighter than the item. -/
theorem weight_halves {item : Item} {items left right : Group} {word : Text}
    (h : item.core = .group items) (hs : split? items = some (left, word, right)) :
    (Item.group left).weight < item.weight ∧ (Item.group right).weight < item.weight := by
  have hw := Item.weight_core_le item
  have := weight_of_split? hs
  rw [h] at hw
  simp only [Item.weight] at hw ⊢
  omega

end Group

namespace Tree

/-- The tree of an item that stands on the given level.  The level is checked before the item is
split, so a tree that is too deep is refused at its first node beyond the limit. -/
def ofItem (limits : Limits) (source : Text) (level : Nat) (item : Item) :
    Except ParseError Tree :=
  match _ : item.core with
  | .token value => .error (.incomplete value source)
  | .group [] => .error (.noCondition source)
  | .group items => do
    limits.guard .depth level
    match _ : Group.split? items with
    | some (left, word, right) =>
      let l ← ofItem limits source (level + 1) (.group left)
      let r ← ofItem limits source (level + 1) (.group right)
      pure (operator word l r)
    | none => pure (operand (Text.unwords (Group.flatten items)))
termination_by item.weight
decreasing_by
  · exact (Group.weight_halves ‹_› ‹_›).1
  · exact (Group.weight_halves ‹_› ‹_›).2

/-- The tree of the tokens of a rule. -/
def ofTokens (limits : Limits) (source : Text) (tokens : List Token) : Except ParseError Tree := do
  if tokens = [] then .error (.noTokens source)
  let group ← (Group.ofTokens tokens).mapError (.unbalanced · source)
  let tree ← ofItem limits source 1 (.group group)
  limits.guard .nodes tree.size
  limits.guard .depth tree.depth
  pure tree

/-- The tree of a rule. -/
def parse (limits : Limits) (source : Text) : Except ParseError Tree := do
  let tokens ← Token.scanWithin limits source
  ofTokens limits source tokens

/-- The tree of a rule given as a value. -/
def parseValue (limits : Limits) (value : Value) : Except ParseError Tree := do
  let source ← value.ruleText
  parse limits source

end Tree

end Criteria
