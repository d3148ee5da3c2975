import Criteria.Token

/-!
# Group — the tokens of a rule, nested by its parentheses

A group is a list of items, each the text of a token or a group of its own.  `Group.ofTokens` keeps
the groups that a parenthesis has interrupted, each with the position of that parenthesis;
`Item.values` reads the texts back, and `flatten` does so with a list of items still to read.
-/

namespace Criteria

/-- An item of a group: the text of a token, or a nested group. -/
inductive Item
  | token (value : Text)
  | group (items : List Item)
  deriving Repr, Inhabited

/-- The items between two parentheses, or of a whole rule. -/
abbrev Group := List Item

/-- A parenthesis without its partner. -/
inductive Imbalance
  | unopened (position : Nat)
  | unclosed (position : Nat)
  deriving DecidableEq, Repr

namespace Imbalance

/-- Where the parenthesis stands. -/
def position : Imbalance → Nat
  | unopened p => p
  | unclosed p => p

/-- The message for a parenthesis without its partner. -/
def message : Imbalance → Text
  | unopened _ => "Unbalanced ')': no matching '('".toList
  | unclosed _ => "Unbalanced '(': missing ')'".toList

end Imbalance

namespace Item

/-! ## Size and texts -/

mutual

/-- The number of tokens and groups in an item. -/
def weight : Item → Nat
  | token _ => 1
  | group items => 1 + weightAll items

/-- The number of tokens and groups in a list of items. -/
def weightAll : List Item → Nat
  | [] => 0
  | item :: items => weight item + weightAll items

end

mutual

/-- The texts of the tokens in an item, from left to right. -/
def values : Item → List Text
  | token value => [value]
  | group items => valuesAll items

/-- The texts of the tokens in a list of items, from left to right. -/
def valuesAll : List Item → List Text
  | [] => []
  | item :: items => values item ++ valuesAll items

end

theorem weight_pos : ∀ item : Item, 0 < item.weight
  | token _ => by rw [weight]; exact Nat.one_pos
  | group _ => by rw [weight]; exact Nat.add_pos_left Nat.one_pos _

@[simp] theorem weightAll_append (xs ys : List Item) :
    weightAll (xs ++ ys) = weightAll xs + weightAll ys := by
  induction xs with
  | nil => simp [weightAll]
  | cons x xs ih => simp [weightAll, ih, Nat.add_assoc]

/-- An item without the parentheses around it that hold one item only. -/
def core : Item → Item
  | group [item] => item.core
  | item => item

theorem weight_core_le : ∀ item : Item, item.core.weight ≤ item.weight
  | group [item] => by
    have := weight_core_le item
    simp only [core, weight, weightAll]
    omega
  | token _ => by simp [core]
  | group [] => by simp [core]
  | group (_ :: _ :: _) => by simp [core]

end Item

namespace Group

/-! ## Nesting -/

/-- A group that a parenthesis has interrupted: where the parenthesis stands, and the items before
it, the last one first. -/
structure Pending where
  openedAt : Nat
  before : List Item

/-- The group of the remaining tokens, inside the pending groups; `items` are those read since the
last parenthesis opened, the last one first. -/
def nest : List Pending → List Item → List Token → Except Imbalance Group
  | [], items, [] => .ok items.reverse
  | outer :: _, _, [] => .error (.unclosed outer.openedAt)
  | outer, items, t :: ts =>
    match t.kind with
    | .opening => nest (⟨t.position, items⟩ :: outer) [] ts
    | .closing =>
      match outer with
      | [] => .error (.unopened t.position)
      | enclosing :: outer => nest outer (.group items.reverse :: enclosing.before) ts
    | _ => nest outer (.token t.value :: items) ts

/-- The tokens of a rule, nested by its parentheses. -/
def ofTokens (tokens : List Token) : Except Imbalance Group := nest [] [] tokens

/-! ## Flattening -/

/-- The texts of the tokens in the items still to read; a group gives way to its items. -/
def flatten : List Item → List Text
  | [] => []
  | .token value :: pending => value :: flatten pending
  | .group items :: pending => flatten (items ++ pending)
termination_by pending => Item.weightAll pending
decreasing_by
  · simp [Item.weightAll, Item.weight]
  · simp only [Item.weightAll_append, Item.weightAll, Item.weight]
    omega

end Group

end Criteria
