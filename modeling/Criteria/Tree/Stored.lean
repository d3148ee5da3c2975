import Criteria.Limits
import Criteria.Schema
import Criteria.Tree

/-!
# Tree/Stored — trees as nested objects

A node is stored as an object with four fields: its kind, its text and its two children, null for a
leaf.  `Tree.decode` accepts these objects and no others: it checks the level of a node, then its
fields, then their agreement with its kind, and then its children, the left one first.
-/

namespace Criteria

/-- Why a value is no stored tree. -/
inductive DecodeError
  | limit (exceeded : LimitExceeded)
  | notObject (className : Text)
  | invalid (issues : List Issue)
  | unreadable
  | tooDeep
  deriving Repr

namespace DecodeError

/-- The message for a value that is no stored tree. -/
def message : DecodeError → Text
  | limit exceeded => exceeded.message
  | notObject className => "Encoded tree must be an object, got ".toList ++ className
  | invalid _ => "Invalid encoded tree: ".toList
  | unreadable => "Invalid encoded tree JSON: ".toList
  | tooDeep => "Invalid encoded tree: JSON nested too deeply".toList

end DecodeError

/-! ## Storing -/

namespace Tree

/-- A stored node. -/
def storedNode (kind value : Text) (left right : Value) : Value :=
  .object [(.text "kind".toList, .text kind), (.text "value".toList, .text value),
    (.text "left".toList, left), (.text "right".toList, right)]

/-- The object that stores a tree. -/
def encode : Tree → Value
  | operand clause => storedNode "operand".toList clause .null .null
  | operator word left right => storedNode "operator".toList word left.encode right.encode

end Tree

/-! ## Nodes -/

/-- The fields of a stored node once they agree with its kind.  The children are the entries of
objects. -/
inductive StoredNode
  | operand (clause : Text)
  | operator (word : Text) (left right : List (Text × Value))
  deriving Repr, Inhabited

namespace StoredNode

/-- The declared fields of a stored node. -/
def schema : Schema where
  fields := [
    { name := "kind".toList, type := .word ["operator".toList, "operand".toList] },
    { name := "value".toList, type := .text },
    .optional "left".toList .entries,
    .optional "right".toList .entries]
  isOpen := false

/-- The node of a kind with these fields, which have to agree with it. -/
def ofParts (kind value : Text) (left right : Option (List (Text × Value))) :
    Checked StoredNode :=
  if kind = "operator".toList then
    if isConnective value then
      match left, right with
      | some left, some right => .ok (operator value left right)
      | _, _ => Checked.fault (.shape .missingChild)
    else Checked.fault (.shape (.unknownConnective value))
  else
    match left, right with
    | none, none => .ok (operand value)
    | _, _ => Checked.fault (.shape .unexpectedChild)

/-- The node that an instance is. -/
def ofInstance (i : Instance) : Checked StoredNode :=
  ofParts ((i.text? "kind".toList).getD []) ((i.text? "value".toList).getD [])
    (i.entries? "left".toList) (i.entries? "right".toList)

end StoredNode

/-- The node that an object stores. -/
def Validator.node (v : Validator) (fields : Fields) : Checked StoredNode :=
  v StoredNode.schema (.object fields) >>= StoredNode.ofInstance

/-! ## Reading -/

namespace Tree

/-- The tree that a value on the given level stores. -/
def decodeAt (v : Validator) (limits : Limits) (level : Nat) : Value → Except DecodeError Tree
  | .object fields =>
    match _ : limits.check .storedDepth level with
    | .error exceeded => .error (.limit exceeded)
    | .ok () =>
      match v.node fields with
      | .error issues => .error (.invalid issues)
      | .ok (.operand clause) => .ok (operand clause)
      | .ok (.operator word left right) => do
        let l ← decodeAt v limits (level + 1) (.object (Fields.ofEntries left))
        let r ← decodeAt v limits (level + 1) (.object (Fields.ofEntries right))
        pure (operator word l r)
  | value => .error (.notObject value.className)
-- Every level but the first is one below a level that is within the limit.
termination_by (limits.storedDepth + 1 - level).toNat
decreasing_by
  all_goals
    have : (level : Int) ≤ limits.storedDepth := Limits.check_eq_ok_iff.1 ‹_›
    omega

/-- The tree that a value stores, whose objects are validated by `v`. -/
def decodeWith (v : Validator) (limits : Limits) (value : Value) : Except DecodeError Tree :=
  decodeAt v limits 1 value

/-- The tree that a value stores. -/
def decode (limits : Limits) (value : Value) : Except DecodeError Tree :=
  decodeWith Schema.validate limits value

end Tree

end Criteria
