import Criteria.Value.Key
import Criteria.Yaml.Resolve

/-!
# Yaml/Reader — from a document to a value

A mapping becomes an object; its keys must not be collections.  The fields that `<<` merges into a
mapping come before its own, which override them.  Of several faults the one least deep in the
document counts, and of those equally deep the first.
-/

namespace Criteria.Yaml

/-! ## Faults by depth -/

/-- A part of a document, or the depth of the fault that counts and the failure it makes. -/
abbrev Built (α : Type) := Except (Nat × Failure) α

/-- Two parts of a document in one. -/
def Built.both {α β γ : Type} (f : α → β → γ) : Built α → Built β → Built γ
  | .ok a, .ok b => .ok (f a b)
  | .ok _, .error later => .error later
  | .error first, .ok _ => .error first
  | .error first, .error later => .error (if later.1 < first.1 then later else first)

namespace Node

/-! ## Values -/

/-- Whether a node is the key that merges. -/
def isMerge : Node → Bool
  | scalar text isPlain => isPlain && text = mergeWord
  | _ => false

mutual

/-- The value of a node at a depth. -/
def build (depth : Nat) : Node → Built Value
  | scalar text true => (resolve text).mapError (depth, ·)
  | scalar text false => .ok (.text text)
  | sequence items => (buildAll (depth + 1) items).map .list
  | mapping pairs =>
    match fields (depth + 1) pairs with
    | none => .error (depth + 1, .malformed)
    | some (merged, own) => merged.both (fun m o => .object (Fields.ofList (m ++ o))) own

/-- The values of nodes at a depth. -/
def buildAll (depth : Nat) : List Node → Built (List Value)
  | [] => .ok []
  | node :: nodes => (build depth node).both List.cons (buildAll depth nodes)

/-- The fields that a mapping merges, and its own; `none` if there is nothing to merge where it
should be. -/
def fields (depth : Nat) : List (Node × Node) → Option (Built Fields × Built Fields)
  | [] => some (.ok [], .ok [])
  | (key, node) :: pairs => do
    let (merged, own) ← fields depth pairs
    if key.isMerge then
      let more ← mergedFields depth node
      pure (more.both List.append merged, own)
    else
      let field := (buildKey depth key).both Prod.mk (build depth node)
      pure (merged, field.both List.cons own)

/-- The value of a key at a depth. -/
def buildKey (depth : Nat) : Node → Built Value
  | scalar text isPlain =>
    if isPlain && text ≠ valueWord then (resolve text).mapError (depth, ·) else .ok (.text text)
  | sequence _ => .error (depth, .malformed)
  | mapping _ => .error (depth, .malformed)

/-- The fields of a mapping to be merged, or of several, the last one first. -/
def mergedFields (depth : Nat) : Node → Option (Built Fields)
  | mapping pairs => do
    let (merged, own) ← fields depth pairs
    pure (merged.both List.append own)
  | sequence items => mergedLists depth items
  | scalar .. => none

/-- The fields of mappings to be merged, the last one first. -/
def mergedLists (depth : Nat) : List Node → Option (Built Fields)
  | [] => some (.ok [])
  | mapping pairs :: nodes => do
    let (merged, own) ← fields depth pairs
    let later ← mergedLists depth nodes
    pure (later.both List.append (merged.both List.append own))
  | _ :: _ => none

end

/-- The value of the root of a document. -/
def value (node : Node) : Except Failure Value := (node.build 0).mapError (·.2)

end Node

/-- The value of a document; null if there is none. -/
def read (source : Text) : Except Failure Value := do
  match ← Node.ofTokens (scan source) with
  | none => pure .null
  | some node => node.value

end Criteria.Yaml
