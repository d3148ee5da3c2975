import Criteria.Yaml.Token

/-!
# Yaml/Node — the collections of a document

The grammar of tokens: a node is a scalar, a flow collection, a block collection, or the items of a
sequence that is not indented further than the key it belongs to.  A node that may be missing is an
empty scalar where it is.
-/

namespace Criteria.Yaml

/-- A scalar with whether it is plain, or a collection. -/
inductive Node
  | scalar (text : Text) (isPlain : Bool)
  | sequence (items : List Node)
  | mapping (pairs : List (Node × Node))
  deriving Repr, Inhabited

namespace Node

/-- The node that stands where none is written. -/
def empty : Node := scalar [] true

/-- Tokens that are fewer than others. -/
abbrev Fewer (ts : List Token) := { rest : List Token // rest.length < ts.length }

/-- Tokens that are no more than others. -/
abbrev NoMore (ts : List Token) := { rest : List Token // rest.length ≤ ts.length }

/-- The failure at a place whose token does not belong there: the one that stands there, if reading
has failed. -/
def refuse {α : Type} : List Token → Except Failure α
  | .failure reason :: _ => .error reason
  | _ => .error .malformed

/-! ## What ends a missing node -/

/-- After the dash of a block sequence. -/
def endsItem (t : Token) : Bool := t = .blockEntry || t = .blockEnd

/-- After a key or a colon of a block mapping. -/
def endsField (t : Token) : Bool := t = .key || t = .value || t = .blockEnd

/-- After the dash of a sequence that is not indented. -/
def endsLooseItem (t : Token) : Bool := t = .blockEntry || endsField t

/-- After a colon of a flow collection. -/
def endsFlowValue (t : Token) : Bool :=
  t = .flowEntry || t = .flowSequenceEnd || t = .flowMappingEnd

/-- After a key of a flow collection. -/
def endsFlowKey (t : Token) : Bool := t = .value || endsFlowValue t

/-- The tokens after the comma that must come before every item but the first. -/
def afterComma (first : Bool) (ts : List Token) : Except Failure (NoMore ts) :=
  if first then .ok ⟨ts, Nat.le_refl _⟩
  else
    match ts with
    | .flowEntry :: rest => .ok ⟨rest, Nat.le_succ _⟩
    | ts => refuse ts

/-! ## Grammar -/

mutual

/-- The node at the head.  After a key or a colon of a block mapping it may be a `loose` sequence,
one that is not indented. -/
def read (loose : Bool) (ts : List Token) : Except Failure (Node × Fewer ts) :=
  match ts with
  | .scalar text isPlain :: rest => .ok (scalar text isPlain, ⟨rest, by simp⟩)
  | .flowSequenceStart :: rest => do
    let (items, ⟨rest, _⟩) ← flowItems true rest
    pure (sequence items, ⟨rest, by simp; omega⟩)
  | .flowMappingStart :: rest => do
    let (pairs, ⟨rest, _⟩) ← flowPairs true rest
    pure (mapping pairs, ⟨rest, by simp; omega⟩)
  | .blockSequenceStart :: rest => do
    let (items, ⟨rest, _⟩) ← blockItems rest
    pure (sequence items, ⟨rest, by simp; omega⟩)
  | .blockMappingStart :: rest => do
    let (pairs, ⟨rest, _⟩) ← blockPairs rest
    pure (mapping pairs, ⟨rest, by simp; omega⟩)
  | .blockEntry :: rest =>
    if loose then do
      let (item, ⟨rest, _⟩) ← readOr endsLooseItem false rest
      let (items, ⟨rest, _⟩) ← looseItems rest
      pure (sequence (item :: items), ⟨rest, by simp; omega⟩)
    else refuse ts
  | ts => refuse ts
termination_by 2 * ts.length

/-- The node at the head, empty if the next token ends it. -/
def readOr (ends : Token → Bool) (loose : Bool) (ts : List Token) :
    Except Failure (Node × NoMore ts) :=
  if ts.head?.any ends then .ok (empty, ⟨ts, Nat.le_refl _⟩)
  else do
    let (node, ⟨rest, _⟩) ← read loose ts
    pure (node, ⟨rest, by omega⟩)
termination_by 2 * ts.length + 1

/-- The items of a block sequence up to its end. -/
def blockItems (ts : List Token) : Except Failure (List Node × Fewer ts) :=
  match ts with
  | .blockEnd :: rest => .ok ([], ⟨rest, by simp⟩)
  | .blockEntry :: rest => do
    let (item, ⟨rest, _⟩) ← readOr endsItem false rest
    let (items, ⟨rest, _⟩) ← blockItems rest
    pure (item :: items, ⟨rest, by simp; omega⟩)
  | ts => refuse ts
termination_by 2 * ts.length

/-- The further items of a sequence that is not indented. -/
def looseItems (ts : List Token) : Except Failure (List Node × NoMore ts) :=
  match ts with
  | .blockEntry :: rest => do
    let (item, ⟨rest, _⟩) ← readOr endsLooseItem false rest
    let (items, ⟨rest, _⟩) ← looseItems rest
    pure (item :: items, ⟨rest, by simp; omega⟩)
  | ts => .ok ([], ⟨ts, Nat.le_refl _⟩)
termination_by 2 * ts.length

/-- The fields of a block mapping up to its end. -/
def blockPairs (ts : List Token) : Except Failure (List (Node × Node) × Fewer ts) :=
  match ts with
  | .blockEnd :: rest => .ok ([], ⟨rest, by simp⟩)
  | .key :: rest => do
    let (key, ⟨rest, _⟩) ← readOr endsField true rest
    let (value, ⟨rest, _⟩) ← readValue endsField true rest
    let (pairs, ⟨rest, _⟩) ← blockPairs rest
    pure ((key, value) :: pairs, ⟨rest, by simp; omega⟩)
  | ts => refuse ts
termination_by 2 * ts.length

/-- The node after a colon, empty if there is no colon. -/
def readValue (ends : Token → Bool) (loose : Bool) (ts : List Token) :
    Except Failure (Node × NoMore ts) :=
  match ts with
  | .value :: rest => do
    let (value, ⟨rest, _⟩) ← readOr ends loose rest
    pure (value, ⟨rest, by simp; omega⟩)
  | ts => .ok (empty, ⟨ts, Nat.le_refl _⟩)
termination_by 2 * ts.length

/-- The items of a flow sequence up to its end; a key among them begins a mapping of one field. -/
def flowItems (first : Bool) (ts : List Token) : Except Failure (List Node × Fewer ts) :=
  match ts with
  | .flowSequenceEnd :: rest => .ok ([], ⟨rest, by simp⟩)
  | ts => do
    let ⟨rest, h⟩ ← afterComma first ts
    match rest, h with
    | .flowSequenceEnd :: rest, h => pure ([], ⟨rest, h⟩)
    | .key :: rest, h => do
      have : rest.length < ts.length := h
      let (key, ⟨rest, _⟩) ← readOr endsFlowKey false rest
      let (value, ⟨rest, _⟩) ← readValue endsFlowValue false rest
      let (items, ⟨rest, _⟩) ← flowItems false rest
      pure (mapping [(key, value)] :: items, ⟨rest, by omega⟩)
    | rest, h => do
      let (item, ⟨rest, _⟩) ← read false rest
      let (items, ⟨rest, _⟩) ← flowItems false rest
      pure (item :: items, ⟨rest, by omega⟩)
termination_by 2 * ts.length + 1
decreasing_by all_goals omega

/-- The fields of a flow mapping up to its end; a node without a colon is a key. -/
def flowPairs (first : Bool) (ts : List Token) : Except Failure (List (Node × Node) × Fewer ts) :=
  match ts with
  | .flowMappingEnd :: rest => .ok ([], ⟨rest, by simp⟩)
  | ts => do
    let ⟨rest, h⟩ ← afterComma first ts
    match rest, h with
    | .flowMappingEnd :: rest, h => pure ([], ⟨rest, h⟩)
    | .key :: rest, h => do
      have : rest.length < ts.length := h
      let (key, ⟨rest, _⟩) ← readOr endsFlowKey false rest
      let (value, ⟨rest, _⟩) ← readValue endsFlowValue false rest
      let (pairs, ⟨rest, _⟩) ← flowPairs false rest
      pure ((key, value) :: pairs, ⟨rest, by omega⟩)
    | rest, h => do
      let (key, ⟨rest, _⟩) ← read false rest
      let (pairs, ⟨rest, _⟩) ← flowPairs false rest
      pure ((key, empty) :: pairs, ⟨rest, by omega⟩)
termination_by 2 * ts.length + 1
decreasing_by all_goals omega

end

/-! ## Documents -/

/-- The node of the one document of a text; `none` inside if the text has no document. -/
def ofTokens (tokens : List Token) : Except Failure (Option Node) :=
  match tokens with
  | [] => .ok none
  | .documentStart :: rest => do
    let (node, ⟨rest, _⟩) ←
      if rest.isEmpty then pure (empty, ⟨rest, Nat.le_refl _⟩)
      else readOr (fun t => t = .documentStart || t = .documentEnd) false rest
    finish node rest
  | tokens => do
    let (node, ⟨rest, _⟩) ← read false tokens
    finish node rest
where
  /-- The node of the document, if only ends of documents follow. -/
  finish (node : Node) (rest : List Token) : Except Failure (Option Node) :=
    match rest.dropWhile (· = .documentEnd) with
    | [] => .ok (some node)
    | rest => refuse rest

end Node

end Criteria.Yaml
