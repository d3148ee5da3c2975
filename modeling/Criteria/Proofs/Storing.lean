import Criteria.Proofs.Reading
import Criteria.Proofs.StoredNode
import Criteria.Report

/-!
# Proofs/Storing — a stored tree is read back, up to the depth limit

What `encode` stores is read one node at a time (`decodeAt_encode_operand`,
`decodeAt_encode_operator`).  So a tree whose connectives have a meaning is read back iff its levels
are all within the limit, and otherwise the failure is the same wherever the tree is too deep:
reading stops on the first level beyond the limit (`decodeAt_encode`).
-/

namespace Criteria

/-! ## One node -/

/-- The entries of the object that stores a tree. -/
def Tree.entries : Tree → List (Text × Value)
  | operand clause => [("kind".toList, .text "operand".toList), ("value".toList, .text clause),
      ("left".toList, .null), ("right".toList, .null)]
  | operator word left right => [("kind".toList, .text "operator".toList),
      ("value".toList, .text word), ("left".toList, left.encode), ("right".toList, right.encode)]

theorem Tree.encode_eq (tree : Tree) : tree.encode = .object (Fields.ofEntries tree.entries) := by
  cases tree <;> rfl

theorem Tree.hasEntries_encode (tree : Tree) : tree.encode.HasEntries tree.entries := by
  refine ⟨_, tree.entries, tree.encode_eq, List.forall₂_map_left_iff.2 (List.forall₂_same.2 ?_), ?_⟩
  · exact fun _ _ => ⟨.inl rfl, rfl⟩
  · cases tree <;> rfl

namespace StoredNode

variable {v : Validator}

/-- The parts of a stored node are the ones it is stored with. -/
theorem hasParts_stored (kind s : Text) {left right : Value}
    {leftEntries rightEntries : Option (List (Text × Value))}
    (hleft : Value.Says Value.HasEntries (some left) leftEntries)
    (hright : Value.Says Value.HasEntries (some right) rightEntries) :
    HasParts [(.text "kind".toList, .text kind), (.text "value".toList, .text s),
      (.text "left".toList, left), (.text "right".toList, right)] kind s leftEntries
      rightEntries where
  mem_fieldNames := by simp [Tree.fieldNames]
  kind_eq := rfl
  denotes := ⟨_, rfl, .inl rfl⟩
  left := hleft
  right := hright

theorem isMadeOf_operand (clause : Text) :
    (operand clause).IsMadeOf (Fields.ofEntries (Tree.operand clause).entries) :=
  hasParts_stored _ clause (.inr rfl) (.inr rfl)

/-- The fields of a stored inner node agree with its kind iff its connective has a meaning. -/
theorem node_operator (hv : v.Lawful) (word : Text) (left right : Tree) :
    v.node (Fields.ofEntries (Tree.operator word left right).entries) =
      if isConnective word then .ok (operator word left.entries right.entries)
      else Checked.fault (.shape (.unknownConnective word)) := by
  have hparts : HasParts (Fields.ofEntries (Tree.operator word left right).entries)
      "operator".toList word (some left.entries) (some right.entries) :=
    hasParts_stored _ word ⟨_, rfl, left.hasEntries_encode⟩ ⟨_, rfl, right.hasEntries_encode⟩
  rw [hparts.node_eq hv (.inl rfl), ofParts, if_pos rfl]

/-- The connective of a stored inner node has a meaning. -/
theorem isConnective_of_node (hv : v.Lawful) {fields : Fields} {word : Text}
    {left right : List (Text × Value)} (h : v.node fields = .ok (operator word left right)) :
    isConnective word :=
  ((node_eq_ok_iff hv).1 h).2

end StoredNode

namespace Tree

variable {v : Validator} {limits : Limits} {level : Nat}

/-- **One step of reading**: the level of a node, then its fields, then its children. -/
theorem decodeAt_object (v : Validator) (limits : Limits) (level : Nat) (fields : Fields) :
    decodeAt v limits level (.object fields) =
      (limits.check .storedDepth level).mapError .limit >>= fun _ =>
        match v.node fields with
        | .error issues => .error (.invalid issues)
        | .ok (.operand clause) => .ok (operand clause)
        | .ok (.operator word left right) =>
          decodeAt v limits (level + 1) (.object (Fields.ofEntries left)) >>= fun l =>
            decodeAt v limits (level + 1) (.object (Fields.ofEntries right)) >>= fun r =>
              .ok (operator word l r) := by
  rw [decodeAt]
  split <;> rename_i h <;> rw [h] <;> rfl

/-- A node on a level beyond the limit is not looked at. -/
theorem decodeAt_object_of_lt (h : limits.storedDepth < level) (fields : Fields) :
    decodeAt v limits level (.object fields) =
      .error (.limit ⟨.storedDepth, limits.storedDepth, level⟩) := by
  rw [decodeAt_object, Limits.check_eq_error_iff.2 ⟨h, rfl⟩]
  rfl

/-- Step: a node that the validator takes for an operand is that operand. -/
theorem decodeAt_of_operand (hv : v.Lawful) {fields : Fields} {clause : Text}
    (hlevel : (level : Int) ≤ limits.storedDepth)
    (h : (StoredNode.operand clause).IsMadeOf fields) :
    decodeAt v limits level (.object fields) = .ok (operand clause) := by
  rw [decodeAt_object, Limits.check_eq_ok_iff.2 hlevel, (StoredNode.node_eq_ok_iff hv).2 h]
  rfl

/-- Step: a node that the validator takes for an operator has both children decoded one level down,
the left one first. -/
theorem decodeAt_of_operator (hv : v.Lawful) {fields : Fields} {word : Text}
    {left right : List (Text × Value)} (hlevel : (level : Int) ≤ limits.storedDepth)
    (h : (StoredNode.operator word left right).IsMadeOf fields) :
    decodeAt v limits level (.object fields) =
      decodeAt v limits (level + 1) (.object (Fields.ofEntries left)) >>= fun l =>
        decodeAt v limits (level + 1) (.object (Fields.ofEntries right)) >>= fun r =>
          .ok (operator word l r) := by
  rw [decodeAt_object, Limits.check_eq_ok_iff.2 hlevel, (StoredNode.node_eq_ok_iff hv).2 h]
  rfl

theorem decodeAt_encode_of_lt (h : limits.storedDepth < level) (tree : Tree) :
    decodeAt v limits level tree.encode =
      .error (.limit ⟨.storedDepth, limits.storedDepth, level⟩) := by
  rw [encode_eq]
  exact decodeAt_object_of_lt h _

/-- A stored leaf is read back. -/
theorem decodeAt_encode_operand (hv : v.Lawful) (h : level ≤ limits.storedDepth) (clause : Text) :
    decodeAt v limits level (operand clause).encode = .ok (operand clause) := by
  rw [encode_eq]
  exact decodeAt_of_operand hv h (StoredNode.isMadeOf_operand clause)

/-- A stored inner node is read back from its children, the left one first. -/
theorem decodeAt_encode_operator (hv : v.Lawful) (h : level ≤ limits.storedDepth) (word : Text)
    (left right : Tree) :
    decodeAt v limits level (operator word left right).encode =
      if isConnective word then
        decodeAt v limits (level + 1) left.encode >>= fun l =>
          decodeAt v limits (level + 1) right.encode >>= fun r => .ok (operator word l r)
      else .error (.invalid [⟨[], .shape (.unknownConnective word)⟩]) := by
  rw [encode_eq (operator word left right), decodeAt_object, Limits.check_eq_ok_iff.2 h,
    StoredNode.node_operator hv, encode_eq left, encode_eq right]
  split_ifs <;> rfl

/-! ## All nodes -/

variable {tree : Tree}

/-- **A tree whose levels are within the limit is read back.** -/
theorem decodeAt_encode (hv : v.Lawful) (h : ∀ w ∈ tree.connectives, isConnective w)
    (hd : (level + tree.depth : Int) ≤ limits.storedDepth + 1) :
    decodeAt v limits level tree.encode = .ok tree := by
  induction tree generalizing level with
  | operand clause => exact decodeAt_encode_operand hv (operand_levels_iff.1 hd) clause
  | operator word left right ihl ihr =>
    rw [forall_mem_connectives_operator] at h
    obtain ⟨hleft, hw, hright⟩ := h
    obtain ⟨hl, hdl, hdr⟩ := operator_levels_iff.1 hd
    rw [decodeAt_encode_operator hv hl, if_pos hw, ihl hleft hdl, ihr hright hdr]
    rfl

/-- **A tree that is too deep is refused on the first level beyond the limit**, whichever branch
reaches it. -/
theorem decodeAt_encode_of_tooDeep (hv : v.Lawful) (h : ∀ w ∈ tree.connectives, isConnective w)
    (hd : limits.storedDepth + 1 < level + tree.depth) :
    decodeAt v limits level tree.encode = .error (.limit ⟨.storedDepth, limits.storedDepth,
      max level (limits.storedDepth + 1)⟩) := by
  induction tree generalizing level with
  | operand clause =>
    have hl : limits.storedDepth < level := by simpa [depth] using hd
    rw [decodeAt_encode_of_lt hl, Int.max_eq_left (Int.add_one_le_of_lt hl)]
  | operator word left right ihl ihr =>
    rw [forall_mem_connectives_operator] at h
    obtain ⟨hleft, hw, hright⟩ := h
    by_cases hl : (level : Int) ≤ limits.storedDepth
    · have hmax : max ((level + 1 : Nat) : Int) (limits.storedDepth + 1) =
          max (level : Int) (limits.storedDepth + 1) := by omega
      rw [decodeAt_encode_operator hv hl, if_pos hw, ← hmax]
      rcases operator_tooDeep hd with hdl | ⟨hdl, hdr⟩
      · rw [ihl hleft hdl]
        rfl
      · rw [decodeAt_encode hv hleft hdl, ihr hright hdr]
        rfl
    · have hl := Int.not_le.1 hl
      rw [decodeAt_encode_of_lt hl, Int.max_eq_left (Int.add_one_le_of_lt hl)]

/-- **Only trees whose connectives have a meaning are read back.** -/
theorem isConnective_of_decodeAt_encode (hv : v.Lawful) {t : Tree}
    (h : decodeAt v limits level tree.encode = .ok t) : ∀ w ∈ tree.connectives, isConnective w := by
  induction tree generalizing level t with
  | operand clause => simp
  | operator word left right ihl ihr =>
    by_cases hl : (level : Int) ≤ limits.storedDepth
    · rw [decodeAt_encode_operator hv hl] at h
      split_ifs at h with hw
      obtain ⟨l, hleft, h⟩ := Outcome.bind_eq_ok_iff.1 h
      obtain ⟨r, hright, -⟩ := Outcome.bind_eq_ok_iff.1 h
      rw [forall_mem_connectives_operator]
      exact ⟨ihl hleft, hw, ihr hright⟩
    · rw [decodeAt_encode_of_lt (Int.not_le.1 hl)] at h
      exact absurd h (by simp)

/-- **The connectives of a tree that is read back have a meaning**, whatever it is read from. -/
theorem isConnective_of_decodeAt (hv : v.Lawful) {value : Value}
    (h : decodeAt v limits level value = .ok tree) : ∀ w ∈ tree.connectives, isConnective w := by
  induction tree generalizing level value with
  | operand clause => simp
  | operator word left right ihl ihr =>
    cases value with
    | object fields =>
      rw [decodeAt_object] at h
      obtain ⟨-, -, h⟩ := Outcome.bind_eq_ok_iff.1 h
      split at h
      · exact absurd h (by simp)
      · exact absurd h (by simp)
      · rename_i hread
        obtain ⟨l, hl, h⟩ := Outcome.bind_eq_ok_iff.1 h
        obtain ⟨r, hr, h⟩ := Outcome.bind_eq_ok_iff.1 h
        obtain ⟨rfl, rfl, rfl⟩ := by simpa using h
        rw [forall_mem_connectives_operator]
        exact ⟨ihl hl, StoredNode.isConnective_of_node hv hread, ihr hr⟩
    | _ => exact absurd h (by simp [decodeAt])

/-! ## As callers see it -/

/-- **A stored tree is read back, up to the depth limit.**  If all connectives have a meaning, it is
read back iff its depth is within the limit; otherwise the limit is reported, with the first level
beyond it, wherever the tree is too deep.  A limit or level with too many digits to be written has
no such report.  If some connective has no meaning, no tree is read. -/
theorem decode_encode (limits : Limits) (tree : Tree) :
    ((∀ w ∈ tree.connectives, isConnective w) →
      ((tree.depth : Int) ≤ limits.storedDepth → decode limits tree.encode = .ok tree) ∧
      (limits.storedDepth < tree.depth →
        let bound := limits.storedDepth
        let actual := max 1 (limits.storedDepth + 1)
        decode limits tree.encode = .error (.limit ⟨.storedDepth, bound, actual⟩) ∧
        (decode limits tree.encode).mapError DecodeError.report = .error (
          if Text.isWritable bound && Text.isWritable actual then
            { kind := .limitExceeded, limitName := "max_tree_depth".toList, limit := bound, actual,
              message := limitMessage "max_tree_depth".toList bound actual }
          else { kind := .badNumber }))) ∧
    ((∃ w ∈ tree.connectives, ¬isConnective w) → ∀ t, decode limits tree.encode ≠ .ok t) := by
  refine ⟨fun h => ⟨fun hd => ?_, fun hd => ?_⟩, fun ⟨w, hm, hw⟩ t ht => ?_⟩
  · exact decodeAt_encode Schema.lawful_validate h (by omega)
  · have he : decode limits tree.encode = .error (.limit ⟨.storedDepth, limits.storedDepth,
        max 1 (limits.storedDepth + 1)⟩) :=
      decodeAt_encode_of_tooDeep Schema.lawful_validate h (by omega)
    exact ⟨he, by rw [he]; rfl⟩
  · exact hw (isConnective_of_decodeAt_encode Schema.lawful_validate ht w hm)

/-- The left branch is within the limit, the right one is not. -/
theorem decode_encode_deep_right :
    let limits : Limits := { combinedRules := 0, depth := 2 }
    let tree := operator andWord (operand "a > 1".toList)
      (operator orWord (operand "b < 2".toList) (operand "c = 3".toList))
    (∀ w ∈ tree.connectives, isConnective w) ∧ limits.storedDepth < tree.depth ∧
      decode limits tree.encode = .error (.limit ⟨.storedDepth, 2, 3⟩) := by
  intro limits tree
  have hw : ∀ w ∈ tree.connectives, isConnective w := List.all_eq_true.1 rfl
  have hd : limits.storedDepth < tree.depth := by decide
  exact ⟨hw, hd, (((decode_encode limits tree).1 hw).2 hd).1⟩

/-- **The depth limit is not always reported**: the sum of two bounds can have a digit more than
may be written, although each of the two can be written itself. -/
theorem not_forall_report_limitExceeded :
    ¬∀ (limits : Limits) (tree : Tree), (∀ w ∈ tree.connectives, isConnective w) →
      limits.storedDepth < tree.depth → ∃ report : Report,
        (decode limits tree.encode).mapError DecodeError.report = .error report ∧
          report.kind = .limitExceeded := by
  let bound : Int := -(Nat.pow 10 Text.maxDigits - 1 : Nat)
  let limits : Limits := { combinedRules := bound, depth := bound }
  intro h
  have hd : limits.storedDepth < (1 : Nat) := by decide +kernel
  obtain ⟨report, hr, hk⟩ := h limits (operand "a > 1".toList) (by simp) hd
  rw [decode, decodeWith, decodeAt_encode_of_lt hd] at hr
  have hkind : (DecodeError.limit ⟨.storedDepth, limits.storedDepth, (1 : Nat)⟩).report.kind =
      .badNumber := by decide +kernel
  rw [← Except.error.inj hr, hkind] at hk
  exact absurd hk (by decide)

end Tree

end Criteria
