import Criteria.Proofs.Nodes
import Criteria.Proofs.Reporting

/-!
# Proofs/Decoding — where a value that stores no tree fails

Reading fails at the first object it can reach that is too deep or makes no node, and nowhere else
(`Tree.decodeAt_eq_error_iff`); a value without such an object is a stored tree, and storing what
was read completes it (`Tree.encode_of_decodeAt`).  They are put together in `Tree.decodeWith_iff`,
for every validator that obeys the laws.
-/

namespace Criteria

/-! ## Reading -/

namespace Value.Nested

/-- What is wrong with an object in place of a node: first that it is too deep, then that its fields
make no node, for what the validator finds wrong with it. -/
inductive Offends (v : Validator) (limits : Limits) (node : Nested) : DecodeError → Prop
  | level (h : limits.storedDepth < node.level) :
      Offends v limits node (.limit ⟨.storedDepth, limits.storedDepth, node.level⟩)
  | fields {issues : List Issue} (h : node.level ≤ limits.storedDepth)
      (hnone : ∀ stored : StoredNode, ¬stored.IsMadeOf node.fields)
      (hread : v.node node.fields = .error issues) : Offends v limits node (.invalid issues)

/-- The offence of an object as reading finds it. -/
def offence? (v : Validator) (limits : Limits) (node : Nested) : Option DecodeError :=
  if limits.storedDepth < node.level then
    some (.limit ⟨.storedDepth, limits.storedDepth, node.level⟩)
  else
    match v.node node.fields with
    | .error issues => some (.invalid issues)
    | .ok _ => none

variable {v : Validator} {limits : Limits} {node : Nested}

/-- What the code finds wrong with a node is what is wrong with it, and nothing else. -/
theorem offence?_eq_some_iff (hv : v.Lawful) {e : DecodeError} :
    node.offence? v limits = some e ↔ node.Offends v limits e := by
  unfold offence?
  constructor
  · intro h
    split_ifs at h with hlevel
    · obtain rfl := Option.some.inj h
      exact .level hlevel
    · split at h
      · rename_i hread
        obtain rfl := Option.some.inj h
        refine .fields (Int.not_lt.1 hlevel) (fun stored hstored => ?_) hread
        simp [(StoredNode.node_eq_ok_iff hv).2 hstored] at hread
      · simp at h
  · rintro (hlevel | ⟨hlevel, -, hread⟩)
    · rw [if_pos hlevel]
    · rw [if_neg (Int.not_lt.2 hlevel), hread]

/-- **An object offends unless it makes a node on a level within the limit.** -/
theorem offence?_eq_none_iff (hv : v.Lawful) : node.offence? v limits = none ↔
    (node.level : Int) ≤ limits.storedDepth ∧
      ∃ stored : StoredNode, stored.IsMadeOf node.fields := by
  simp only [← StoredNode.node_eq_ok_iff hv, offence?]
  split_ifs with hlevel
  · exact iff_of_false (by simp) fun h => absurd h.1 (Int.not_le.2 hlevel)
  · cases v.node node.fields <;> simp [Int.not_lt.1 hlevel]

/-- **The first offence of a list of nodes** has nodes without one before it. -/
theorem findSome?_offence?_eq_some_iff (hv : v.Lawful) {nodes : List Nested} {e : DecodeError} :
    nodes.findSome? (offence? v limits) = some e ↔
      ∃ before node after, nodes = before ++ node :: after ∧
        (∀ earlier ∈ before, ∀ e', ¬earlier.Offends v limits e') ∧ node.Offends v limits e := by
  simp only [List.findSome?_eq_some_iff, ← offence?_eq_some_iff hv, ← ne_eq,
    ← Option.eq_none_iff_forall_ne_some, and_comm]

end Value.Nested

namespace Tree

open Value

variable {v : Validator} {limits : Limits} {level : Nat} {value : Value}

theorem decodeAt_of_ne_object (h : ∀ fields, value ≠ .object fields) :
    decodeAt v limits level value = .error (.notObject value.className) := by
  rw [decodeAt]
  exact h

/-- Step: a node with an offence of its own fails with it, whatever its children are. -/
theorem decodeAt_of_offends {fields : Fields} {e : DecodeError}
    (h : Nested.Offends v limits ⟨level, fields⟩ e) :
    decodeAt v limits level (.object fields) = .error e := by
  cases h with
  | level h => exact decodeAt_object_of_lt h fields
  | fields h _ hread =>
    rw [decodeAt_object, Limits.check_eq_ok_iff.2 h, hread]
    rfl

/-- An object that is read is on a level within the limit, and makes a node. -/
theorem of_decodeAt_object (hv : v.Lawful) {fields : Fields} {tree : Tree}
    (h : decodeAt v limits level (.object fields) = .ok tree) :
    (level : Int) ≤ limits.storedDepth ∧ ∃ stored : StoredNode, stored.IsMadeOf fields := by
  refine (@Nested.offence?_eq_none_iff v limits ⟨level, fields⟩ hv).1 ?_
  rw [Option.eq_none_iff_forall_ne_some]
  intro e he
  rw [decodeAt_of_offends ((Nested.offence?_eq_some_iff hv).1 he)] at h
  exact absurd h (by simp)

/-- An object with an offence of its own fails with it, and that is the first that it can reach. -/
theorem decodeAt_eq_error_iff_of_offence? (hv : v.Lawful) {fields : Fields} {e e' : DecodeError}
    (h : Nested.offence? v limits ⟨level, fields⟩ = some e') :
    decodeAt v limits level (.object fields) = .error e ↔
      (nodesAt level (.object fields)).findSome? (Nested.offence? v limits) = some e := by
  rw [decodeAt_of_offends ((Nested.offence?_eq_some_iff hv).1 h), nodesAt_object,
    List.findSome?_cons, h, Except.error.injEq, Option.some.injEq]

/-- **Reading an object fails with the first offence** of those that it can reach. -/
theorem decodeAt_eq_error_iff (hv : v.Lawful) {e : DecodeError}
    (h : ∃ fields, value = .object fields) :
    decodeAt v limits level value = .error e ↔
      (nodesAt level value).findSome? (Nested.offence? v limits) = some e := by
  induction value using node_induction generalizing level e with
  | other value hother => exact absurd h (not_exists.2 hother)
  | broken fields hnone =>
    cases hoffence : Nested.offence? v limits ⟨level, fields⟩ with
    | some e' => exact decodeAt_eq_error_iff_of_offence? hv hoffence
    | none => exact absurd ((Nested.offence?_eq_none_iff hv).1 hoffence).2 (not_exists.2 hnone)
  | operand fields clause hstored =>
    cases hoffence : Nested.offence? v limits ⟨level, fields⟩ with
    | some e' => exact decodeAt_eq_error_iff_of_offence? hv hoffence
    | none =>
      obtain ⟨hlevel, -⟩ := (Nested.offence?_eq_none_iff hv).1 hoffence
      rw [decodeAt_of_operand hv hlevel hstored, nodesAt_of_operand hstored,
        List.findSome?_cons, hoffence]
      simp
  | operator fields word left right hstored ihl ihr =>
    cases hoffence : Nested.offence? v limits ⟨level, fields⟩ with
    | some e' => exact decodeAt_eq_error_iff_of_offence? hv hoffence
    | none =>
      obtain ⟨hlevel, -⟩ := (Nested.offence?_eq_none_iff hv).1 hoffence
      have hl (e) : decodeAt v limits (level + 1) (.object (Fields.ofEntries left)) = .error e ↔
          (nodesAt (level + 1) (.object (Fields.ofEntries left))).findSome?
            (Nested.offence? v limits) = some e := ihl ⟨_, rfl⟩
      have hr (e) : decodeAt v limits (level + 1) (.object (Fields.ofEntries right)) = .error e ↔
          (nodesAt (level + 1) (.object (Fields.ofEntries right))).findSome?
            (Nested.offence? v limits) = some e := ihr ⟨_, rfl⟩
      rw [decodeAt_of_operator hv hlevel hstored, nodesAt_of_operator hstored,
        List.findSome?_cons, hoffence]
      simp only [Outcome.bind_eq_error_iff, hl, hr, reduceCtorEq, and_false, exists_const,
        or_false, exists_and_right, Outcome.exists_ok_iff_eq_none hl, List.findSome?_append,
        Option.or_eq_some_iff]

/-- **Storing what was read completes it.** -/
theorem encode_of_decodeAt (hv : v.Lawful) {tree : Tree}
    (h : decodeAt v limits level value = .ok tree) : tree.encode = value.completed := by
  induction value using node_induction generalizing level tree with
  | other value hother =>
    rw [decodeAt_of_ne_object hother] at h
    exact absurd h (by simp)
  | broken fields hnone => exact absurd (of_decodeAt_object hv h).2 (not_exists.2 hnone)
  | operand fields clause hstored =>
    rw [decodeAt_of_operand hv (of_decodeAt_object hv h).1 hstored] at h
    obtain rfl := Except.ok.inj h
    exact (completed_of_operand hstored).symm
  | operator fields word left right hstored ihl ihr =>
    rw [decodeAt_of_operator hv (of_decodeAt_object hv h).1 hstored] at h
    obtain ⟨l, hl, h⟩ := Outcome.bind_eq_ok_iff.1 h
    obtain ⟨r, hr, h⟩ := Outcome.bind_eq_ok_iff.1 h
    obtain rfl := Except.ok.inj h
    exact (completed_of_operator hstored (ihl hl) (ihr hr)).symm

/-- A value is read iff it stores a tree within the limit. -/
theorem exists_decodeWith_eq_ok_iff (hv : v.Lawful) {data : Value} :
    (∃ tree, decodeWith v limits data = .ok tree) ↔
      data.IsEncoding ∧ ∀ node ∈ data.nodes, (node.level : Int) ≤ limits.storedDepth := by
  rw [isEncoding_iff 1, decodeWith, nodes]
  by_cases h : ∃ fields, data = .object fields
  · rw [Outcome.exists_ok_iff_eq_none fun e => decodeAt_eq_error_iff hv h,
      List.findSome?_eq_none_iff]
    simp only [Nested.offence?_eq_none_iff hv]
    exact ⟨fun hall => ⟨⟨h, fun n hn => (hall n hn).2⟩, fun n hn => (hall n hn).1⟩,
      fun hall n hn => ⟨hall.2 n hn, hall.1.2 n hn⟩⟩
  · rw [decodeAt_of_ne_object (not_exists.1 h)]
    exact iff_of_false (by simp) fun hall => h hall.1.1

/-- What is not read fails with the first offence, or is no object. -/
theorem decodeWith_eq_error_iff (hv : v.Lawful) {data : Value} {e : DecodeError} :
    decodeWith v limits data = .error e ↔
    ((∀ fields, data ≠ .object fields) ∧ e = .notObject data.className) ∨
    ∃ before node after, data.nodes = before ++ node :: after ∧
      (∀ earlier ∈ before, ∀ e', ¬Nested.Offends v limits earlier e') ∧
      Nested.Offends v limits node e := by
  rw [decodeWith, nodes]
  by_cases h : ∃ fields, data = .object fields
  · have hobject : ¬∀ fields, data ≠ .object fields := fun hne => (not_exists.2 hne) h
    rw [decodeAt_eq_error_iff hv h, Nested.findSome?_offence?_eq_some_iff hv]
    exact (or_iff_right fun hall => hobject hall.1).symm
  · have hne := not_exists.1 h
    rw [decodeAt_of_ne_object hne, nodesAt_of_ne_object hne, Except.error.injEq]
    simp [hne, eq_comm]

/-- **A value is read iff it stores a tree within the limit**, and it is read as the tree that it
stores, by every validator that obeys the laws: storing that tree again gives the value, in order
and completed.  Otherwise reading fails for the first reason there is: the value is no object, or
else the first object that reading can reach, each before those below it and the left child before
the right one, which is too deep or makes no node.  Too deep is reported as the exceeded limit,
provided its two numbers can be written; anything else as a value that is no stored tree. -/
theorem decodeWith_iff (v : Validator) (hv : v.Lawful) (limits : Limits) (data : Value) :
    ((∃ tree, decodeWith v limits data = .ok tree) ↔
      data.IsEncoding ∧ ∀ node ∈ data.nodes, (node.level : Int) ≤ limits.storedDepth) ∧
    (∀ tree, decodeWith v limits data = .ok tree → tree.encode = data.completed) ∧
    (∀ e, decodeWith v limits data = .error e ↔
      ((∀ fields, data ≠ .object fields) ∧ e = .notObject data.className) ∨
      ∃ before node after, data.nodes = before ++ node :: after ∧
        (∀ earlier ∈ before, ∀ e', ¬Nested.Offends v limits earlier e') ∧
        Nested.Offends v limits node e) ∧
    ∀ e, decodeWith v limits data = .error e →
      (∀ x, e = .limit x →
        (x.IsWritable → e.report.kind = .limitExceeded) ∧
        (¬x.IsWritable → e.report = { kind := .badNumber })) ∧
      ((∀ x, e ≠ .limit x) → e.report.kind = .decode) := by
  refine ⟨exists_decodeWith_eq_ok_iff hv, fun tree h => encode_of_decodeAt hv h,
    fun e => decodeWith_eq_error_iff hv, fun e _ => ⟨?_, fun h => ?_⟩⟩
  · rintro x rfl
    exact ⟨LimitExceeded.kind_report_of_isWritable, LimitExceeded.report_of_not_isWritable⟩
  · cases e with
    | limit x => exact absurd rfl (h x)
    | _ => rfl

/-- A leaf without children, a child with bytes as keys and bytes as a connective are read; an
unknown field on the left comes before a right branch that is too deep. -/
theorem decodeWith_iff_offences :
    let limits : Limits := { combinedRules := 1, depth := 1 }
    let entries : List (Text × Value) := [("value".toList, .text "a > 1".toList),
      ("kind".toList, .text "operand".toList)]
    let leaf : Value := .object (Fields.ofEntries entries)
    let bytesLeaf : Value := .object [(.bytes [118, 97, 108, 117, 101], .text "a > 1".toList),
      (.bytes [107, 105, 110, 100], .text "operand".toList)]
    let fields (left right : Value) : Fields := [(.text "right".toList, right),
      (.text "left".toList, left), (.text "kind".toList, .text "operator".toList),
      (.text "value".toList, .bytes [65, 78, 68])]
    let stray : Fields := [(.text "note".toList, .null)]
    let tree := operator andWord (operand "a > 1".toList) (operand "a > 1".toList)
    Validator.Lawful Schema.validate ∧
    (decodeWith Schema.validate limits (.object (fields leaf bytesLeaf)) = .ok tree ∧
      tree.encode = (Value.object (fields leaf bytesLeaf)).completed) ∧
    ∃ e, decodeWith Schema.validate limits
        (.object (fields (.object stray) (.object (fields leaf leaf)))) = .error e ∧
      e.report.kind = .decode := by
  intro limits entries leaf bytesLeaf fields stray tree
  have hv := Schema.lawful_validate
  have hlevel : ((1 : Nat) : Int) ≤ limits.storedDepth := by decide
  have hnode {fields : Fields} {node : StoredNode}
      (h : Validator.node Schema.validate fields = .ok node) : node.IsMadeOf fields :=
    (StoredNode.node_eq_ok_iff hv).1 h
  have hleaf : decodeAt Schema.validate limits 2 leaf = .ok (operand "a > 1".toList) :=
    decodeAt_of_operand hv (show ((2 : Nat) : Int) ≤ limits.storedDepth by decide) (hnode rfl)
  have hread : decodeWith Schema.validate limits (.object (fields leaf bytesLeaf)) = .ok tree := by
    have hroot : (StoredNode.operator andWord entries entries).IsMadeOf (fields leaf bytesLeaf) :=
      hnode rfl
    rw [decodeWith, decodeAt_of_operator hv hlevel hroot, hleaf]
    rfl
  refine ⟨hv, ⟨hread, (decodeWith_iff _ hv limits _).2.1 tree hread⟩, ?_⟩
  let root : Fields := fields (.object stray) (.object (fields leaf leaf))
  have hroot : (StoredNode.operator andWord [("note".toList, .null)]
      [("right".toList, leaf), ("left".toList, leaf), ("kind".toList, .text "operator".toList),
        ("value".toList, .bytes [65, 78, 68])]).IsMadeOf root := hnode rfl
  have hnodes : (Value.object root).nodes =
      [⟨1, root⟩] ++ ⟨2, stray⟩ :: nodesAt 2 (.object (fields leaf leaf)) := by
    rw [nodes, nodesAt_of_operator hroot, nodesAt_object 2]
    rfl
  have hbefore : Nested.offence? Schema.validate limits ⟨1, root⟩ = none :=
    (Nested.offence?_eq_none_iff hv).2 ⟨hlevel, _, hroot⟩
  have hstray : Nested.Offends Schema.validate limits ⟨2, stray⟩ (.invalid _) :=
    (Nested.offence?_eq_some_iff hv).1 rfl
  have hiff := decodeWith_iff _ hv limits (.object root)
  have herror := (hiff.2.2.1 _).2 (.inr ⟨_, _, _, hnodes,
    List.forall_mem_singleton.2 fun e' h =>
      Option.some_ne_none e' (((Nested.offence?_eq_some_iff hv).2 h).symm.trans hbefore), hstray⟩)
  exact ⟨_, herror, (hiff.2.2.2 _ herror).2 (by simp)⟩

/-- **The first offence is not always reported**: a level can exceed a limit that has too many
digits to be written, although each of the two bounds it is the sum of can be. -/
theorem not_forall_report_offence :
    ¬∀ (limits : Limits) (data : Value) before node after, data.nodes = before ++ node :: after →
      (∀ earlier ∈ before, ∀ e, ¬Nested.Offends Schema.validate limits earlier e) →
      limits.storedDepth < node.level →
      ∃ e, decode limits data = .error e ∧ e.report.kind = .limitExceeded := by
  let bound : Int := -(Nat.pow 10 Text.maxDigits - 1 : Nat)
  let limits : Limits := { combinedRules := bound, depth := bound }
  intro h
  have hlevel : limits.storedDepth < (1 : Nat) := by decide +kernel
  obtain ⟨e, he, hkind⟩ := h limits (.object []) [] ⟨1, []⟩ [] (nodesAt_object 1 []) (by simp)
    hlevel
  rw [decode, decodeWith, decodeAt_object_of_lt hlevel] at he
  have hwritten : ¬(⟨.storedDepth, limits.storedDepth, (1 : Nat)⟩ : LimitExceeded).IsWritable := by
    decide +kernel
  rw [← Except.error.inj he, DecodeError.report,
    LimitExceeded.report_of_not_isWritable hwritten] at hkind
  exact absurd hkind (by decide)

end Tree

end Criteria
