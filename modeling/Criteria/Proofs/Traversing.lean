import Criteria.Proofs.Deciding

/-!
# Proofs/Traversing — a tree is a formula over its clauses, or fails where it first can

Evaluation comes to the nodes of a tree in post-order: left subtree, right subtree, connective.  A
node fails by itself (`Node.failure?`), and the first one that does is the failure of the tree;
if none does, the tree has the truth value of a formula (`evaluate_eq_elim`).  So neither the shape
of a tree nor the truth of a clause decides which clauses are looked at, only their order does:
`evaluate_iff_truth_or_failure`.
-/

namespace Criteria.Tree

/-! ## Formulas -/

/-- The truth of a tree as a formula, given the truth of its clauses. -/
def truth (v : Text → Bool) : Tree → Bool
  | operand clause => v clause
  | operator word left right =>
    if word = andWord then left.truth v && right.truth v else left.truth v || right.truth v

/-- The truth of a tree depends on the truth of its clauses. -/
theorem truth_congr {tree : Tree} {v v' : Text → Bool} (h : ∀ c ∈ tree.clauses, v c = v' c) :
    tree.truth v = tree.truth v' := by
  induction tree with
  | operand clause => exact h clause (List.mem_singleton_self clause)
  | operator word left right ihl ihr =>
    obtain ⟨hl, hr⟩ := forall_mem_clauses_operator.1 h
    rw [truth, truth, ihl hl, ihr hr]

/-! ## Nodes one by one -/

/-- A node without its subtrees. -/
inductive Node
  | clause (text : Text)
  | connective (word : Text)
  deriving DecidableEq, Repr

/-- The nodes of a tree, each one after its subtrees. -/
def postorder : Tree → List Node
  | operand clause => [.clause clause]
  | operator word left right => left.postorder ++ (right.postorder ++ [.connective word])

/-- The nodes in post-order are the connectives and the clauses. -/
theorem forall_mem_postorder {tree : Tree} {p : Node → Prop} :
    (∀ node ∈ tree.postorder, p node) ↔
      (∀ w ∈ tree.connectives, p (.connective w)) ∧ ∀ c ∈ tree.clauses, p (.clause c) := by
  induction tree with
  | operand clause => simp [postorder]
  | operator word left right ihl ihr =>
    simp only [postorder, List.forall_mem_append, List.forall_mem_singleton, ihl, ihr,
      forall_mem_connectives_operator, forall_mem_clauses_operator]
    tauto

/-- Why a node fails by itself: a clause has no truth value, or a connective has no meaning. -/
def Node.failure? (record : Record) : Node → Option EvaluationFailure
  | clause text =>
    match evaluateClause record text with
    | .ok _ => none
    | .error e => some e
  | connective word =>
    if isConnective word then none else some (.error (.unsupportedConnective word))

/-- The first failure of a node, in post-order. -/
def firstFailure? (record : Record) (tree : Tree) : Option EvaluationFailure :=
  tree.postorder.findSome? (Node.failure? record)

variable {record : Record}

@[simp] theorem Node.failure?_clause_eq_none_iff {clause : Text} :
    (Node.clause clause).failure? record = none ↔ ∃ b, evaluateClause record clause = .ok b := by
  rw [failure?]
  cases evaluateClause record clause <;> simp

@[simp] theorem Node.failure?_connective_eq_none_iff {word : Text} :
    (Node.connective word).failure? record = none ↔ isConnective word := by
  rw [failure?]
  split_ifs with h <;> simp [h]

/-- **The first failure of an operator** is the left side's, else the right side's, else its own. -/
theorem firstFailure?_operator (word : Text) (left right : Tree) :
    (operator word left right).firstFailure? record = (left.firstFailure? record).or
      ((right.firstFailure? record).or ((Node.connective word).failure? record)) := by
  rw [firstFailure?, postorder, List.findSome?_append, List.findSome?_append,
    List.findSome?_singleton]
  rfl

/-! ## Evaluation -/

/-- The truth of a clause, false if it has none. -/
def clauseHolds (record : Record) (clause : Text) : Bool :=
  (evaluateClause record clause).toOption.getD false

/-- A node whose subtrees have truth values fails by itself or joins them. -/
theorem join_eq_elim (record : Record) (word : Text) (l r : Bool) :
    (if word = andWord then .ok (l && r) else if word = orWord then .ok (l || r)
      else .error (.error (.unsupportedConnective word)) : Except EvaluationFailure Bool) =
      ((Node.connective word).failure? record).elim
        (.ok (if word = andWord then l && r else l || r)) .error := by
  rw [Node.failure?, isConnective]
  by_cases hand : word = andWord
  · simp [hand]
  · by_cases hor : word = orWord
    · subst hor
      simp [hand]
    · simp [hand, hor]

/-- **The first failure, or else the truth of the formula.** -/
theorem evaluate_eq_elim (record : Record) (tree : Tree) : tree.evaluate record =
    (tree.firstFailure? record).elim (.ok (tree.truth (clauseHolds record))) .error := by
  induction tree with
  | operand clause =>
    rw [evaluate, firstFailure?, postorder, List.findSome?_singleton, truth, clauseHolds,
      Node.failure?]
    cases evaluateClause record clause <;> rfl
  | operator word left right ihl ihr =>
    rw [evaluate, ihl, ihr, firstFailure?_operator, truth]
    cases left.firstFailure? record with
    | some e => rfl
    | none =>
      cases right.firstFailure? record with
      | some e => rfl
      | none => exact join_eq_elim record word _ _

/-- No node fails iff all connectives have a meaning and all clauses a truth value. -/
theorem firstFailure?_eq_none_iff {tree : Tree} : tree.firstFailure? record = none ↔
    (∀ w ∈ tree.connectives, isConnective w) ∧
      ∀ c ∈ tree.clauses, ∃ b, evaluateClause record c = .ok b := by
  rw [firstFailure?, List.findSome?_eq_none_iff, forall_mem_postorder]
  simp only [Node.failure?_connective_eq_none_iff, Node.failure?_clause_eq_none_iff]

theorem clauseHolds_of_ok {clause : Text} {b : Bool} (h : evaluateClause record clause = .ok b) :
    clauseHolds record clause = b := by
  rw [clauseHolds, h]
  rfl

/-- **A tree has a truth value iff every node has its part in it**: no clause is skipped. -/
theorem evaluate_eq_ok_iff {tree : Tree} {b : Bool} : tree.evaluate record = .ok b ↔
    (∀ w ∈ tree.connectives, isConnective w) ∧
      ∃ v, (∀ c ∈ tree.clauses, evaluateClause record c = .ok (v c)) ∧ tree.truth v = b := by
  constructor
  · intro h
    rw [evaluate_eq_elim] at h
    cases hf : tree.firstFailure? record with
    | some e => simp [hf] at h
    | none =>
      obtain ⟨hw, hc⟩ := firstFailure?_eq_none_iff.1 hf
      refine ⟨hw, clauseHolds record, fun c hm => ?_, by simpa [hf] using h⟩
      obtain ⟨b, hb⟩ := hc c hm
      rw [clauseHolds_of_ok hb, hb]
  · rintro ⟨hw, v, hc, rfl⟩
    have hf := firstFailure?_eq_none_iff.2 ⟨hw, fun c hm => ⟨v c, hc c hm⟩⟩
    rw [evaluate_eq_elim, hf]
    exact congrArg Except.ok (truth_congr fun c hm => clauseHolds_of_ok (hc c hm))

/-- **A tree fails where its first failing node does**, in post-order. -/
theorem evaluate_eq_error_iff_postorder {tree : Tree} {e : EvaluationFailure} :
    tree.evaluate record = .error e ↔ ∃ before node after,
      tree.postorder = before ++ node :: after ∧ (∀ n ∈ before, n.failure? record = none) ∧
        node.failure? record = some e := by
  have herror : tree.evaluate record = .error e ↔ tree.firstFailure? record = some e := by
    rw [evaluate_eq_elim]
    cases tree.firstFailure? record <;> simp
  rw [herror, firstFailure?, List.findSome?_eq_some_iff]
  simp only [and_comm]

/-- **Only the clauses in order and the formula matter**, if all connectives have a meaning. -/
theorem evaluate_congr {t u : Tree} (hclauses : t.clauses = u.clauses)
    (ht : ∀ w ∈ t.connectives, isConnective w) (hu : ∀ w ∈ u.connectives, isConnective w)
    (htruth : ∀ v, t.truth v = u.truth v) : t.evaluate record = u.evaluate record := by
  cases h : t.evaluate record with
  | error e =>
    rw [evaluate_eq_error_iff ht, hclauses] at h
    exact ((evaluate_eq_error_iff hu e).2 h).symm
  | ok b =>
    obtain ⟨-, v, hv, rfl⟩ := evaluate_eq_ok_iff.1 h
    exact (evaluate_eq_ok_iff.2 ⟨hu, v, hclauses ▸ hv, (htruth v).symm⟩).symm

/-- **Evaluation is the formula over all clauses, and the first failure wins.**  A tree has a truth
value iff its connectives are `AND` and `OR` only and all its clauses have truth values; it is then
that of the formula.  Otherwise it fails like the first node that fails by itself, in post-order.
So no clause is skipped for the value of another, and trees with the same clauses in order and
equivalent formulas have the same outcome. -/
theorem evaluate_iff_truth_or_failure (record : Record) :
    (∀ (tree : Tree) (b : Bool), tree.evaluate record = .ok b ↔
      (∀ w ∈ tree.connectives, w = andWord ∨ w = orWord) ∧
        ∃ v, (∀ c ∈ tree.clauses, evaluateClause record c = .ok (v c)) ∧ tree.truth v = b) ∧
    (∀ (tree : Tree) (e : EvaluationFailure), tree.evaluate record = .error e ↔
      ∃ before node after, tree.postorder = before ++ node :: after ∧
        (∀ n ∈ before, n.failure? record = none) ∧ node.failure? record = some e) ∧
    ∀ t u : Tree, t.clauses = u.clauses → (∀ w ∈ t.connectives, w = andWord ∨ w = orWord) →
      (∀ w ∈ u.connectives, w = andWord ∨ w = orWord) → (∀ v, t.truth v = u.truth v) →
      t.evaluate record = u.evaluate record := by
  have hword (w : Text) : w = andWord ∨ w = orWord ↔ isConnective w := by simp [isConnective]
  simp only [hword]
  exact ⟨fun _ _ => evaluate_eq_ok_iff, fun _ _ => evaluate_eq_error_iff_postorder,
    fun _ _ => evaluate_congr⟩

/-- By absorption the second clause does not matter to either formula, but it is missed in both
trees. -/
theorem evaluate_iff_truth_or_failure_absorption :
    let a := "a > 1".toList
    let b := "b > 2".toList
    let t := operator orWord (operator andWord (operand a) (operand b)) (operand a)
    let u := operator andWord (operand a) (operator orWord (operand b) (operand a))
    let record : Record := [("a".toList, .int 5)]
    t.clauses = u.clauses ∧ (∀ w ∈ t.connectives, w = andWord ∨ w = orWord) ∧
      (∀ w ∈ u.connectives, w = andWord ∨ w = orWord) ∧ (∀ v, t.truth v = u.truth v) ∧
      t.evaluate record = u.evaluate record ∧
      t.evaluate record = .error (.error (.missingAttribute "b".toList b)) := by
  intro a b t u record
  have ht : ∀ w ∈ t.connectives, w = andWord ∨ w = orWord := by simp [t]
  have hu : ∀ w ∈ u.connectives, w = andWord ∨ w = orWord := by simp [u]
  have hor : orWord ≠ andWord := by decide
  have htruth (v : Text → Bool) : t.truth v = u.truth v := by
    simp only [t, u, truth, if_neg hor, if_pos]
    cases v a <;> simp
  obtain ⟨-, -, hcongr⟩ := evaluate_iff_truth_or_failure record
  exact ⟨rfl, ht, hu, htruth, hcongr t u rfl ht hu htruth, by decide +kernel⟩

end Criteria.Tree
