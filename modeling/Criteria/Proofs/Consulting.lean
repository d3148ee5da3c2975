import Criteria.Proofs.Comparing
import Criteria.Proofs.Traversing

/-!
# Proofs/Consulting — which attributes of a record an evaluation asks for

A clause of three words asks for the attribute that is the first of them, and any other clause for
none (`Text.attribute?`).  So the outcome for two records is the same, errors included, if they
agree on the attributes of the tree (`Tree.evaluate_of_agrees`).  A record that says more gives
another outcome only where an attribute was missing (`Tree.evaluate_of_isExtendedBy`).
-/

namespace Criteria

/-- The attribute that a clause asks for: the first of its words, if they are three. -/
def Text.attribute? (clause : Text) : Option Text :=
  match words clause with
  | [name, _, _] => some name
  | _ => none

/-- The attributes that a tree asks for. -/
def Tree.attributes (tree : Tree) : List Text := tree.clauses.filterMap Text.attribute?

@[simp] theorem Tree.mem_attributes_operand {clause name : Text} :
    name ∈ (operand clause).attributes ↔ clause.attribute? = some name := by
  simp [attributes]

@[simp] theorem Tree.attributes_operator (word : Text) (left right : Tree) :
    (operator word left right).attributes = left.attributes ++ right.attributes :=
  List.filterMap_append

/-! ## Records with something in common -/

namespace Record

/-- **Each of the attributes is in neither record, or in both with the same value.** -/
def Agrees (names : List Text) (r r' : Record) : Prop :=
  ∀ name ∈ names, r.find? name = r'.find? name

/-- The other record has every attribute with the value it has here. -/
def IsExtendedBy (r r' : Record) : Prop :=
  ∀ name value, r.find? name = some value → r'.find? name = some value

/-- A record that agrees on every attribute of another has at least those. -/
theorem isExtendedBy_of_agrees {r r' : Record} (h : r.Agrees (r.map Prod.fst) r') :
    r.IsExtendedBy r' := by
  intro name value hvalue
  obtain ⟨entry, hentry, -⟩ := Option.map_eq_some_iff.1 hvalue
  obtain rfl : entry.1 = name := by simpa using List.find?_some hentry
  rw [← h entry.1 (List.mem_map_of_mem (List.mem_of_find?_eq_some hentry)), hvalue]

end Record

/-! ## Conditions and clauses -/

variable {r r' : Record}

namespace Condition

/-- A condition looks at one attribute only. -/
theorem holds_congr {c : Condition} (h : r.find? c.name = r'.find? c.name) :
    c.holds r = c.holds r' := by
  rw [holds, holds, h]

/-- A condition on an attribute that is not there has no other failure. -/
theorem holds_of_find?_eq_none {c : Condition} (h : r.find? c.name = none) :
    c.holds r = .error (.missingAttribute c.name c.source) := by
  rw [holds, h]

theorem exists_find?_of_holds {c : Condition} {b : Bool} (h : c.holds r = .ok b) :
    ∃ value, r.find? c.name = some value := by
  refine Option.ne_none_iff_exists'.1 fun hnone => ?_
  rw [holds_of_find?_eq_none hnone] at h
  exact absurd h (by simp)

theorem attribute?_of_read {clause : Text} {c : Condition} (h : read clause = .ok c) :
    clause.attribute? = some c.name := by
  obtain ⟨raw, hwords, -⟩ := read_eq_ok_iff.1 h
  rw [Text.attribute?, hwords]

end Condition

namespace Tree

/-- A clause depends on the record through the attribute that it names. -/
theorem evaluateClause_congr {clause : Text}
    (h : ∀ name, clause.attribute? = some name → r.find? name = r'.find? name) :
    evaluateClause r clause = evaluateClause r' clause := by
  cases hread : Condition.read clause with
  | error e =>
    rw [evaluateClause, evaluateClause, hread]
    rfl
  | ok c =>
    have hfind := h c.name (Condition.attribute?_of_read hread)
    rw [Condition.evaluateClause_of_read hread, Condition.evaluateClause_of_read hread,
      Condition.holds_congr hfind]

/-- A clause with a truth value is a condition on an attribute that is there. -/
theorem exists_find?_of_evaluateClause {clause : Text} {b : Bool}
    (h : evaluateClause r clause = .ok b) :
    ∃ name value, clause.attribute? = some name ∧ r.find? name = some value := by
  obtain ⟨c, hread, hholds⟩ := Outcome.bind_eq_ok_iff.1 h
  obtain ⟨value, hvalue⟩ :=
    Condition.exists_find?_of_holds (Outcome.mapError_eq_ok_iff.1 hholds)
  exact ⟨c.name, value, Condition.attribute?_of_read hread, hvalue⟩

/-- A record that says more changes the outcome of a clause only if its attribute was missing. -/
theorem evaluateClause_of_isExtendedBy (h : r.IsExtendedBy r') (clause : Text) :
    evaluateClause r' clause = evaluateClause r clause ∨ ∃ name,
      evaluateClause r clause = .error (.error (.missingAttribute name clause)) := by
  cases hread : Condition.read clause with
  | error e =>
    left
    rw [evaluateClause, evaluateClause, hread]
    rfl
  | ok c =>
    rw [Condition.evaluateClause_of_read hread, Condition.evaluateClause_of_read hread]
    cases hfind : r.find? c.name with
    | none =>
      obtain ⟨-, -, -, rfl⟩ := Condition.read_eq_ok_iff.1 hread
      exact .inr ⟨c.name, by rw [Condition.holds_of_find?_eq_none hfind]; rfl⟩
    | some value =>
      exact .inl (by rw [Condition.holds_congr (hfind.trans (h _ _ hfind).symm)])

/-! ## Trees -/

/-- **Records that agree on the attributes of a tree give it the same outcome.** -/
theorem evaluate_of_agrees {tree : Tree} (h : r.Agrees tree.attributes r') :
    tree.evaluate r = tree.evaluate r' := by
  induction tree with
  | operand clause =>
    exact evaluateClause_congr fun name hname => h name (mem_attributes_operand.2 hname)
  | operator word left right ihl ihr =>
    rw [Record.Agrees, attributes_operator, List.forall_mem_append] at h
    rw [evaluate, evaluate, ihl h.1, ihr h.2]

/-- **A truth value needs every attribute of the tree.** -/
theorem exists_find?_of_evaluate {tree : Tree} {b : Bool} (h : tree.evaluate r = .ok b) :
    ∀ name ∈ tree.attributes, ∃ value, r.find? name = some value := by
  obtain ⟨-, v, hv, -⟩ := evaluate_eq_ok_iff.1 h
  intro name hname
  obtain ⟨clause, hclause, hattribute⟩ := List.mem_filterMap.1 hname
  obtain ⟨name', value, hname', hvalue⟩ := exists_find?_of_evaluateClause (hv clause hclause)
  obtain rfl := Option.some.inj (hname'.symm.trans hattribute)
  exact ⟨value, hvalue⟩

/-- **A record that says more changes the outcome only if an attribute was missing.** -/
theorem evaluate_of_isExtendedBy (h : r.IsExtendedBy r') (tree : Tree) :
    tree.evaluate r' = tree.evaluate r ∨ ∃ name clause,
      tree.evaluate r = .error (.error (.missingAttribute name clause)) := by
  induction tree with
  | operand clause =>
    refine (evaluateClause_of_isExtendedBy h clause).imp_right ?_
    rintro ⟨name, hmissing⟩
    exact ⟨name, clause, hmissing⟩
  | operator word left right ihl ihr =>
    rw [evaluate, evaluate]
    rcases ihl with hl | ⟨name, clause, hl⟩
    · rw [hl]
      cases left.evaluate r with
      | error e => exact .inl rfl
      | ok b =>
        rcases ihr with hr | ⟨name, clause, hr⟩
        · exact .inl (by rw [hr])
        · exact .inr ⟨name, clause, by rw [hr]; rfl⟩
    · exact .inr ⟨name, clause, by rw [hl]; rfl⟩

/-- **An evaluation depends on the attributes of its tree only.**  Records that agree on them give
the same outcome, be it a truth value or an error with its message.  A truth value needs all of
them, so a record that says more keeps it. -/
theorem evaluate_depends_on_attributes (tree : Tree) :
    (∀ r r' : Record, r.Agrees tree.attributes r' → tree.evaluate r = tree.evaluate r') ∧
    ∀ (r : Record) (b : Bool), tree.evaluate r = .ok b →
      (∀ name ∈ tree.attributes, ∃ value, r.find? name = some value) ∧
      ∀ r' : Record, r.IsExtendedBy r' → tree.evaluate r' = .ok b := by
  refine ⟨fun r r' => evaluate_of_agrees, fun r b h => ⟨exists_find?_of_evaluate h, ?_⟩⟩
  intro r' hr
  rcases evaluate_of_isExtendedBy hr tree with hsame | ⟨name, clause, hmissing⟩
  · rw [hsame, h]
  · rw [h] at hmissing
    exact absurd hmissing (by simp)

/-- Other attributes and their order do not matter, be `b` missing in both records or in none. -/
theorem evaluate_depends_on_attributes_reordered :
    let tree := operator orWord (operand "a > 1".toList) (operand "b = x".toList)
    let a : Text × Value := ("a".toList, .int 5)
    let b : Text × Value := ("b".toList, .text "y".toList)
    let c : Text × Value := ("c".toList, .null)
    Record.Agrees tree.attributes [a] [c, a] ∧ Record.IsExtendedBy [a, b] [b, c, a] ∧
      tree.evaluate [c, a] =
        .error (.error (.missingAttribute "b".toList "b = x".toList)) ∧
      tree.evaluate [b, c, a] = .ok true := by
  intro tree a b c
  have hattributes : tree.attributes = ["a".toList, "b".toList] := by decide +kernel
  have hagrees : Record.Agrees tree.attributes [a] [c, a] := by
    simp [hattributes, Record.Agrees, Record.find?, a, c]
  have hextended : Record.IsExtendedBy [a, b] [b, c, a] :=
    Record.isExtendedBy_of_agrees (by simp [Record.Agrees, Record.find?, a, b, c])
  have hmissing : tree.evaluate [a] =
      .error (.error (.missingAttribute "b".toList "b = x".toList)) := by decide +kernel
  have htrue : tree.evaluate [a, b] = .ok true := by decide +kernel
  obtain ⟨hsame, hkept⟩ := evaluate_depends_on_attributes tree
  exact ⟨hagrees, hextended, (hsame _ _ hagrees).symm.trans hmissing,
    (hkept _ _ htrue).2 _ hextended⟩

end Tree

end Criteria
