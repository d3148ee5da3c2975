import Criteria.Proofs.Editing

/-!
# Proofs/Explaining — the conjunction of a set agrees with the report on its rules

Two paths lead from a set to an answer.  `evaluate` takes the tree of all rules and stops at the
first error, `explain` takes the rules one by one and keeps every error.  No node skips a subtree,
so the tree of all is evaluated like the list of its parts (`evaluate_foldl_and`), and what is found
about these adds up to the answer (`evaluateAll_eq_summary`).  Which of the rules comes first only
matters to the error (`evaluateAll_eq_ok_iff`).
-/

namespace Criteria

/-! ## Trees in a row -/

namespace Tree

variable {record : Record}

/-- Whether all trees hold for a record; the first error wins. -/
def evaluateAll (record : Record) : List Tree → Except EvaluationFailure Bool
  | [] => .ok true
  | tree :: trees =>
    tree.evaluate record >>= fun b => (b && ·) <$> evaluateAll record trees

theorem evaluate_and (record : Record) (left right : Tree) :
    (left.and right).evaluate record =
      left.evaluate record >>= fun l => (l && ·) <$> right.evaluate record := rfl

/-- The first error wins however three outcomes are joined. -/
theorem bind_and_assoc (x y z : Except EvaluationFailure Bool) :
    ((x >>= fun l => (l && ·) <$> y) >>= fun b => (b && ·) <$> z) =
      x >>= fun l => (l && ·) <$> (y >>= fun r => (r && ·) <$> z) := by
  cases x with
  | error e => rfl
  | ok l =>
    cases y with
    | error e => rfl
    | ok r =>
      cases z with
      | error e => rfl
      | ok b => exact congrArg Except.ok (Bool.and_assoc l r b)

/-- **A conjunction is evaluated like the list of its trees.** -/
theorem evaluate_foldl_and (record : Record) (first : Tree) (rest : List Tree) :
    (rest.foldl and first).evaluate record = evaluateAll record (first :: rest) := by
  induction rest generalizing first with
  | nil =>
    rw [List.foldl_nil, evaluateAll, evaluateAll]
    cases first.evaluate record <;> simp [bind, Except.bind, Functor.map, Except.map]
  | cons tree rest ih =>
    rw [List.foldl_cons, ih, evaluateAll, evaluate_and, bind_and_assoc, evaluateAll, evaluateAll]

/-- **Only for an error does the order matter**: all trees have a truth value, and the conjunction
is true iff all are. -/
theorem evaluateAll_eq_ok_iff {trees : List Tree} {b : Bool} :
    evaluateAll record trees = .ok b ↔ (∀ tree ∈ trees, ∃ c, tree.evaluate record = .ok c) ∧
      (b = true ↔ ∀ tree ∈ trees, tree.evaluate record = .ok true) := by
  induction trees generalizing b with
  | nil => simp [evaluateAll, eq_comm]
  | cons tree trees ih =>
    rw [evaluateAll, Outcome.bind_eq_ok_iff]
    simp only [Outcome.map_eq_ok_iff, ih, List.forall_mem_cons]
    constructor
    · rintro ⟨l, hl, r, ⟨hall, hr⟩, rfl⟩
      refine ⟨⟨⟨l, hl⟩, hall⟩, ?_⟩
      rw [Bool.and_eq_true, hr, hl, Except.ok.injEq]
    · rintro ⟨⟨⟨l, hl⟩, hall⟩, hb⟩
      classical
      refine ⟨l, hl, decide (∀ tree ∈ trees, tree.evaluate record = .ok true),
        ⟨hall, decide_eq_true_iff⟩, ?_⟩
      rw [Bool.eq_iff_iff, hb, hl, Bool.and_eq_true, decide_eq_true_iff, Except.ok.injEq]

end Tree

namespace RuleSet

namespace Finding

/-- The outcome that a finding reports. -/
def outcome (f : Finding) : Except EvaluationFailure Bool :=
  match f.error with
  | some error => .error (.error error)
  | none => .ok f.result

/-- What findings add up to: the first error, or whether all results hold. -/
def summary (findings : List Finding) : Except EvaluationFailure Bool :=
  match findings.findSome? Finding.error with
  | some error => .error (.error error)
  | none => .ok (findings.all Finding.result)

/-- **What is found about a rule**: its id and text, and its truth or why it has none. -/
structure Describes (record : Record) (rule : Rule) (f : Finding) : Prop where
  id_eq : f.id = rule.id
  source_eq : f.source = rule.source
  outcome_eq : rule.tree.evaluate record = f.outcome
  result_of_error : f.error ≠ none → f.result = false

/-- The summary of findings is the conjunction of their outcomes, all of them looked at. -/
theorem summary_cons (f : Finding) (findings : List Finding) :
    summary (f :: findings) = f.outcome >>= fun b => (b && ·) <$> summary findings := by
  unfold summary outcome
  rw [List.findSome?_cons, List.all_cons]
  cases f.error with
  | some error => rfl
  | none => cases findings.findSome? Finding.error <;> rfl

/-- **Findings add up to the truth of all trees.** -/
theorem evaluateAll_eq_summary {record : Record} {rules : List Rule} {findings : List Finding}
    (h : List.Forall₂ (Describes record) rules findings) :
    Tree.evaluateAll record (rules.map Rule.tree) = summary findings := by
  induction h with
  | nil => rfl
  | cons hf _ ih => rw [List.map_cons, Tree.evaluateAll, hf.outcome_eq, ih, summary_cons]

/-- A summary has a value iff no finding has an error, and then all of them decide it. -/
theorem summary_eq_ok_iff {findings : List Finding} {b : Bool} :
    summary findings = .ok b ↔ (∀ f ∈ findings, f.error = none) ∧
      findings.all Finding.result = b := by
  unfold summary
  cases h : findings.findSome? Finding.error with
  | none => simp [and_iff_right (List.findSome?_eq_none_iff.1 h)]
  | some error =>
    obtain ⟨f, hm, hf⟩ := List.exists_of_findSome?_eq_some h
    exact iff_of_false (by simp) fun hb => by simp [hb.1 f hm] at hf

/-- A summary that fails does so with the first error there is. -/
theorem summary_eq_error_iff {findings : List Finding} {e : EvaluationFailure} :
    summary findings = .error e ↔
      ∃ error, e = .error error ∧ findings.findSome? Finding.error = some error := by
  unfold summary
  cases findings.findSome? Finding.error <;> simp [eq_comm]

end Finding

variable {s : RuleSet} {record : Record}

/-- **A report finds something about every rule**, in order. -/
theorem describes_of_explain {findings : List Finding} (h : s.explain record = some findings) :
    List.Forall₂ (Finding.Describes record) s.rules findings := by
  refine (Outcome.mapM_eq_some_iff.1 h).imp fun rule f hf => ?_
  obtain ⟨v, hv, hf⟩ := Option.bind_eq_some_iff.1 hf
  obtain rfl := Option.some.inj hf
  unfold Tree.tryEvaluate at hv
  split at hv
  · rename_i b hb
    obtain rfl := Option.some.inj hv
    exact ⟨rfl, rfl, hb, fun h => absurd rfl h⟩
  · rename_i error he
    obtain rfl := Option.some.inj hv
    exact ⟨rfl, rfl, he, fun _ => rfl⟩
  · exact absurd hv (by simp)

/-- The rules of a set are evaluated in order. -/
theorem evaluate_eq (hc : s.combined = Tree.conjunction? (s.rules.map Rule.tree))
    (hne : s.rules ≠ []) :
    s.evaluate record = (Tree.evaluateAll record (s.rules.map Rule.tree)).mapError .evaluation := by
  obtain ⟨first, rest, hrules⟩ := List.exists_cons_of_ne_nil hne
  rw [evaluate, hc, hrules, List.map_cons, Tree.conjunction?]
  dsimp only
  rw [Tree.evaluate_foldl_and]

/-- A rule of a sound set is evaluated under its id. -/
theorem Sound.evaluateRule_id {limits : Limits} (h : s.Sound limits) {rule : Rule}
    (hm : rule ∈ s.rules) :
    s.evaluateRule rule.id record = (rule.tree.evaluate record).mapError .evaluation := by
  rw [evaluateRule, h.find?_eq_some_iff.2 ⟨hm, rfl⟩]

/-- A report says of each rule what evaluating it alone says. -/
theorem Sound.forall₂_of_explain {limits : Limits} (h : s.Sound limits) {findings : List Finding}
    (hf : s.explain record = some findings) :
    List.Forall₂ (fun rule f => f.id = rule.id ∧ f.source = rule.source ∧
      s.evaluateRule rule.id record = f.outcome.mapError .evaluation ∧
      (f.error ≠ none → f.result = false)) s.rules findings := by
  have hmem := (List.forall₂_and_left (p := (· ∈ s.rules)) _ _).2
    ⟨fun _ hm => hm, describes_of_explain hf⟩
  refine hmem.imp fun rule f hd => ?_
  obtain ⟨hm, hd⟩ := hd
  rw [h.evaluateRule_id hm, hd.outcome_eq]
  exact ⟨hd.id_eq, hd.source_eq, rfl, hd.result_of_error⟩

/-- **What is found about the rules adds up to what is found about the set.** -/
theorem Sound.evaluate_eq_summary {limits : Limits} (h : s.Sound limits) (hne : s.rules ≠ [])
    {findings : List Finding} (hf : s.explain record = some findings) :
    s.evaluate record = (Finding.summary findings).mapError .evaluation := by
  rw [evaluate_eq h.combined_eq hne, Finding.evaluateAll_eq_summary (describes_of_explain hf)]

/-- The truth of a set depends on which rules it has, and not on their order. -/
theorem evaluate_eq_ok_iff_of_perm {s' : RuleSet}
    (hc : s.combined = Tree.conjunction? (s.rules.map Rule.tree))
    (hc' : s'.combined = Tree.conjunction? (s'.rules.map Rule.tree)) (hne : s.rules ≠ [])
    (hp : s'.rules.Perm s.rules) (b : Bool) :
    s'.evaluate record = .ok b ↔ s.evaluate record = .ok b := by
  have hne' : s'.rules ≠ [] := fun h => hne (h ▸ hp).symm.eq_nil
  have hm (t : Tree) : t ∈ s'.rules.map Rule.tree ↔ t ∈ s.rules.map Rule.tree :=
    (hp.map Rule.tree).mem_iff
  simp only [evaluate_eq hc hne, evaluate_eq hc' hne', Outcome.mapError_eq_ok_iff,
    Tree.evaluateAll_eq_ok_iff, hm]

/-- **The conjunction of a set agrees with the report on its rules.**  The report follows the rules
in order, and says of each what evaluating it alone says.  The set is true iff all results are true
and there is no error, it is false iff there is no error and some result is false, and otherwise it
fails with the first error of the report.  Another order of the rules changes no truth value. -/
theorem evaluate_iff_explain (s : RuleSet) (hs : s.Reachable) (hne : s.rules ≠ [])
    (record : Record) :
    (∀ findings, s.explain record = some findings →
      List.Forall₂ (fun rule f => f.id = rule.id ∧ f.source = rule.source ∧
        s.evaluateRule rule.id record = f.outcome.mapError .evaluation ∧
        (f.error ≠ none → f.result = false)) s.rules findings ∧
      (s.evaluate record = .ok true ↔ ∀ f ∈ findings, f.error = none ∧ f.result = true) ∧
      (s.evaluate record = .ok false ↔
        (∀ f ∈ findings, f.error = none) ∧ ∃ f ∈ findings, f.result = false) ∧
      ∀ e, s.evaluate record = .error e ↔
        ∃ error, e = .evaluation (.error error) ∧
          findings.findSome? Finding.error = some error) ∧
    ∀ limits name rules other, ofRules limits name rules = .ok other → rules.Perm s.rules →
      ∀ b, other.evaluate record = .ok b ↔ s.evaluate record = .ok b := by
  obtain ⟨limits, hsound⟩ := hs.sound
  refine ⟨fun findings hf => ?_, fun limits name rules other ho hp b => ?_⟩
  · have he := hsound.evaluate_eq_summary hne hf
    refine ⟨hsound.forall₂_of_explain hf, ?_, ?_, fun e => ?_⟩
    · rw [he, Outcome.mapError_eq_ok_iff, Finding.summary_eq_ok_iff, List.all_eq_true]
      exact forall₂_and.symm
    · rw [he, Outcome.mapError_eq_ok_iff, Finding.summary_eq_ok_iff, List.all_eq_false]
      simp only [Bool.not_eq_true]
    · rw [he, Outcome.mapError_eq_error_iff]
      simp only [Finding.summary_eq_error_iff]
      constructor
      · rintro ⟨-, ⟨error, rfl, hfirst⟩, rfl⟩
        exact ⟨error, rfl, hfirst⟩
      · rintro ⟨error, rfl, hfirst⟩
        exact ⟨_, ⟨error, rfl, hfirst⟩, rfl⟩
  · obtain ⟨-, -, rfl⟩ := ofRules_eq_ok_iff.1 ho
    exact evaluate_eq_ok_iff_of_perm hsound.combined_eq rfl hne hp b

/-- A rule that holds, and one whose attribute is missing. -/
theorem evaluate_iff_explain_missing :
    let first := Tree.operand "a > 1".toList
    let second := Tree.operand "b = 'x'".toList
    let s : RuleSet := ⟨none, {}, [⟨"p".toList, "a > 1".toList, first, none⟩,
      ⟨"q".toList, "b = 'x'".toList, second, none⟩], some (first.and second)⟩
    let record : Record := [("a".toList, .int 5)]
    let error := EvaluationError.missingAttribute "b".toList "b = 'x'".toList
    s.Reachable ∧ s.rules ≠ [] ∧
      s.explain record = some [⟨"p".toList, true, "a > 1".toList, none⟩,
        ⟨"q".toList, false, "b = 'x'".toList, some error⟩] ∧
      s.evaluate record = .error (.evaluation (.error error)) := by
  intro first second s record error
  have hp (clause : Text) (h : Tree.parse {} clause = .ok (.operand clause)) (id : Text) :
      Rule.compile {} id none (.text clause) = .ok ⟨id, clause, .operand clause, none⟩ :=
    Rule.compile_eq_ok_iff.2 ⟨rfl, rfl, h⟩
  have hmade : MadeFrom {} s s.entries := .entries <| ofEntries_eq_ok_iff.2
    ⟨s.rules, .cons (hp _ (by decide +kernel) _) (.cons (hp _ (by decide +kernel) _) .nil),
      ofRules_eq_ok_iff.2 ⟨by decide, fun _ => by decide, rfl⟩⟩
  have hs : s.Reachable := ⟨{}, s, s.entries, [], hmade, rfl⟩
  have hne : s.rules ≠ [] := List.cons_ne_nil _ _
  have hf : s.explain record = some [⟨"p".toList, true, "a > 1".toList, none⟩,
    ⟨"q".toList, false, "b = 'x'".toList, some error⟩] := by decide +kernel
  obtain ⟨-, -, -, he⟩ := (evaluate_iff_explain s hs hne record).1 _ hf
  exact ⟨hs, hne, hf, (he _).2 ⟨error, rfl, rfl⟩⟩

end RuleSet

end Criteria
