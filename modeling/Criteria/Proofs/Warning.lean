import Criteria.Proofs.Faulting

/-!
# Proofs/Warning — which fields are warned about

The rules of a definition are visited until one is not parsed (`Definition.Visits`), and the fields
of every visited rule are warned about, after those of the set.  Whether a rule is parsed does not
depend on the warnings, so they come in addition to the set or the error and never change it:
`RuleSet.warnings_ofDefinition`.
-/

namespace Criteria

/-! ## What is visited -/

/-- **The rules that are visited**: all of them, if each is parsed, whatever becomes of the set; or
else those up to the first that is not, which is still visited. -/
inductive Definition.Visits (limits : Limits) (d : Definition) : List RuleDefinition → Prop
  | all : d.IsParsed limits → Visits limits d d.rules
  | upTo {before after : List RuleDefinition} {r : RuleDefinition} {error : ParseError} :
      d.rules = before ++ r :: after →
      (∀ b ∈ before, ∃ tree, Tree.parse limits b.source = .ok tree) →
      Tree.parse limits r.source = .error error → Visits limits d (before ++ [r])

/-- The undeclared fields of a rule that nothing knows of, in order. -/
def RuleDefinition.unknownFields (r : RuleDefinition) : List Text :=
  (r.extra.map Prod.fst).filter (· ≠ "tags".toList)

/-- The undeclared fields of a set that nothing knows of, in order. -/
def Definition.unknownFields (d : Definition) : List Text :=
  (d.extra.map Prod.fst).filter fun key => key ≠ "version".toList ∧ key ≠ "$schema".toList

/-- Some rules are visited, since they are all parsed or one is the first that is not. -/
theorem Definition.exists_visits (limits : Limits) (d : Definition) :
    ∃ visited, d.Visits limits visited := by
  cases h : (RuleSet.compileRules limits true 0 d.rules).2 with
  | ok rules => exact ⟨_, .all ((RuleSet.exists_compileRules_iff ..).1 ⟨rules, h⟩)⟩
  | error e =>
    obtain ⟨before, r, after, error, hsplit, hbefore, herror, -⟩ :=
      RuleSet.compileRules_eq_error_iff.1 h
    exact ⟨_, .upTo hsplit hbefore herror⟩

namespace RuleSet

variable {limits : Limits} {d : Definition}

/-! ## Warnings about one object -/

/-- A rule is warned about for its fields that are neither declared nor tolerated, in order. -/
theorem warnings_rule (r : RuleDefinition) :
    warnings true toleratedRuleFields r.extra = r.unknownFields := by
  refine List.filter_congr fun key _ => ?_
  rw [toleratedRuleFields, List.contains_eq_mem, ← decide_not, decide_eq_decide,
    List.mem_singleton]

theorem warnings_set (d : Definition) :
    warnings true toleratedFields d.extra = d.unknownFields := by
  refine List.filter_congr fun key _ => ?_
  rw [toleratedFields, List.contains_eq_mem, ← decide_not, decide_eq_decide, List.mem_pair,
    not_or]

/-! ## Warnings about rules -/

/-- Parsed rules are warned about and left behind. -/
theorem warnings_compileRules_append {before : List RuleDefinition}
    (h : ∀ b ∈ before, ∃ tree, Tree.parse limits b.source = .ok tree) (index : Nat)
    (rest : List RuleDefinition) :
    (compileRules limits true index (before ++ rest)).1 =
      before.flatMap RuleDefinition.unknownFields ++
        (compileRules limits true (index + before.length) rest).1 := by
  induction before generalizing index with
  | nil => rfl
  | cons b before ih =>
    rw [List.forall_mem_cons] at h
    obtain ⟨rule, hrule⟩ :=
      (Rule.exists_compile_text_iff (effectiveId index b) b.description).2 h.1
    rw [List.cons_append, compileRules, hrule]
    dsimp only
    rw [ih h.2, warnings_rule, List.flatMap_cons, List.append_assoc, List.length_cons,
      Nat.add_right_comm, Nat.add_assoc]

/-- A rule that is not parsed is the last that is warned about. -/
theorem warnings_compileRules_cons {r : RuleDefinition} {error : ParseError}
    (h : Tree.parse limits r.source = .error error) (index : Nat) (after : List RuleDefinition) :
    (compileRules limits true index (r :: after)).1 = r.unknownFields := by
  rw [compileRules, Rule.compile_text_eq_error_iff.2 ⟨error, h, rfl⟩, ← warnings_rule]

/-- **The rules that are visited are warned about**, and no other. -/
theorem warnings_compileRules {visited : List RuleDefinition} (h : d.Visits limits visited) :
    (compileRules limits true 0 d.rules).1 = visited.flatMap RuleDefinition.unknownFields := by
  cases h with
  | all hparsed => simpa [compileRules] using warnings_compileRules_append hparsed 0 []
  | upTo hsplit hbefore herror =>
    rw [hsplit, warnings_compileRules_append hbefore, warnings_compileRules_cons herror,
      List.flatMap_append, List.flatMap_singleton]

@[simp] theorem warnings_compileRules_false (index : Nat) (rules : List RuleDefinition) :
    (compileRules limits false index rules).1 = [] := by
  induction rules generalizing index with
  | nil => rfl
  | cons r rules ih =>
    rw [compileRules]
    split <;> simp [warnings, ih]

/-! ## Warnings about a definition -/

/-- With the limits settled, the warnings are those of the definition and then those of the rules
compiled. -/
theorem ofDefinition_eq_of_limits {given : Option Limits} (h : limitsFor given d = .ok limits)
    (warn : Bool) :
    (ofDefinition given warn d).warnings =
      warnings warn toleratedFields d.extra ++ (compileRules limits warn 0 d.rules).1 := by
  rw [ofDefinition, h]

/-- What is made of the rules does not depend on whether anything is warned about. -/
theorem ofRuleDefinitions_eq_of_warn (limits : Limits) (warn warn' : Bool) (d : Definition) :
    ofRuleDefinitions limits warn d = ofRuleDefinitions limits warn' d := by
  rw [ofRuleDefinitions, ofRuleDefinitions, compileRules_eq_mapM, compileRules_eq_mapM]

/-- **Unknown fields are warned about in full and in order**, even where no set is made.  Without
limits there are no warnings.  Under limits they are about the unknown fields of the set and then,
rule by rule, about those of the rules that are visited: of every rule, unless one is not parsed,
and then of the rules up to it.  Nothing else depends on whether warnings are asked for. -/
theorem warnings_ofDefinition (given : Option Limits) (d : Definition) :
    (∀ error, limitsFor given d = .error error → (ofDefinition given true d).warnings = []) ∧
    (∀ limits, limitsFor given d = .ok limits →
      (∃ visited, d.Visits limits visited) ∧
      ∀ visited, d.Visits limits visited →
        (ofDefinition given true d).warnings =
          d.unknownFields ++ visited.flatMap RuleDefinition.unknownFields) ∧
    (ofDefinition given false d).warnings = [] ∧
    (ofDefinition given true d).outcome = (ofDefinition given false d).outcome := by
  refine ⟨fun error h => by rw [ofDefinition, h], fun limits h => ⟨d.exists_visits limits, ?_⟩,
    ?_, ?_⟩
  · intro visited hvisited
    rw [ofDefinition_eq_of_limits h, warnings_set, warnings_compileRules hvisited]
  · cases h : limitsFor given d with
    | error error => rw [ofDefinition, h]
    | ok limits =>
      rw [ofDefinition_eq_of_limits h, warnings_compileRules_false]
      rfl
  · simp only [outcome_ofDefinition, ofRuleDefinitions_eq_of_warn _ true false]

/-- Of four rules the third is no condition, and the second gets the id of the first: the rules are
warned about up to the third, and up to the second if there are only two.  With limits that are no
numbers, nothing is warned about. -/
theorem warnings_ofDefinition_faults :
    let rules : List RuleDefinition := [
      ⟨some "rule_1".toList, "a > 1".toList, none,
        [("tags".toList, .null), ("note".toList, .null)]⟩,
      ⟨none, "b < 2".toList, none, [("owner".toList, .null)]⟩,
      ⟨none, "c".toList, none, [("x".toList, .null), ("tags".toList, .null), ("y".toList, .null)]⟩,
      ⟨none, "d = 1".toList, none, [("z".toList, .null)]⟩]
    let d (n : Nat) (limits : Option (List (Text × Value))) : Definition :=
      ⟨none, none, rules.take n, limits, [("version".toList, .int 1), ("author".toList, .null),
        ("$schema".toList, .null), ("team".toList, .null)]⟩
    let compiled (n : Nat) := ofDefinition none true (d n none)
    let early := ["author".toList, "team".toList, "note".toList, "owner".toList]
    (compiled 4).warnings = early ++ ["x".toList, "y".toList] ∧
      (compiled 4).outcome =
        .error (.set (.badRule "rule_2".toList (.incomplete "c".toList "c".toList))) ∧
      (compiled 2).warnings = early ∧
      (compiled 2).outcome = .error (.set (.duplicate "rule_1".toList)) ∧
      (ofDefinition none true (d 4 (some [("maxAstDepth".toList, .null)]))).warnings = [] := by
  intro rules d compiled early
  have hparsed : ∀ b ∈ rules.take 2, ∃ tree, Tree.parse {} b.source = .ok tree := by
    have ha : Tree.parse {} "a > 1".toList = .ok (.operand "a > 1".toList) := by decide +kernel
    have hb : Tree.parse {} "b < 2".toList = .ok (.operand "b < 2".toList) := by decide +kernel
    simpa [rules] using ⟨⟨_, ha⟩, ⟨_, hb⟩⟩
  have hc : Tree.parse {} "c".toList = .error (.incomplete "c".toList "c".toList) := by
    decide +kernel
  have hfour : (d 4 none).rules =
      rules.take 2 ++ ⟨none, "c".toList, none, [("x".toList, .null), ("tags".toList, .null),
        ("y".toList, .null)]⟩ :: rules.drop 3 := rfl
  have hsecond : (d 2 none).rules =
      rules.take 1 ++ [⟨none, "b < 2".toList, none, [("owner".toList, .null)]⟩] := rfl
  have houtcome {n : Nat} {e : RuleSetError} (h : ∃ report, (d n none).Fault {} e report) :
      (compiled n).outcome = .error (.set e) :=
    (outcome_ofDefinition none true (d n none)).trans
      (Outcome.mapError_eq_error_iff.2 ⟨e, ofRuleDefinitions_eq_error_iff.2 h, rfl⟩)
  refine ⟨?_, houtcome ⟨_, .rule hfour (by decide +kernel) hparsed hc⟩, ?_,
    houtcome ⟨_, .id hparsed hsecond (by decide +kernel) (by decide +kernel) (by decide +kernel)⟩,
    ?_⟩
  · exact (((warnings_ofDefinition none (d 4 none)).2.1 {} rfl).2 _ (.upTo hfour hparsed hc)).trans
      (by rfl)
  · exact (((warnings_ofDefinition none (d 2 none)).2.1 {} rfl).2 _ (.all hparsed)).trans (by rfl)
  · exact (warnings_ofDefinition none (d 4 (some _))).1 (.set .badLimits) rfl

end RuleSet

end Criteria
