import Criteria.Proofs.Refusing

/-!
# Proofs/Faulting — what the compilation of a definition comes to

A definition can be wrong in several ways at once, and one of them is reported: the first rule that
is not parsed, or else the first id that repeats, or else the number of rules (`Definition.Fault`).
It makes a set iff it is wrong in none (`RuleSet.outcome_ofDefinition_iff`), and the set holds its
rules in order.
-/

namespace Criteria

open Outcome

/-! ## The first id that repeats -/

namespace RuleSet

/-- **The id that repeats** is the first with itself before it. -/
theorem repeated?_eq_some_iff {seen ids : List Text} {id : Text} :
    repeated? seen ids = some id ↔ ∃ before after, ids = before ++ id :: after ∧
      repeated? seen before = none ∧ (id ∈ seen ∨ id ∈ before) := by
  induction ids generalizing seen with
  | nil => simp [repeated?]
  | cons x xs ih =>
    rw [repeated?]
    split_ifs with hx
    · constructor
      · rintro ⟨⟩
        exact ⟨[], xs, rfl, rfl, .inl hx⟩
      · rintro ⟨before, after, hsplit, hnone, -⟩
        cases before with
        | nil => rw [(List.cons.inj hsplit).1]
        | cons y before =>
          obtain ⟨rfl, -⟩ := List.cons.inj hsplit
          rw [repeated?, if_pos hx] at hnone
          exact absurd hnone (Option.some_ne_none _)
    · rw [ih]
      constructor
      · rintro ⟨before, after, rfl, hnone, hid⟩
        refine ⟨x :: before, after, rfl, by rwa [repeated?, if_neg hx], ?_⟩
        rwa [List.mem_cons, or_left_comm, ← or_assoc, ← List.mem_cons]
      · rintro ⟨before, after, hsplit, hnone, hid⟩
        cases before with
        | nil =>
          obtain ⟨rfl, -⟩ := List.cons.inj hsplit
          exact absurd (hid.resolve_right List.not_mem_nil) hx
        | cons y before =>
          obtain ⟨rfl, rfl⟩ := List.cons.inj hsplit
          rw [repeated?, if_neg hx] at hnone
          refine ⟨before, after, rfl, hnone, ?_⟩
          rwa [List.mem_cons, or_assoc, or_left_comm, ← List.mem_cons]

/-! ## The ids of a definition -/

/-- The ids that the rules of a definition get, in order. -/
def effectiveIds (rules : List RuleDefinition) : List Text := rules.mapIdx effectiveId

theorem keys_definitionEntries (rules : List RuleDefinition) :
    (definitionEntries 0 rules).map Prod.fst = effectiveIds rules := by
  simp [definitionEntries, effectiveIds, List.mapIdx_eq_zipIdx_map]

/-- The identifier of a rule depends on how many rules are before it, not on which. -/
theorem effectiveIds_append_cons (before after : List RuleDefinition) (r : RuleDefinition) :
    ∃ later, effectiveIds (before ++ r :: after) =
      effectiveIds before ++ effectiveId before.length r :: later := by
  rw [effectiveIds, List.mapIdx_append, List.mapIdx_cons, Nat.zero_add]
  exact ⟨_, rfl⟩

/-- The rule whose id repeats one of a rule before it. -/
theorem repeated?_effectiveIds_eq_some_iff {rules : List RuleDefinition} {id : Text} :
    repeated? [] (effectiveIds rules) = some id ↔ ∃ before r after, rules = before ++ r :: after ∧
      (effectiveIds before).Nodup ∧ effectiveId before.length r ∈ effectiveIds before ∧
      effectiveId before.length r = id := by
  rw [repeated?_eq_some_iff]
  simp only [repeated?_eq_none_iff, List.not_mem_nil, false_or]
  constructor
  · rintro ⟨_, _, hsplit, ⟨hnodup, -⟩, hid⟩
    obtain ⟨before, rest, rfl, rfl, hrest⟩ := List.mapIdx_eq_append_iff.1 hsplit
    obtain ⟨r, after, rfl, rfl, -⟩ := List.mapIdx_eq_cons_iff.1 hrest
    rw [Nat.zero_add] at hid ⊢
    exact ⟨before, r, after, rfl, hnodup, hid, rfl⟩
  · rintro ⟨before, r, after, rfl, hnodup, hid, rfl⟩
    obtain ⟨later, hids⟩ := effectiveIds_append_cons before after r
    exact ⟨_, later, hids, ⟨hnodup, by simp⟩, hid⟩

end RuleSet

/-! ## Definitions that make a set -/

/-- **A rule of a set is the one of a definition** at its place, with its tree. -/
structure RuleDefinition.CompilesTo (limits : Limits) (r : RuleDefinition) (index : Nat)
    (rule : Rule) : Prop where
  id_eq : rule.id = RuleSet.effectiveId index r
  source_eq : rule.source = r.source
  description_eq : rule.description = r.description
  parse_eq : Tree.parse limits r.source = .ok rule.tree

theorem RuleDefinition.compile_eq_ok_iff {limits : Limits} {r : RuleDefinition} {index : Nat}
    {rule : Rule} :
    Rule.compile limits (RuleSet.effectiveId index r) r.description (.text r.source) = .ok rule ↔
      r.CompilesTo limits index rule := by
  rw [Rule.compile_eq_ok_iff, Rule.entry, Prod.mk.injEq, Value.text.injEq]
  constructor
  · rintro ⟨⟨hid, hsource⟩, hdescription, hparse⟩
    exact ⟨hid, hsource, hdescription, hsource ▸ hparse⟩
  · rintro ⟨hid, hsource, hdescription, hparse⟩
    exact ⟨⟨hid, hsource⟩, hdescription, hsource ▸ hparse⟩

namespace Definition

variable {limits : Limits} {d : Definition}

/-- Every rule is parsed. -/
def IsParsed (limits : Limits) (d : Definition) : Prop :=
  ∀ r ∈ d.rules, ∃ tree, Tree.parse limits r.source = .ok tree

/-- **Nothing is wrong with a definition.** -/
structure IsCompilable (limits : Limits) (d : Definition) : Prop where
  isParsed : d.IsParsed limits
  nodup_ids : (RuleSet.effectiveIds d.rules).Nodup
  length_le : d.rules = [] ∨ (d.rules.length : Int) ≤ limits.combinedRules

/-- **A set holds the rules of a definition**, in order and each with its tree, and the tree of all
of them. -/
structure CompilesTo (limits : Limits) (d : Definition) (s : RuleSet) : Prop where
  name_eq : s.name = d.name
  limits_eq : s.limits = limits
  rules : List.Forall₂ (fun r rule => r.1.CompilesTo limits r.2 rule) d.rules.zipIdx s.rules
  combined_eq : s.combined = Tree.conjunction? (s.rules.map Rule.tree)

end Definition

namespace RuleSet

variable {limits : Limits} {d : Definition}

/-- Rules compile iff each of them does, at its own place. -/
theorem compileRules_eq_ok_iff {warn : Bool} {definitions : List RuleDefinition}
    {rules : List Rule} :
    (compileRules limits warn 0 definitions).2 = .ok rules ↔
      List.Forall₂ (fun r rule => r.1.CompilesTo limits r.2 rule) definitions.zipIdx rules := by
  simp only [compileRules_eq_mapM, mapM_eq_ok_iff, RuleDefinition.compile_eq_ok_iff]

/-- The parsed rules of a definition have its ids, and are as many. -/
theorem ids_of_compileRules_zero {warn : Bool} {rules : List Rule}
    (h : (compileRules limits warn 0 d.rules).2 = .ok rules) :
    rules.map Rule.id = effectiveIds d.rules ∧ rules.length = d.rules.length ∧
      (rules = [] ↔ d.rules = []) :=
  keys_definitionEntries d.rules ▸ ids_of_compileRules h

/-- **A definition makes the set of its rules** iff nothing is wrong with it. -/
theorem ofRuleDefinitions_eq_ok_iff {warn : Bool} {s : RuleSet} :
    ofRuleDefinitions limits warn d = .ok s ↔ d.IsCompilable limits ∧ d.CompilesTo limits s := by
  simp only [ofRuleDefinitions, bind_eq_ok_iff, ofRules_eq_ok_iff]
  constructor
  · rintro ⟨rules, hrules, hnodup, hlen, rfl⟩
    obtain ⟨hids, hlength, hnil⟩ := ids_of_compileRules_zero hrules
    rw [hlength, ne_eq, hnil, ← or_iff_not_imp_left] at hlen
    exact ⟨⟨(exists_compileRules_iff ..).1 ⟨rules, hrules⟩, hids ▸ hnodup, hlen⟩,
      rfl, rfl, compileRules_eq_ok_iff.1 hrules, rfl⟩
  · obtain ⟨name, limits', rules, combined⟩ := s
    rintro ⟨⟨-, hnodup, hlen⟩, hname, hlimits, hforall, hcombined⟩
    dsimp only at hname hlimits hforall hcombined
    subst hname hlimits hcombined
    have hrules : (compileRules limits' warn 0 d.rules).2 = .ok rules :=
      compileRules_eq_ok_iff.2 hforall
    obtain ⟨hids, hlength, hnil⟩ := ids_of_compileRules_zero hrules
    rw [← hnil, or_iff_not_imp_left, ← hlength] at hlen
    exact ⟨rules, hrules, hids.symm ▸ hnodup, hlen, rfl⟩

/-- **A definition makes a set iff it is compilable**: nothing else can go wrong, and warnings do
not matter. -/
theorem exists_ofRuleDefinitions_iff (warn : Bool) :
    (∃ s, ofRuleDefinitions limits warn d = .ok s) ↔ d.IsCompilable limits := by
  refine ⟨fun ⟨s, hs⟩ => (ofRuleDefinitions_eq_ok_iff.1 hs).1, fun h => ?_⟩
  obtain ⟨rules, hrules⟩ := (exists_compileRules_iff limits warn 0 d.rules).2 h.isParsed
  exact ⟨⟨d.name, limits, rules, Tree.conjunction? (rules.map Rule.tree)⟩,
    ofRuleDefinitions_eq_ok_iff.2 ⟨h, rfl, rfl, compileRules_eq_ok_iff.1 hrules, rfl⟩⟩

end RuleSet

/-! ## What is wrong with a definition -/

/-- The kind of a failure to parse. -/
def ParseError.kind : ParseError → ErrorKind
  | limit _ => .limitExceeded
  | _ => .parse

/-- **What is wrong with a definition**, and how it is to be reported: the first rule that is not
parsed, whatever the ids and the number of rules; or else the first rule with the id of one before
it, whatever their number; or else their number. -/
inductive Definition.Fault (limits : Limits) (d : Definition) : RuleSetError → Report → Prop
  | rule {before after : List RuleDefinition} {r : RuleDefinition} {error : ParseError}
      {id : Text} :
      d.rules = before ++ r :: after → RuleSet.effectiveId before.length r = id →
      (∀ b ∈ before, ∃ tree, Tree.parse limits b.source = .ok tree) →
      Tree.parse limits r.source = .error error →
      Fault limits d (.badRule id error)
        { kind := .ruleSet, message := (RuleSetError.badRule id error).message, ruleId := id,
          cause := error.kind }
  | id {before after : List RuleDefinition} {r : RuleDefinition} {id : Text} :
      d.IsParsed limits → d.rules = before ++ r :: after →
      RuleSet.effectiveId before.length r = id → (RuleSet.effectiveIds before).Nodup →
      id ∈ RuleSet.effectiveIds before →
      Fault limits d (.duplicate id)
        { kind := .ruleSet, message := (RuleSetError.duplicate id).message, ruleId := id }
  | count {exceeded : LimitExceeded} : d.IsParsed limits →
      (RuleSet.effectiveIds d.rules).Nodup → d.rules ≠ [] →
      limits.combinedRules < d.rules.length →
      ⟨.combinedRules, limits.combinedRules, d.rules.length⟩ = exceeded →
      Fault limits d (.tooLarge exceeded)
        { kind := .ruleSet, message := (RuleSetError.tooLarge exceeded).message,
          cause := some .limitExceeded }

namespace ParseError

theorem kind_report_of_isWritable {e : ParseError} (h : e.IsWritable) : e.report.kind = e.kind := by
  cases e with
  | limit exceeded => exact LimitExceeded.kind_report_of_isWritable (h exceeded rfl)
  | _ => rfl

end ParseError

namespace Definition

variable {limits : Limits} {d : Definition}

/-- A fault is reported as it is to be, unless it quotes a number that cannot be written. -/
theorem Fault.report_eq {e : RuleSetError} {report : Report} (h : d.Fault limits e report) :
    (e.IsWritable → e.report = report) ∧ (¬e.IsWritable → e.report = { kind := .badNumber }) := by
  refine ⟨fun hw => ?_, RuleSetError.report_of_not_isWritable⟩
  cases h with
  | rule =>
    have hw : ParseError.IsWritable _ := hw
    rw [RuleSetError.report, Report.causedBy,
      if_pos ((ParseError.message_report_isSome_iff _).2 hw),
      ParseError.kind_report_of_isWritable hw]
  | id => rfl
  | count =>
    have hw := hw _ rfl
    rw [RuleSetError.report, Report.causedBy,
      if_pos ((LimitExceeded.message_report_isSome_iff _).2 hw),
      LimitExceeded.kind_report_of_isWritable hw]

end Definition

namespace RuleSet

variable {limits : Limits} {d : Definition}

/-- Parsed rules are refused for their ids, or else for their number. -/
theorem ofRules_compileRules_eq_error_iff {warn : Bool} {rules : List Rule} {e : RuleSetError}
    (h : (compileRules limits warn 0 d.rules).2 = .ok rules) :
    ofRules limits d.name rules = .error e ↔
      (∃ id, repeated? [] (effectiveIds d.rules) = some id ∧ .duplicate id = e) ∨
        ((effectiveIds d.rules).Nodup ∧ d.rules ≠ [] ∧ limits.combinedRules < d.rules.length ∧
          .tooLarge ⟨.combinedRules, limits.combinedRules, d.rules.length⟩ = e) := by
  obtain ⟨hids, hlength, hnil⟩ := ids_of_compileRules_zero h
  rw [ofRules_eq_error_iff, hids, hlength, ne_eq, hnil]

/-- **The error of a definition is its fault.** -/
theorem ofRuleDefinitions_eq_error_iff {warn : Bool} {e : RuleSetError} :
    ofRuleDefinitions limits warn d = .error e ↔ ∃ report, d.Fault limits e report := by
  simp only [ofRuleDefinitions, bind_eq_error_iff, compileRules_eq_error_iff, Nat.zero_add]
  constructor
  · rintro (⟨before, r, after, error, hsplit, hbefore, herror, rfl⟩ | ⟨rules, hrules, he⟩)
    · exact ⟨_, .rule hsplit rfl hbefore herror⟩
    · have hparsed : d.IsParsed limits := (exists_compileRules_iff ..).1 ⟨rules, hrules⟩
      rcases (ofRules_compileRules_eq_error_iff hrules).1 he with
        ⟨id, hid, rfl⟩ | ⟨hnodup, hne, hlen, rfl⟩
      · obtain ⟨before, r, after, hsplit, hnodup, hmem, rfl⟩ :=
          repeated?_effectiveIds_eq_some_iff.1 hid
        exact ⟨_, .id hparsed hsplit rfl hnodup hmem⟩
      · exact ⟨_, .count hparsed hnodup hne hlen rfl⟩
  · rintro ⟨_, ⟨hsplit, rfl, hbefore, herror⟩ | ⟨hparsed, hsplit, rfl, hnodup, hmem⟩ |
      ⟨hparsed, hnodup, hne, hlen, rfl⟩⟩
    · exact .inl ⟨_, _, _, _, hsplit, hbefore, herror, rfl⟩
    · obtain ⟨rules, hrules⟩ := (exists_compileRules_iff limits warn 0 d.rules).2 hparsed
      have hid := repeated?_effectiveIds_eq_some_iff.2 ⟨_, _, _, hsplit, hnodup, hmem, rfl⟩
      exact .inr ⟨rules, hrules,
        (ofRules_compileRules_eq_error_iff hrules).2 (.inl ⟨_, hid, rfl⟩)⟩
    · obtain ⟨rules, hrules⟩ := (exists_compileRules_iff limits warn 0 d.rules).2 hparsed
      exact .inr ⟨rules, hrules,
        (ofRules_compileRules_eq_error_iff hrules).2 (.inr ⟨hnodup, hne, hlen, rfl⟩)⟩

/-- **What the compilation of a definition comes to.**  Under the limits that were given, or else
its own or the defaults, a definition makes a set iff its rules are parsed, its ids are distinct and
it has no rules or not too many; the set holds those rules.  Otherwise it fails with its first
fault, which is reported as such unless it quotes a number that cannot be written. -/
theorem outcome_ofDefinition_iff (given : Option Limits) (warn : Bool) (d : Definition)
    (limits : Limits) (h : limitsFor given d = .ok limits) :
    ((∃ s, (ofDefinition given warn d).outcome = .ok s) ↔ d.IsCompilable limits) ∧
    (∀ s, (ofDefinition given warn d).outcome = .ok s → d.CompilesTo limits s) ∧
    (∀ error, (ofDefinition given warn d).outcome = .error error ↔
      ∃ e report, d.Fault limits e report ∧ .set e = error) ∧
    ∀ e report, d.Fault limits e report →
      (e.IsWritable → e.report = report) ∧ (¬e.IsWritable → e.report = { kind := .badNumber }) := by
  have hmade : (ofDefinition given warn d).outcome =
      (ofRuleDefinitions limits warn d).mapError .set := by
    rw [outcome_ofDefinition, h]
    rfl
  simp only [hmade, mapError_eq_ok_iff, mapError_eq_error_iff]
  refine ⟨exists_ofRuleDefinitions_iff warn, fun s hs => (ofRuleDefinitions_eq_ok_iff.1 hs).2,
    fun error => ?_, fun e report => Definition.Fault.report_eq⟩
  simp only [ofRuleDefinitions_eq_error_iff, exists_and_right]

/-- Where no rule is allowed, of three rules the last is no condition, and the first has the id that
the second gets. -/
theorem outcome_ofDefinition_iff_faults :
    let rules : List RuleDefinition := [
      ⟨some "rule_1".toList, "a > 1".toList, none, []⟩, ⟨none, "b < 2".toList, none, []⟩,
      ⟨some [], "c".toList, none, []⟩]
    let limits : Limits := { combinedRules := 0 }
    let first (n : Nat) : Definition := ⟨none, none, rules.take n, none, []⟩
    let outcome (n : Nat) := (ofDefinition (some limits) true (first n)).outcome
    (∀ n, limitsFor (some limits) (first n) = .ok limits) ∧
      outcome 3 = .error (.set (.badRule "rule_2".toList (.incomplete "c".toList "c".toList))) ∧
      outcome 2 = .error (.set (.duplicate "rule_1".toList)) ∧
      outcome 1 = .error (.set (.tooLarge ⟨.combinedRules, 0, 1⟩)) ∧
      ∃ s, outcome 0 = .ok s := by
  intro rules limits first outcome
  have ha : Tree.parse limits "a > 1".toList = .ok (.operand "a > 1".toList) := by decide +kernel
  have hb : Tree.parse limits "b < 2".toList = .ok (.operand "b < 2".toList) := by decide +kernel
  have hc : Tree.parse limits "c".toList = .error (.incomplete "c".toList "c".toList) := by
    decide +kernel
  have hfor (n : Nat) : limitsFor (some limits) (first n) = .ok limits := rfl
  have htwo : (first 2).IsParsed limits := by
    simpa [first, rules, Definition.IsParsed] using ⟨⟨_, ha⟩, ⟨_, hb⟩⟩
  have hone : (first 1).IsParsed limits := by
    simpa [first, rules, Definition.IsParsed] using ⟨_, ha⟩
  have hthird : (first 3).rules = rules.take 2 ++ [⟨some [], "c".toList, none, []⟩] := rfl
  have hsecond : (first 2).rules = rules.take 1 ++ [⟨none, "b < 2".toList, none, []⟩] := rfl
  refine ⟨hfor, ?_, ?_, ?_, ?_⟩
  · exact ((outcome_ofDefinition_iff _ true _ _ (hfor 3)).2.2.1 _).2
      ⟨_, _, .rule hthird (by decide +kernel) htwo hc, rfl⟩
  · exact ((outcome_ofDefinition_iff _ true _ _ (hfor 2)).2.2.1 _).2
      ⟨_, _, .id htwo hsecond (by decide +kernel) (by decide +kernel) (by decide +kernel), rfl⟩
  · exact ((outcome_ofDefinition_iff _ true _ _ (hfor 1)).2.2.1 _).2
      ⟨_, _, .count hone (by decide +kernel) (by simp [first, rules]) (by decide) rfl, rfl⟩
  · refine (outcome_ofDefinition_iff _ true _ _ (hfor 0)).1.2 ⟨?_, List.nodup_nil, .inl rfl⟩
    simp [first, Definition.IsParsed]

/-- **A definition can make neither a set nor an error of the set**: the bound that its rule exceeds
may have a digit more than can be written. -/
theorem not_forall_ofDefinition_ok_or_ruleSet :
    ¬∀ (given : Option Limits) (warn : Bool) (d : Definition) (limits : Limits),
      limitsFor given d = .ok limits →
        (∃ s, (ofDefinition given warn d).outcome = .ok s) ∨
          ∃ error, (ofDefinition given warn d).outcome = .error error ∧
            error.report.kind = .ruleSet := by
  intro h
  let limits : Limits := { ruleLength := -(Nat.pow 10 Text.maxDigits : Nat) }
  let d : Definition := ⟨none, none, [⟨none, "a > 1".toList, none, []⟩], none, []⟩
  have hkind : ((ofDefinition (some limits) true d).outcome).mapError (·.report.kind) =
      .error .badNumber := by decide +kernel
  rcases h (some limits) true d limits rfl with ⟨s, hs⟩ | ⟨error, herror, hset⟩
  · rw [hs] at hkind
    exact absurd hkind (by simp [Except.mapError])
  · rw [herror] at hkind
    exact absurd (hset.symm.trans (Except.error.inj hkind)) (by decide)

end RuleSet

end Criteria
