import Criteria.Proofs.Editing
import Criteria.Proofs.Reporting

/-!
# Proofs/Refusing — which rules make no set

The rules of a definition are compiled in order, and the first that is not parsed is the error of
the set (`RuleSet.compileRules_eq_error_iff`).  Compiled rules are refused for a repeated id, or
else for their number (`RuleSet.ofRules_eq_error_iff`).  `Definition.Exceeds` is the limit that such
an error quotes.
-/

namespace Criteria

open Outcome

/-! ## Rules that are not compiled -/

theorem Rule.compile_text_eq_error_iff {limits : Limits} {id source : Text}
    {description : Option Text} {e : RuleSetError} :
    compile limits id description (.text source) = .error e ↔
      ∃ error, Tree.parse limits source = .error error ∧ .badRule id error = e := by
  simp only [compile, Value.ruleText, bind_eq_error_iff, mapError_eq_error_iff,
    mapError_eq_ok_iff]
  simp

theorem Rule.exists_compile_text_iff {limits : Limits} {source : Text} (id : Text)
    (description : Option Text) :
    (∃ rule, compile limits id description (.text source) = .ok rule) ↔
      ∃ tree, Tree.parse limits source = .ok tree := by
  simp [Rule.exists_compile_iff, Tree.parseValue_eq_ok_iff]

namespace RuleSet

/-- Without its warnings, the loop over rules is a map over their sources with their places. -/
theorem compileRules_eq_mapM (limits : Limits) (warn : Bool) (index : Nat)
    (rules : List RuleDefinition) :
    (compileRules limits warn index rules).2 = (rules.zipIdx index).mapM fun d =>
      Rule.compile limits (effectiveId d.2 d.1) d.1.description (.text d.1.source) := by
  induction rules generalizing index with
  | nil => rfl
  | cons d ds ih =>
    rw [compileRules, List.zipIdx_cons, List.mapM_cons, ← ih]
    split <;> rename_i hc <;> rw [hc] <;> rfl

theorem forall_compile_zipIdx_iff {limits : Limits} {index : Nat} {rules : List RuleDefinition} :
    (∀ d ∈ rules.zipIdx index, ∃ rule,
      Rule.compile limits (effectiveId d.2 d.1) d.1.description (.text d.1.source) = .ok rule) ↔
        ∀ d ∈ rules, ∃ tree, Tree.parse limits d.source = .ok tree := by
  simp only [Rule.exists_compile_text_iff]
  rw [← List.forall_mem_map (P := fun d : RuleDefinition => ∃ tree,
    Tree.parse limits d.source = .ok tree), List.zipIdx_map_fst]

/-- All rules compile iff all sources parse: neither identifiers nor descriptions matter. -/
theorem exists_compileRules_iff (limits : Limits) (warn : Bool) (index : Nat)
    (rules : List RuleDefinition) :
    (∃ compiled, (compileRules limits warn index rules).2 = .ok compiled) ↔
      ∀ d ∈ rules, ∃ tree, Tree.parse limits d.source = .ok tree := by
  simp only [compileRules_eq_mapM, mapM_eq_ok_iff]
  rw [exists_forall₂_iff, forall_compile_zipIdx_iff]

/-- **The first rule that is not parsed** is the one that is not compiled. -/
theorem compileRules_eq_error_iff {limits : Limits} {warn : Bool} {index : Nat}
    {rules : List RuleDefinition} {e : RuleSetError} :
    (compileRules limits warn index rules).2 = .error e ↔
      ∃ before d after error, rules = before ++ d :: after ∧
        (∀ r ∈ before, ∃ tree, Tree.parse limits r.source = .ok tree) ∧
        Tree.parse limits d.source = .error error ∧
        .badRule (effectiveId (index + before.length) d) error = e := by
  rw [compileRules_eq_mapM, mapM_eq_error_iff]
  simp only [Rule.compile_text_eq_error_iff]
  constructor
  · rintro ⟨_, _, _, hsplit, hbefore, error, herror, rfl⟩
    obtain ⟨before, rest, rfl, rfl, hrest⟩ := List.zipIdx_eq_append_iff.1 hsplit
    obtain ⟨d, after, rfl, rfl, -⟩ := List.zipIdx_eq_cons_iff.1 hrest.symm
    exact ⟨before, d, after, error, rfl, forall_compile_zipIdx_iff.1 hbefore, herror, rfl⟩
  · rintro ⟨before, d, after, error, rfl, hbefore, herror, rfl⟩
    rw [List.zipIdx_append, List.zipIdx_cons]
    exact ⟨_, _, _, rfl, forall_compile_zipIdx_iff.2 hbefore, error, herror, rfl⟩

/-- Compiled rules are as many as the definitions, under the ids that these get. -/
theorem ids_of_compileRules {limits : Limits} {warn : Bool} {index : Nat}
    {definitions : List RuleDefinition} {rules : List Rule}
    (h : (compileRules limits warn index definitions).2 = .ok rules) :
    rules.map Rule.id = (definitionEntries index definitions).map Prod.fst ∧
      rules.length = definitions.length ∧ (rules = [] ↔ definitions = []) := by
  have hentries := (entries_of_compileRules h).1
  have hlength : rules.length = definitions.length := by
    simpa [definitionEntries] using congrArg List.length hentries
  refine ⟨by rw [← hentries, Rule.map_fst_entry], hlength, ?_⟩
  rw [← List.length_eq_zero_iff, hlength, List.length_eq_zero_iff]

/-- A conjunction fails iff it is of more trees than rules may be combined, and says how many. -/
theorem conjoinFrom_eq_error_iff {limits : Limits} {first : Tree} {rest : List Tree}
    {x : LimitExceeded} :
    Tree.conjoinFrom limits first rest = .error x ↔
      limits.combinedRules < (first :: rest).length ∧
        x = ⟨.combinedRules, limits.combinedRules, (first :: rest).length⟩ := by
  simp only [Tree.conjoinFrom, bind_eq_error_iff, Limits.check_eq_error_iff, pure_ne_error,
    and_false, exists_false, or_false, Limits.bound]

/-- **Rules make no set** iff an id is repeated, or else they are too many. -/
theorem ofRules_eq_error_iff {limits : Limits} {name : Option Text} {rules : List Rule}
    {e : RuleSetError} :
    ofRules limits name rules = .error e ↔
      (∃ id, repeated? [] (rules.map Rule.id) = some id ∧ .duplicate id = e) ∨
        ((rules.map Rule.id).Nodup ∧ rules ≠ [] ∧ limits.combinedRules < rules.length ∧
          .tooLarge ⟨.combinedRules, limits.combinedRules, rules.length⟩ = e) := by
  unfold ofRules
  split
  · rename_i id hrep
    have hnodup : ¬(rules.map Rule.id).Nodup := fun h => by
      rw [repeated?_eq_none_iff.2 ⟨h, by simp⟩] at hrep
      exact absurd hrep (by simp)
    simp [hrep, hnodup]
  · rename_i hrep
    have hnodup := (repeated?_eq_none_iff.1 hrep).1
    cases rules with
    | nil => simp [repeated?]
    | cons first rest =>
      simp only [bind_eq_error_iff, mapError_eq_error_iff, conjoinFrom_eq_error_iff, pure_ne_error,
        and_false, exists_false, or_false, hrep, hnodup]
      simp

end RuleSet

/-! ## Limits that a definition exceeds -/

/-- **The limit that the rules of a definition exceed first**: one of a rule after others that are
parsed, or the one on their number. -/
inductive Definition.Exceeds (limits : Limits) (d : Definition) : LimitExceeded → Prop
  | rule {before after : List RuleDefinition} {r : RuleDefinition} {x : LimitExceeded} :
      d.rules = before ++ r :: after →
      (∀ b ∈ before, ∃ tree, Tree.parse limits b.source = .ok tree) →
      Tree.parse limits r.source = .error (.limit x) → Exceeds limits d x
  | count : (∀ r ∈ d.rules, ∃ tree, Tree.parse limits r.source = .ok tree) →
      ((RuleSet.definitionEntries 0 d.rules).map Prod.fst).Nodup → d.rules ≠ [] →
      limits.combinedRules < d.rules.length →
      Exceeds limits d ⟨.combinedRules, limits.combinedRules, d.rules.length⟩

namespace RuleSet

variable {limits : Limits} {d : Definition}

/-- What the rules of a definition make under limits. -/
def ofRuleDefinitions (limits : Limits) (warn : Bool) (d : Definition) :
    Except RuleSetError RuleSet :=
  (compileRules limits warn 0 d.rules).2 >>= ofRules limits d.name

/-- The outcome of a definition, apart from its warnings: the limits first, then the rules. -/
theorem outcome_ofDefinition (given : Option Limits) (warn : Bool) (d : Definition) :
    (ofDefinition given warn d).outcome =
      (limitsFor given d >>= fun limits => (ofRuleDefinitions limits warn d).mapError .set) := by
  unfold ofDefinition
  cases limitsFor given d <;> rfl

/-- An error of compiled rules quotes only the limit on their number. -/
theorem ofRules_exceeded_iff (name : Option Text) {rules : List Rule} {x : LimitExceeded} :
    (∃ e, ofRules limits name rules = .error e ∧ x ∈ e.exceeded?) ↔
      (rules.map Rule.id).Nodup ∧ rules ≠ [] ∧ limits.combinedRules < rules.length ∧
        ⟨.combinedRules, limits.combinedRules, rules.length⟩ = x := by
  simp only [ofRules_eq_error_iff]
  constructor
  · rintro ⟨e, ⟨id, -, rfl⟩ | ⟨hnodup, hne, hlen, rfl⟩, hx⟩
    · exact absurd hx (by simp [RuleSetError.exceeded?])
    · exact ⟨hnodup, hne, hlen, Option.some.inj hx⟩
  · rintro ⟨hnodup, hne, hlen, rfl⟩
    exact ⟨_, .inr ⟨hnodup, hne, hlen, rfl⟩, rfl⟩

/-- An error of a rule quotes the limit that the rule exceeds. -/
theorem compileRules_exceeded_iff (warn : Bool) {index : Nat} {rules : List RuleDefinition}
    {x : LimitExceeded} :
    (∃ e, (compileRules limits warn index rules).2 = .error e ∧ x ∈ e.exceeded?) ↔
      ∃ before d after, rules = before ++ d :: after ∧
        (∀ r ∈ before, ∃ tree, Tree.parse limits r.source = .ok tree) ∧
        Tree.parse limits d.source = .error (.limit x) := by
  simp only [compileRules_eq_error_iff]
  constructor
  · rintro ⟨_, ⟨before, d, after, error, hsplit, hbefore, herror, rfl⟩, hx⟩
    cases error with
    | limit x' =>
      obtain rfl := Option.some.inj hx
      exact ⟨before, d, after, hsplit, hbefore, herror⟩
    | _ => exact absurd hx (by simp [RuleSetError.exceeded?, ParseError.exceeded?])
  · rintro ⟨before, d, after, hsplit, hbefore, herror⟩
    exact ⟨_, ⟨before, d, after, _, hsplit, hbefore, herror, rfl⟩, rfl⟩

/-- **The error of a set quotes a limit** iff its rules exceed that limit. -/
theorem exists_exceeded_iff (warn : Bool) {x : LimitExceeded} :
    (∃ e, ofRuleDefinitions limits warn d = .error e ∧ x ∈ e.exceeded?) ↔ d.Exceeds limits x := by
  simp only [ofRuleDefinitions, bind_eq_error_iff]
  constructor
  · rintro ⟨e, he | ⟨rules, hrules, he⟩, hx⟩
    · obtain ⟨before, r, after, hsplit, hbefore, herror⟩ :=
        (compileRules_exceeded_iff warn).1 ⟨e, he, hx⟩
      exact .rule hsplit hbefore herror
    · obtain ⟨hnodup, hne, hlen, rfl⟩ := (ofRules_exceeded_iff d.name).1 ⟨e, he, hx⟩
      obtain ⟨hids, hlength, hnil⟩ := ids_of_compileRules hrules
      rw [hlength] at hlen ⊢
      exact .count ((exists_compileRules_iff ..).1 ⟨rules, hrules⟩) (hids ▸ hnodup)
        (mt hnil.2 hne) hlen
  · rintro (⟨hsplit, hbefore, herror⟩ | ⟨hparsed, hnodup, hne, hlen⟩)
    · obtain ⟨e, he, hx⟩ := (compileRules_exceeded_iff warn).2 ⟨_, _, _, hsplit, hbefore, herror⟩
      exact ⟨e, .inl he, hx⟩
    · obtain ⟨rules, hrules⟩ := (exists_compileRules_iff limits warn 0 d.rules).2 hparsed
      obtain ⟨hids, hlength, hnil⟩ := ids_of_compileRules hrules
      rw [← hlength] at hlen ⊢
      obtain ⟨e, he, hx⟩ := (ofRules_exceeded_iff d.name).2
        ⟨hids ▸ hnodup, mt hnil.1 hne, hlen, rfl⟩
      exact ⟨e, .inr ⟨rules, hrules, he⟩, hx⟩

end RuleSet

end Criteria
