import Criteria.Proofs.Rereading
import Criteria.Proofs.Validating

/-!
# Proofs/Describing — a stored set is a document that describes it

A set is stored with the trees of its rules and with their conjunction, which no document declares:
they are kept as extra fields, and what is declared is `RuleSet.definition` (`ofFields_of_encode`).
Compiling that definition parses every text anew.  A set is sound, so this gives its own trees, and
its own rules pass the checks again (`Sound.ofRules_rules`).  Hence a set whose ids are not empty is
described by what it is stored as: `outcome_ofDefinition_encode`.
-/

namespace Criteria

/-! ## What a set declares -/

/-- A rule as a definition; its tree is kept as an extra field. -/
def Rule.definition (rule : Rule) : RuleDefinition where
  id := some rule.id
  source := rule.source
  description := rule.description
  extra := [("ast".toList, rule.tree.encode)]

/-- A set as a definition.  Its limits are not stored; its conjunction is kept as an extra field. -/
def RuleSet.definition (s : RuleSet) : Definition where
  name := s.name
  description := none
  rules := s.rules.map Rule.definition
  limits := none
  extra := [("combined".toList, (s.combined.map Tree.encode).getD .null)]

/-! ## Validation -/

namespace RuleSet

variable {limits : Limits} {s : RuleSet}

/-- What is stored of a text that may be missing says just that. -/
theorem says_optionalText (s : Option Text) :
    Value.Says Value.Denotes (some (optionalText s)) s := by
  cases s with
  | none => exact .inr rfl
  | some s => exact ⟨_, rfl, .inl rfl⟩

/-- **A stored rule is validated**: it says what the rule declares. -/
theorem exists_isMadeOf_encodeRule (rule : Rule) :
    ∃ fields, encodeRule rule = .object fields ∧ rule.definition.IsMadeOf fields := by
  refine ⟨_, rfl, ⟨_, rfl, .inl rfl⟩, ⟨_, rfl, .inl rfl⟩,
    says_optionalText rule.description, ?_⟩
  exact ⟨[("id".toList, .text rule.id), ("ruleString".toList, .text rule.source),
    ("description".toList, optionalText rule.description), ("ast".toList, rule.tree.encode)],
    rfl, rfl⟩

/-- **A stored set is validated**, whatever it holds. -/
theorem ofFields_of_encode {fields : Fields} (h : s.encode = .object fields) :
    Definition.ofFields fields = .ok s.definition := by
  obtain rfl := Value.object.inj h
  refine (Definition.definition_eq_ok_iff Schema.lawful_validate).2
    ⟨says_optionalText s.name, .inl rfl, ⟨_, .inl rfl, ?_⟩, .inl rfl, ?_⟩
  · refine List.forall₂_map_left_iff.2 (List.forall₂_map_right_iff.2 (List.forall₂_same.2 ?_))
    exact fun rule _ => exists_isMadeOf_encodeRule rule
  · exact ⟨[("name".toList, optionalText s.name),
      ("rules".toList, .list (s.rules.map encodeRule)),
      ("combined".toList, (s.combined.map Tree.encode).getD .null)], rfl, rfl⟩

/-! ## Compiling -/

/-- A rule whose id is not empty keeps it, wherever it stands. -/
theorem effectiveId_definition {rule : Rule} (h : rule.id ≠ []) (index : Nat) :
    effectiveId index rule.definition = rule.id := by
  obtain ⟨c, cs, hid⟩ := List.exists_cons_of_ne_nil h
  rw [effectiveId, Rule.definition, hid]

/-- **Parsed rules are compiled to themselves** from what they declare. -/
theorem compileRules_definition {rules : List Rule} (hid : ∀ rule ∈ rules, rule.id ≠ [])
    (hp : ∀ rule ∈ rules, Tree.parse limits rule.source = .ok rule.tree) (warn : Bool)
    (index : Nat) :
    (compileRules limits warn index (rules.map Rule.definition)).2 = .ok rules := by
  induction rules generalizing index with
  | nil => rfl
  | cons rule rules ih =>
    rw [List.forall_mem_cons] at hid hp
    have hrule : Rule.compile limits (effectiveId index rule.definition)
        rule.definition.description (.text rule.definition.source) = .ok rule := by
      rw [effectiveId_definition hid.1]
      exact Rule.compile_eq_ok_iff.2 ⟨rfl, rfl, hp.1⟩
    rw [List.map_cons, compileRules, hrule]
    dsimp only
    rw [ih hid.2 hp.2]
    rfl

/-- **The rules of a sound set make it again.** -/
theorem Sound.ofRules_rules (h : s.Sound limits) : ofRules limits s.name s.rules = .ok s := by
  refine ofRules_eq_ok_iff.2 ⟨h.nodup_ids, h.length_le, ?_⟩
  rw [← h.combined_eq, ← h.limits_eq]

/-- **A stored set describes itself.**  What a set under limits is stored as, however often it was
edited, is validated; and if no id is empty, the definition it is validated to is compiled to that
set under those limits: to its name, its rules in order, each with its id, text, description and
tree, and its conjunction. -/
theorem outcome_ofDefinition_encode (limits : Limits) (s : RuleSet) (hs : s.ReachableUnder limits)
    (hid : ∀ id ∈ s.ids, id ≠ []) :
    ∃ fields d, s.encode = .object fields ∧ Definition.ofFields fields = .ok d ∧
      ∀ warn, (ofDefinition (some limits) warn d).outcome = .ok s := by
  refine ⟨_, s.definition, rfl, ofFields_of_encode rfl, fun warn => ?_⟩
  have hid : ∀ rule ∈ s.rules, rule.id ≠ [] := fun rule hm => hid rule.id (List.mem_map_of_mem hm)
  have hrules := compileRules_definition hid hs.sound.parse_source warn 0
  exact Outcome.mapError_eq_ok_iff.2
    (Outcome.bind_eq_ok_iff.2 ⟨s.rules, hrules, hs.sound.ofRules_rules⟩)

/-- A named set, after a rule with a description is put into it. -/
theorem outcome_ofDefinition_encode_put :
    let rule : Rule := ⟨"p".toList, "(a > 1) OR b < 2".toList,
      .operator orWord (.operand "a > 1".toList) (.operand "b < 2".toList), none⟩
    let made : RuleSet := ⟨some "n".toList, {}, [rule], some rule.tree⟩
    let s := (Edit.run made [rule.entry]
      [.put "q".toList (.text "c = 'x'".toList) (some "why".toList)]).1
    s.ReachableUnder {} ∧ (∀ id ∈ s.ids, id ≠ []) ∧
      s.rules.map Rule.description = [none, some "why".toList] ∧
      ∃ fields d, s.encode = .object fields ∧ Definition.ofFields fields = .ok d ∧
        ∀ warn, (ofDefinition (some {}) warn d).outcome = .ok s := by
  intro rule made s
  have hparse : Tree.parse {} rule.source = .ok rule.tree := by decide +kernel
  have hmade : MadeFrom {} made [rule.entry] := .entries <| ofEntries_eq_ok_iff.2 ⟨[rule],
    .cons (Rule.compile_eq_ok_iff.2 ⟨rfl, rfl, hparse⟩) .nil,
    ofRules_eq_ok_iff.2 ⟨List.nodup_singleton _, fun _ => by decide, rfl⟩⟩
  have hs : s.ReachableUnder {} := ⟨made, _, _, hmade, rfl⟩
  have hids : s.ids = ["p".toList, "q".toList] := by decide +kernel
  have hid : ∀ id ∈ s.ids, id ≠ [] := by simp [hids]
  exact ⟨hs, hid, by decide +kernel, outcome_ofDefinition_encode {} s hs hid⟩

end RuleSet

end Criteria
