import Criteria.Definition
import Criteria.Proofs.Validator

/-!
# Proofs/Validating — which objects describe a definition

A field with two names says what is given under the first of them, or else under the second
(`Fields.given?`); every field that is not declared is left over, in order (`Fields.LeavesOver`).
By the laws of validation an object describes the rule, or the set, whose parts its fields say:
`RuleDefinition.rule_eq_ok_iff`, `Definition.definition_eq_ok_iff`.
-/

namespace Criteria

open Outcome

/-! ## What an object says -/

/-- The two names of the text of a rule, the one that counts first. -/
def sourceNames : Text × Text := ("ruleString".toList, "rule_string".toList)

/-- The two names of the limits, the one that counts first. -/
def limitsNames : Text × Text := ("expressionLimits".toList, "expression_limits".toList)

namespace Fields

/-- What is given under the first of two names, or else under the second. -/
def given? (names : Text × Text) (fields : Fields) : Option Value :=
  (fields.find? names.1).or (fields.find? names.2)

/-- **The fields of an object that are not declared are left over**, in order, where each key is a
text.  The second of two names is declared unless the first is there as well. -/
def LeavesOver (declared : List Text) (names : Text × Text) (fields : Fields)
    (extra : List (Text × Value)) : Prop :=
  ∃ entries, fields = ofEntries entries ∧ extra = entries.filter fun entry =>
    entry.1 ∉ declared ∧ entry.1 ≠ names.1 ∧
      (entry.1 = names.2 → names.1 ∈ entries.map Prod.fst)

end Fields

/-- **The parts of a rule are what an object says.** -/
structure RuleDefinition.IsMadeOf (fields : Fields) (r : RuleDefinition) : Prop where
  id : Value.Says Value.Denotes (fields.find? "id".toList) r.id
  source : ∃ value, fields.given? sourceNames = some value ∧ value.Denotes r.source
  description : Value.Says Value.Denotes (fields.find? "description".toList) r.description
  extra : fields.LeavesOver ["id".toList, "description".toList] sourceNames r.extra

namespace Definition

/-- What a field says of the rules: none if it is absent, and else one for each item. -/
def SaysRules : Option Value → List RuleDefinition → Prop
  | none, rules => rules = []
  | some value, rules => ∃ items, (value = .list items ∨ value = .tuple items) ∧
    List.Forall₂ (fun item r => ∃ fields, item = .object fields ∧ r.IsMadeOf fields) items rules

/-- **The parts of a definition are what an object says.** -/
structure IsMadeOf (fields : Fields) (d : Definition) : Prop where
  name : Value.Says Value.Denotes (fields.find? "name".toList) d.name
  description : Value.Says Value.Denotes (fields.find? "description".toList) d.description
  rules : SaysRules (fields.find? "rules".toList) d.rules
  limits : Value.Says Value.HasEntries (fields.given? limitsNames) d.limits
  extra : fields.LeavesOver ["name".toList, "description".toList, "rules".toList] limitsNames
    d.extra

end Definition

/-! ## What is left over -/

namespace Schema

variable {schema : Schema} {names : Text × Text} {declared : List Text}
  {entries : List (Text × Value)}

/-- The keys that are read: the names of the fields with one name, and of a field with two names the
first, or else the second. -/
theorem reads_iff_of_names
    (hplain : ∀ name, name ∈ declared ↔
      ∃ field ∈ schema.fields, field.alias? = none ∧ field.name = name)
    (haliased : ∀ a name, names = (a, name) ↔
      ∃ field ∈ schema.fields, field.alias? = some a ∧ field.name = name)
    {fields : Fields} {key : Text} (hkey : (fields.find? key).isSome) :
    schema.reads fields key ↔
      key ∈ declared ∨ key = names.1 ∨ key = names.2 ∧ fields.find? names.1 = none := by
  rw [reads_iff, hplain]
  constructor
  · rintro ⟨field, hfield, hread⟩
    cases halias : field.alias? with
    | none =>
      rw [Field.key?_of_alias?_eq_none halias hkey] at hread
      exact .inl ⟨field, hfield, halias, hread.symm⟩
    | some a =>
      obtain rfl := (haliased a field.name).2 ⟨field, hfield, halias, rfl⟩
      exact .inr ((Field.key?_of_alias?_eq_some halias hkey).1 hread)
  · rintro (⟨field, hfield, halias, hname⟩ | hnames)
    · exact ⟨field, hfield, (Field.key?_of_alias?_eq_none halias hkey).2 hname.symm⟩
    · obtain ⟨field, hfield, halias, hname⟩ := (haliased names.1 names.2).1 rfl
      rw [← hname] at hnames
      exact ⟨field, hfield, (Field.key?_of_alias?_eq_some halias hkey).2 hnames⟩

/-- **What is left over is what no field is read from.** -/
theorem others_eq_filter
    (hplain : ∀ name, name ∈ declared ↔
      ∃ field ∈ schema.fields, field.alias? = none ∧ field.name = name)
    (haliased : ∀ a name, names = (a, name) ↔
      ∃ field ∈ schema.fields, field.alias? = some a ∧ field.name = name) :
    schema.others entries = entries.filter fun entry =>
      entry.1 ∉ declared ∧ entry.1 ≠ names.1 ∧
        (entry.1 = names.2 → names.1 ∈ entries.map Prod.fst) := by
  refine List.filter_congr fun entry hentry => ?_
  have hkey := Fields.find?_ofEntries_isSome_iff.2 (List.mem_map_of_mem (f := Prod.fst) hentry)
  rw [Bool.eq_iff_iff, Bool.not_eq_true', ← Bool.not_eq_true, decide_eq_true_iff,
    reads_iff_of_names hplain haliased hkey, ← Fields.find?_ofEntries_isSome_iff,
    ← Option.ne_none_iff_isSome]
  tauto

end Schema

/-! ## What an object describes -/

/-- What is read of a text that may be missing. -/
theorem Validator.reads_optional_text_iff {v : Validator} {fields : Fields} {name : Text}
    {datum : Datum} : v.Reads fields (.optional name .text) datum ↔ ∃ s?,
      Value.Says Value.Denotes (fields.find? name) s? ∧ datum = s?.elim .null .text := by
  rw [reads_optional_iff takes_text_iff, Field.given?_of_alias?_eq_none rfl]
  rfl

namespace RuleDefinition

variable {v : Validator} {fields : Fields}

/-- The declared fields of a rule with these parts. -/
def data (id : Option Text) (source : Text) (description : Option Text) : List (Text × Datum) :=
  [("id".toList, id.elim .null .text), ("rule_string".toList, .text source),
    ("description".toList, description.elim .null .text)]

/-- A rule as an instance. -/
def toInstance (r : RuleDefinition) : Instance where
  fields := data r.id r.source r.description
  extra := r.extra

@[simp] theorem ofInstance_toInstance (r : RuleDefinition) : ofInstance r.toInstance = r := by
  obtain ⟨id, source, description, extra⟩ := r
  cases id <;> cases description <;> rfl

/-- What a rule has beyond its fields.  The second spelling of the source is among it iff the first
is given too. -/
theorem others_eq_filter (entries : List (Text × Value)) :
    schema.others entries = entries.filter fun entry =>
      entry.1 ∉ ["id".toList, "description".toList] ∧ entry.1 ≠ sourceNames.1 ∧
        (entry.1 = sourceNames.2 → sourceNames.1 ∈ entries.map Prod.fst) := by
  refine Schema.others_eq_filter (fun name => ?_) fun a name => ?_
  · simp only [schema, sourceField, Field.optional, List.mem_cons, List.not_mem_nil, or_false,
      exists_eq_or_imp, exists_eq_left, reduceCtorEq, false_and, false_or, true_and,
      @eq_comm _ name]
  · simp only [schema, sourceField, Field.optional, List.mem_cons, List.not_mem_nil, or_false,
      exists_eq_or_imp, exists_eq_left, reduceCtorEq, false_and, false_or]
    exact Prod.ext_iff.trans (and_congr_left' Option.some_inj.symm)

/-- What the validator reads of a rule, one field after another. -/
theorem readsAll_iff {ds : List (Text × Datum)} :
    v.ReadsAll fields schema.fields ds ↔ ∃ id source description,
      Value.Says Value.Denotes (fields.find? "id".toList) id ∧
      (∃ value, fields.given? sourceNames = some value ∧ value.Denotes source) ∧
      Value.Says Value.Denotes (fields.find? "description".toList) description ∧
      ds = data id source description := by
  have hsource : sourceField.given? fields = fields.given? sourceNames :=
    Field.given?_of_alias?_eq_some rfl fields
  have hrequired (datum : Datum) : v.Reads fields sourceField datum ↔ ∃ value,
      fields.given? sourceNames = some value ∧ v.Takes value .text datum := by
    rw [Validator.reads_required_iff rfl rfl, hsource]
    rfl
  simp only [schema, Validator.readsAll_cons_iff, Validator.readsAll_nil_iff,
    Validator.reads_optional_text_iff, hrequired, Validator.Takes]
  constructor
  · rintro ⟨_, _, ⟨id, hid, rfl⟩, ⟨_, _, ⟨value, hvalue, source, hs, rfl⟩,
      ⟨_, _, ⟨description, hdescription, rfl⟩, rfl, rfl⟩, rfl⟩, rfl⟩
    exact ⟨id, source, description, hid, ⟨value, hvalue, hs⟩, hdescription, rfl⟩
  · rintro ⟨id, source, description, hid, ⟨value, hvalue, hs⟩, hdescription, rfl⟩
    exact ⟨_, _, ⟨id, hid, rfl⟩, ⟨_, _, ⟨value, hvalue, source, hs, rfl⟩,
      ⟨_, _, ⟨description, hdescription, rfl⟩, rfl, rfl⟩, rfl⟩, rfl⟩

/-- **The instances of the schema** are the objects that say the parts of a rule. -/
theorem instance_eq_ok_iff (hv : v.Lawful) {value : Value} {i : Instance} :
    v schema value = .ok i ↔ ∃ r : RuleDefinition,
      (∃ fields, value = .object fields ∧ r.IsMadeOf fields) ∧ i = r.toInstance := by
  constructor
  · intro h
    obtain ⟨entries, rfl⟩ := hv.object h
    obtain ⟨hfields, hextra, -⟩ := hv.object_eq_ok_iff.1 h
    obtain ⟨id, source, description, hid, hsource, hdescription, hdata⟩ := readsAll_iff.1 hfields
    obtain ⟨_, _⟩ := i
    obtain rfl := hdata
    obtain rfl := hextra
    exact ⟨⟨id, source, description, _⟩,
      ⟨_, rfl, hid, hsource, hdescription, entries, rfl, others_eq_filter entries⟩, rfl⟩
  · rintro ⟨r, ⟨_, rfl, hid, hsource, hdescription, entries, rfl, hextra⟩, rfl⟩
    exact hv.object_eq_ok_iff.2 ⟨readsAll_iff.2 ⟨_, _, _, hid, hsource, hdescription, rfl⟩,
      hextra.trans (others_eq_filter entries).symm, by simp [schema]⟩

/-- **An object describes the rule whose parts it says.** -/
theorem rule_eq_ok_iff (hv : v.Lawful) {r : RuleDefinition} :
    v.rule fields = .ok r ↔ r.IsMadeOf fields := by
  simp only [Validator.rule, map_eq_ok_iff, instance_eq_ok_iff hv]
  constructor
  · rintro ⟨_, ⟨r, ⟨_, hfields, hr⟩, rfl⟩, rfl⟩
    obtain rfl := Value.object.inj hfields
    rwa [ofInstance_toInstance]
  · exact fun h => ⟨_, ⟨r, ⟨_, rfl, h⟩, rfl⟩, ofInstance_toInstance r⟩

end RuleDefinition

namespace Definition

variable {v : Validator} {fields : Fields}

/-- The declared fields of a rule set with these parts. -/
def data (name description : Option Text) (rules : List RuleDefinition)
    (limits : Option (List (Text × Value))) : List (Text × Datum) :=
  [("name".toList, name.elim .null .text), ("description".toList, description.elim .null .text),
    ("rules".toList, .list (rules.map RuleDefinition.toInstance)),
    ("expression_limits".toList, limits.elim .null .entries)]

/-- A rule set as an instance. -/
def toInstance (d : Definition) : Instance where
  fields := data d.name d.description d.rules d.limits
  extra := d.extra

@[simp] theorem ofInstance_toInstance (d : Definition) : ofInstance d.toInstance = d := by
  obtain ⟨name, description, rules, limits, extra⟩ := d
  have hrules : (rules.map RuleDefinition.toInstance).map .ofInstance = rules := by
    simp [Function.comp_def]
  cases name <;> cases description <;> cases limits <;>
    exact congrArg (Definition.mk _ _ · _ _) hrules

/-- What a definition has beyond its fields.  The second spelling of the limits is among it iff the
first is given too. -/
theorem others_eq_filter (entries : List (Text × Value)) :
    schema.others entries = entries.filter fun entry =>
      entry.1 ∉ ["name".toList, "description".toList, "rules".toList] ∧
        entry.1 ≠ limitsNames.1 ∧
        (entry.1 = limitsNames.2 → limitsNames.1 ∈ entries.map Prod.fst) := by
  refine Schema.others_eq_filter (fun name => ?_) fun a name => ?_
  · simp only [schema, rulesField, limitsField, Field.optional, List.mem_cons, List.not_mem_nil,
      or_false, exists_eq_or_imp, exists_eq_left, reduceCtorEq, false_and, true_and,
      @eq_comm _ name]
  · simp only [schema, rulesField, limitsField, Field.optional, List.mem_cons, List.not_mem_nil,
      or_false, exists_eq_or_imp, exists_eq_left, reduceCtorEq, false_and, false_or]
    exact Prod.ext_iff.trans (and_congr_left' Option.some_inj.symm)

/-- Items are instances of rules iff each of them describes one. -/
theorem forall₂_rules_iff (hv : v.Lawful) {items : List Value} {instances : List Instance} :
    List.Forall₂ (fun item i => v RuleDefinition.schema item = .ok i) items instances ↔
      ∃ rules, List.Forall₂ (fun item (r : RuleDefinition) =>
        ∃ fields, item = .object fields ∧ r.IsMadeOf fields) items rules ∧
          instances = rules.map RuleDefinition.toInstance := by
  simp only [RuleDefinition.instance_eq_ok_iff hv]
  exact forall₂_exists_map_iff

/-- What is read of the rules is one for each item. -/
theorem reads_rules_iff (hv : v.Lawful) {datum : Datum} :
    v.Reads fields rulesField datum ↔ ∃ rules,
      SaysRules (fields.find? "rules".toList) rules ∧
        datum = .list (rules.map RuleDefinition.toInstance) := by
  have hgiven : rulesField.given? fields = fields.find? "rules".toList :=
    Field.given?_of_alias?_eq_none rfl fields
  constructor
  · rintro (⟨hnone, hdefault⟩ | ⟨-, hnull⟩ | ⟨hvalue, items, instances, hlist, hitem, rfl⟩)
    · rw [← hgiven, hnone]
      exact ⟨[], rfl, (Option.some.inj hdefault).symm⟩
    · exact absurd hnull (by simp [rulesField])
    · obtain ⟨rules, hrules, rfl⟩ := (forall₂_rules_iff hv).1 hitem
      rw [← hgiven, hvalue]
      exact ⟨rules, ⟨items, hlist, hrules⟩, rfl⟩
  · rintro ⟨rules, hrules, rfl⟩
    rw [← hgiven] at hrules
    cases hfield : rulesField.given? fields with
    | none =>
      rw [hfield] at hrules
      obtain rfl : rules = [] := hrules
      exact .default hfield rfl
    | some value =>
      rw [hfield] at hrules
      obtain ⟨items, hlist, hrules⟩ := hrules
      exact .value hfield ⟨items, _, hlist, (forall₂_rules_iff hv).2 ⟨rules, hrules, rfl⟩, rfl⟩

/-- What the validator reads of a definition, one field after another; its rules are themselves
validated. -/
theorem readsAll_iff (hv : v.Lawful) {ds : List (Text × Datum)} :
    v.ReadsAll fields schema.fields ds ↔ ∃ name description rules limits,
      Value.Says Value.Denotes (fields.find? "name".toList) name ∧
      Value.Says Value.Denotes (fields.find? "description".toList) description ∧
      SaysRules (fields.find? "rules".toList) rules ∧
      Value.Says Value.HasEntries (fields.given? limitsNames) limits ∧
      ds = data name description rules limits := by
  have hlimits : limitsField.given? fields = fields.given? limitsNames :=
    Field.given?_of_alias?_eq_some rfl fields
  have hoptional (datum : Datum) : v.Reads fields limitsField datum ↔ ∃ limits,
      Value.Says Value.HasEntries (fields.given? limitsNames) limits ∧
        datum = limits.elim .null .entries := by
    rw [limitsField, Validator.reads_optional_iff Validator.takes_entries_iff, ← limitsField,
      hlimits]
  simp only [schema, Validator.readsAll_cons_iff, Validator.readsAll_nil_iff,
    Validator.reads_optional_text_iff, reads_rules_iff hv, hoptional]
  constructor
  · rintro ⟨_, _, ⟨name, hname, rfl⟩, ⟨_, _, ⟨description, hdescription, rfl⟩,
      ⟨_, _, ⟨rules, hrules, rfl⟩, ⟨_, _, ⟨limits, hlimits, rfl⟩, rfl, rfl⟩, rfl⟩, rfl⟩, rfl⟩
    exact ⟨name, description, rules, limits, hname, hdescription, hrules, hlimits, rfl⟩
  · rintro ⟨name, description, rules, limits, hname, hdescription, hrules, hlimits, rfl⟩
    exact ⟨_, _, ⟨name, hname, rfl⟩, ⟨_, _, ⟨description, hdescription, rfl⟩,
      ⟨_, _, ⟨rules, hrules, rfl⟩, ⟨_, _, ⟨limits, hlimits, rfl⟩, rfl, rfl⟩, rfl⟩, rfl⟩, rfl⟩

/-- **The instances of the schema** are the objects that say the parts of a definition. -/
theorem instance_eq_ok_iff (hv : v.Lawful) {i : Instance} :
    v schema (.object fields) = .ok i ↔ ∃ d : Definition, d.IsMadeOf fields ∧ i = d.toInstance := by
  constructor
  · intro h
    obtain ⟨entries, hentries⟩ := hv.object h
    obtain rfl := Value.object.inj hentries
    obtain ⟨hfields, hextra, -⟩ := hv.object_eq_ok_iff.1 h
    obtain ⟨name, description, rules, limits, hname, hdescription, hrules, hlimits, hdata⟩ :=
      (readsAll_iff hv).1 hfields
    obtain ⟨_, _⟩ := i
    obtain rfl := hdata
    obtain rfl := hextra
    exact ⟨⟨name, description, rules, limits, _⟩,
      ⟨hname, hdescription, hrules, hlimits, entries, rfl, others_eq_filter entries⟩, rfl⟩
  · rintro ⟨d, ⟨hname, hdescription, hrules, hlimits, entries, rfl, hextra⟩, rfl⟩
    exact hv.object_eq_ok_iff.2 ⟨(readsAll_iff hv).2
      ⟨_, _, _, _, hname, hdescription, hrules, hlimits, rfl⟩,
      hextra.trans (others_eq_filter entries).symm, by simp [schema]⟩

/-- **An object describes the definition whose parts it says.** -/
theorem definition_eq_ok_iff (hv : v.Lawful) {d : Definition} :
    v.definition fields = .ok d ↔ d.IsMadeOf fields := by
  simp only [Validator.definition, map_eq_ok_iff, instance_eq_ok_iff hv]
  constructor
  · rintro ⟨_, ⟨d, hd, rfl⟩, rfl⟩
    rwa [ofInstance_toInstance]
  · exact fun h => ⟨_, ⟨d, h, rfl⟩, ofInstance_toInstance d⟩

end Definition

end Criteria
