import Criteria.Proofs.Validating
import Mathlib.Logic.Equiv.Basic
import Mathlib.Logic.Relation

/-!
# Proofs/Respelling — the spelling of a key says nothing

The text of a rule and the limits of a set have two names each.  To give one of them under the other
name is to swap the two names in the keys of its object (`Fields.respell`), and as long as no object
gives both, this neither changes what is said under them nor what is left over.  One key of a
document is respelled at a time (`Fields.Respells`): each step keeps what the document describes,
and so does any number of them (`Validator.definition_respelled`).
-/

namespace Criteria

/-- A key under the other of two names, if it is one of them. -/
def Value.respell (names : Text × Text) : Value → Value
  | .text key => .text (Equiv.swap names.1 names.2 key)
  | key => key

namespace Fields

/-- The fields of an object in their places, each under the other of two names. -/
def respell (names : Text × Text) (fields : Fields) : Fields :=
  fields.map fun field => (field.1.respell names, field.2)

/-- A field is given under both of its names. -/
def GivesBoth (names : Text × Text) (fields : Fields) : Prop :=
  (fields.find? names.1).isSome ∧ (fields.find? names.2).isSome

/-! ## Keys of one object -/

variable {names : Text × Text} {name : Text} {fields : Fields}

@[simp] theorem respell_respell (names : Text × Text) (fields : Fields) :
    (fields.respell names).respell names = fields := by
  have hkey (key : Value) : (key.respell names).respell names = key := by
    cases key <;> simp [Value.respell]
  simp [respell, Function.comp_def, hkey]

/-- What is given under a name was given under the other. -/
theorem find?_respell (names : Text × Text) (fields : Fields) (name : Text) :
    (fields.respell names).find? name = fields.find? (Equiv.swap names.1 names.2 name) := by
  induction fields with
  | nil => rfl
  | cons field fields ih =>
    obtain ⟨key, value⟩ := field
    rw [respell, List.map_cons, ← respell]
    cases key with
    | text key => simp only [Value.respell, find?, ih, Equiv.swap_apply_eq_iff]
    | _ => exact ih

theorem find?_respell_of_ne (h₁ : name ≠ names.1) (h₂ : name ≠ names.2) :
    (fields.respell names).find? name = fields.find? name := by
  rw [find?_respell, Equiv.swap_apply_of_ne_of_ne h₁ h₂]

theorem mem_respell_iff {value : Value} (h₁ : name ≠ names.1) (h₂ : name ≠ names.2) :
    (.text name, value) ∈ fields.respell names ↔ (.text name, value) ∈ fields := by
  have hkey (key : Value) : key.respell names = .text name ↔ key = .text name := by
    cases key <;> simp [Value.respell, Equiv.swap_apply_eq_iff,
      Equiv.swap_apply_of_ne_of_ne h₁ h₂]
  simp [respell, Prod.ext_iff, hkey]

/-- That both spellings are given does not depend on which is which. -/
theorem givesBoth_respell_iff :
    (fields.respell names).GivesBoth names ↔ fields.GivesBoth names := by
  rw [GivesBoth, find?_respell, find?_respell, Equiv.swap_apply_left, Equiv.swap_apply_right,
    and_comm, GivesBoth]

/-- What is said under one of two names is said under the other. -/
theorem given?_respell (h : ¬fields.GivesBoth names) :
    (fields.respell names).given? names = fields.given? names := by
  rw [given?, find?_respell, find?_respell, Equiv.swap_apply_left, Equiv.swap_apply_right, given?]
  unfold GivesBoth at h
  cases h₁ : fields.find? names.1 <;> cases h₂ : fields.find? names.2 <;> simp_all

theorem mem_of_find?_ofEntries {entries : List (Text × Value)} {value : Value}
    (h : (ofEntries entries).find? name = some value) : (name, value) ∈ entries := by
  simpa [ofEntries] using mem_of_find? h

/-- If a field is not given under both names, neither is left over. -/
theorem leavesOver_iff_of_not_givesBoth {declared : List Text} {entries extra : List (Text × Value)}
    (h : ¬(ofEntries entries).GivesBoth names) :
    (ofEntries entries).LeavesOver declared names extra ↔ extra = entries.filter fun entry =>
      entry.1 ∉ declared ∧ entry.1 ≠ names.1 ∧ entry.1 ≠ names.2 := by
  rw [GivesBoth, find?_ofEntries_isSome_iff, find?_ofEntries_isSome_iff] at h
  simp only [LeavesOver, ofEntries_injective.eq_iff, exists_eq_left']
  refine Iff.of_eq (congrArg (extra = ·) (List.filter_congr fun entry hentry => ?_))
  have hkey : entry.1 ∈ entries.map Prod.fst := List.mem_map_of_mem hentry
  refine decide_eq_decide.2 (and_congr_right fun _ => and_congr_right fun _ => ?_)
  exact imp_congr_right fun heq => iff_of_false (fun hfirst => h ⟨hfirst, heq ▸ hkey⟩) id

/-- A key that is neither of two names is its own respelling, and no other key becomes one. -/
theorem swap_left_over_iff {declared : List Text} {key : Text} :
    (Equiv.swap names.1 names.2 key ∉ declared ∧ Equiv.swap names.1 names.2 key ≠ names.1 ∧
      Equiv.swap names.1 names.2 key ≠ names.2) ↔
        key ∉ declared ∧ key ≠ names.1 ∧ key ≠ names.2 := by
  rw [ne_eq, ne_eq, Equiv.swap_apply_eq_iff, Equiv.swap_apply_eq_iff, Equiv.swap_apply_left,
    Equiv.swap_apply_right]
  by_cases h₁ : key = names.1
  · simp [h₁]
  · by_cases h₂ : key = names.2
    · simp [h₂]
    · simp [h₁, h₂, Equiv.swap_apply_of_ne_of_ne]

/-- **Under its other name a field is not left over either**, and the others stay where they are. -/
theorem LeavesOver.respell {declared : List Text} {extra : List (Text × Value)}
    (h : fields.LeavesOver declared names extra) (hboth : ¬fields.GivesBoth names) :
    (fields.respell names).LeavesOver declared names extra := by
  have ⟨entries, hentries, _⟩ := h
  subst hentries
  rw [leavesOver_iff_of_not_givesBoth hboth] at h
  have hmap : (ofEntries entries).respell names =
      ofEntries (entries.map fun entry => (Equiv.swap names.1 names.2 entry.1, entry.2)) := by
    simp [Fields.respell, ofEntries, Value.respell]
  rw [← givesBoth_respell_iff, hmap] at hboth
  rw [hmap, leavesOver_iff_of_not_givesBoth hboth, h, List.filter_map]
  simp only [Function.comp_def, swap_left_over_iff]
  refine (List.map_id _).symm.trans (List.map_congr_left fun entry hentry => ?_)
  obtain ⟨-, h₁, h₂⟩ := of_decide_eq_true (List.mem_filter.1 hentry).2
  rw [Equiv.swap_apply_of_ne_of_ne h₁ h₂, id_eq]

/-- Of a field under both names, the second is left over. -/
theorem LeavesOver.mem_of_find? {declared : List Text} {extra : List (Text × Value)}
    {first second : Value} (h : fields.LeavesOver declared names extra)
    (hnames : names.2 ≠ names.1 ∧ names.2 ∉ declared) (hfirst : fields.find? names.1 = some first)
    (hsecond : fields.find? names.2 = some second) : (names.2, second) ∈ extra := by
  obtain ⟨entries, rfl, rfl⟩ := h
  have hkey := find?_ofEntries_isSome_iff.1 (Option.isSome_of_eq_some hfirst)
  exact List.mem_filter.2 ⟨mem_of_find?_ofEntries hsecond, by simpa [hnames] using hkey⟩

/-! ## Values of one object -/

theorem find?_append_cons (before after : Fields) (key : Text) (value : Value) (name : Text) :
    (before ++ (.text key, value) :: after).find? name =
      (before.find? name).or (if key = name then some value else after.find? name) := by
  induction before with
  | nil => rfl
  | cons field before ih =>
    obtain ⟨other, _⟩ := field
    cases other with
    | text other =>
      rw [List.cons_append, find?, find?, ih]
      split <;> rfl
    | _ => exact ih

/-- A field with another name is as if it were not there. -/
theorem find?_append_cons_of_ne {before after : Fields} {key : Text} {value : Value}
    (h : key ≠ name) :
    (before ++ (.text key, value) :: after).find? name =
      (before.find? name).or (after.find? name) := by
  rw [find?_append_cons, if_neg h]

/-- What is left over does not depend on the value of a declared field. -/
theorem LeavesOver.append_cons {before after : Fields} {key : Text} {value : Value}
    {declared : List Text} {extra : List (Text × Value)} (hkey : key ∈ declared)
    (h : (before ++ (.text key, value) :: after).LeavesOver declared names extra)
    (value' : Value) :
    (before ++ (.text key, value') :: after).LeavesOver declared names extra := by
  obtain ⟨entries, hentries, rfl⟩ := h
  obtain ⟨front, rest, rfl, rfl, hrest⟩ := List.append_eq_map_iff.1 hentries
  obtain ⟨entry, back, rfl, heq, rfl⟩ := List.map_eq_cons_iff.1 hrest
  obtain rfl : entry = (key, value) := by simpa [Prod.ext_iff] using heq
  have hkeys : (front ++ (key, value) :: back).map Prod.fst =
      (front ++ (key, value') :: back).map Prod.fst := by simp
  refine ⟨front ++ (key, value') :: back, by simp [ofEntries], ?_⟩
  simp only [hkeys]
  simp [List.filter_append, hkey]

/-! ## Keys of a document -/

/-- One rule of a list gives its text under the other name. -/
inductive RespellsRule : List Value → List Value → Prop
  | mk (before after : List Value) (rule : Fields) :
      RespellsRule (before ++ .object rule :: after)
        (before ++ .object (rule.respell sourceNames) :: after)

/-- **One key of a document is respelled**, in its place: that of the limits, or that of the text of
one rule. -/
inductive Respells : Fields → Fields → Prop
  | limits {fields : Fields} : Respells fields (fields.respell limitsNames)
  | list {before after : Fields} {items items' : List Value} : RespellsRule items items' →
      Respells (before ++ (.text "rules".toList, .list items) :: after)
        (before ++ (.text "rules".toList, .list items') :: after)
  | tuple {before after : Fields} {items items' : List Value} : RespellsRule items items' →
      Respells (before ++ (.text "rules".toList, .tuple items) :: after)
        (before ++ (.text "rules".toList, .tuple items') :: after)

/-- No rule of a list gives its text under both names. -/
def RulesSpelledOnce (items : List Value) : Prop :=
  ∀ rule, .object rule ∈ items → ¬Fields.GivesBoth sourceNames rule

/-- **No object of a document gives a field under both names.** -/
structure SpelledOnce (fields : Fields) : Prop where
  limits : ¬fields.GivesBoth limitsNames
  rules : ∀ items, (.text "rules".toList, .list items) ∈ fields ∨
    (.text "rules".toList, .tuple items) ∈ fields → RulesSpelledOnce items

theorem RespellsRule.symm {items items' : List Value} (h : RespellsRule items items') :
    RespellsRule items' items := by
  obtain ⟨before, after, rule⟩ := h
  have h := RespellsRule.mk before after (rule.respell sourceNames)
  rwa [respell_respell] at h

theorem Respells.symm {fields fields' : Fields} (h : fields.Respells fields') :
    fields'.Respells fields := by
  cases h with
  | limits =>
    have h : Respells (fields.respell limitsNames) _ := .limits
    rwa [respell_respell] at h
  | list hitems => exact .list hitems.symm
  | tuple hitems => exact .tuple hitems.symm

/-- Respelling a rule does not give it both spellings. -/
theorem RulesSpelledOnce.respell {items items' : List Value} (h : RulesSpelledOnce items)
    (hitems : RespellsRule items items') : RulesSpelledOnce items' := by
  obtain ⟨before, after, rule⟩ := hitems
  simp only [RulesSpelledOnce, List.mem_append, List.mem_cons, Value.object.injEq] at h ⊢
  rintro other (hother | rfl | hother)
  · exact h other (.inl hother)
  · exact givesBoth_respell_iff.not.2 (h rule (.inr (.inl rfl)))
  · exact h other (.inr (.inr hother))

/-- Another value for the rules keeps every other field, so only the rules are to be looked at
again. -/
theorem SpelledOnce.append_cons {before after : Fields} {value value' : Value}
    (h : (before ++ (.text "rules".toList, value) :: after).SpelledOnce)
    (hvalue : ∀ items, value' = .list items ∨ value' = .tuple items → RulesSpelledOnce items) :
    (before ++ (.text "rules".toList, value') :: after).SpelledOnce := by
  obtain ⟨hlimits, hrules⟩ := h
  refine ⟨?_, fun items hmem => ?_⟩
  · rwa [GivesBoth, find?_append_cons_of_ne (by decide), find?_append_cons_of_ne (by decide)]
      at hlimits ⊢
  · simp only [List.mem_append, List.mem_cons, Prod.mk.injEq, true_and] at hrules hmem
    rcases hmem with (hmem | rfl | hmem) | (hmem | rfl | hmem)
    exacts [hrules items (.inl (.inl hmem)), hvalue items (.inl rfl),
      hrules items (.inl (.inr (.inr hmem))), hrules items (.inr (.inl hmem)),
      hvalue items (.inr rfl), hrules items (.inr (.inr (.inr hmem)))]

/-- Respelling a key gives no field a second time. -/
theorem SpelledOnce.respell {fields fields' : Fields} (h : fields.SpelledOnce)
    (hfields : fields.Respells fields') : fields'.SpelledOnce := by
  cases hfields with
  | limits =>
    refine ⟨givesBoth_respell_iff.not.2 h.limits, fun items hmem => h.rules items ?_⟩
    rwa [mem_respell_iff (by decide) (by decide), mem_respell_iff (by decide) (by decide)] at hmem
  | @list before after items items' hitems =>
    refine h.append_cons fun others hothers => ?_
    obtain rfl : items' = others := by simpa using hothers
    exact (h.rules items (.inl (by simp))).respell hitems
  | @tuple before after items items' hitems =>
    refine h.append_cons fun others hothers => ?_
    obtain rfl : items' = others := by simpa using hothers
    exact (h.rules items (.inr (by simp))).respell hitems

end Fields

/-! ## What a document describes -/

open Fields

/-- **A rule under its other key is the same rule.** -/
theorem RuleDefinition.IsMadeOf.respell {fields : Fields} {r : RuleDefinition}
    (h : r.IsMadeOf fields) (hboth : ¬fields.GivesBoth sourceNames) :
    r.IsMadeOf (fields.respell sourceNames) where
  id := by
    rw [find?_respell_of_ne (by decide) (by decide)]
    exact h.id
  source := by
    rw [given?_respell hboth]
    exact h.source
  description := by
    rw [find?_respell_of_ne (by decide) (by decide)]
    exact h.description
  extra := h.extra.respell hboth

namespace Definition

/-- A rule among others may be replaced by one that describes the same. -/
theorem forall₂_append_cons {R : Value → RuleDefinition → Prop} {before after : List Value}
    {item item' : Value} {rules : List RuleDefinition} (hitem : ∀ r, R item r → R item' r)
    (h : List.Forall₂ R (before ++ item :: after) rules) :
    List.Forall₂ R (before ++ item' :: after) rules := by
  induction before generalizing rules with
  | nil =>
    obtain ⟨r, rules, hr, hafter, rfl⟩ := List.forall₂_cons_left_iff.1 h
    exact .cons (hitem r hr) hafter
  | cons _ before ih =>
    obtain ⟨r, rules, hr, hrest, rfl⟩ := List.forall₂_cons_left_iff.1 h
    exact .cons hr (ih hrest)

/-- The rules of a list are the same with one of them under its other key. -/
theorem forall₂_respell {items items' : List Value} {rules : List RuleDefinition}
    (hitems : RespellsRule items items') (hspelled : RulesSpelledOnce items)
    (h : List.Forall₂ (fun item r => ∃ fields, item = .object fields ∧ r.IsMadeOf fields)
      items rules) :
    List.Forall₂ (fun item r => ∃ fields, item = .object fields ∧ r.IsMadeOf fields)
      items' rules := by
  obtain ⟨before, after, rule⟩ := hitems
  refine forall₂_append_cons (fun r => ?_) h
  rintro ⟨_, ⟨⟩, hr⟩
  exact ⟨_, rfl, hr.respell (hspelled rule (by simp))⟩

/-- A document that says the same of its rules describes the same. -/
theorem IsMadeOf.append_cons {before after : Fields} {value value' : Value} {d : Definition}
    (h : d.IsMadeOf (before ++ (.text "rules".toList, value) :: after))
    (hrules : SaysRules (some value) d.rules → SaysRules (some value') d.rules) :
    d.IsMadeOf (before ++ (.text "rules".toList, value') :: after) where
  name := by
    have h := h.name
    rwa [find?_append_cons_of_ne (by decide)] at h ⊢
  description := by
    have h := h.description
    rwa [find?_append_cons_of_ne (by decide)] at h ⊢
  rules := by
    have h := h.rules
    rw [find?_append_cons, if_pos rfl] at h ⊢
    cases hbefore : before.find? "rules".toList with
    | none => exact hrules (by rwa [hbefore] at h)
    | some other => rwa [hbefore] at h
  limits := by
    have h := h.limits
    rwa [given?, find?_append_cons_of_ne (by decide), find?_append_cons_of_ne (by decide)] at h ⊢
  extra := h.extra.append_cons (by decide) value'

/-- **A document describes the same after one key is respelled.** -/
theorem IsMadeOf.respell {fields fields' : Fields} {d : Definition} (h : d.IsMadeOf fields)
    (hspelled : fields.SpelledOnce) (hfields : fields.Respells fields') : d.IsMadeOf fields' := by
  cases hfields with
  | limits =>
    refine ⟨?_, ?_, ?_, ?_, h.extra.respell hspelled.limits⟩
    · rw [find?_respell_of_ne (by decide) (by decide)]
      exact h.name
    · rw [find?_respell_of_ne (by decide) (by decide)]
      exact h.description
    · rw [find?_respell_of_ne (by decide) (by decide)]
      exact h.rules
    · rw [given?_respell hspelled.limits]
      exact h.limits
  | @list before after items items' hitems =>
    refine h.append_cons ?_
    rintro ⟨_, ⟨⟨⟩⟩ | ⟨⟨⟩⟩, hrules⟩
    exact ⟨items', .inl rfl, forall₂_respell hitems (hspelled.rules items (.inl (by simp))) hrules⟩
  | @tuple before after items items' hitems =>
    refine h.append_cons ?_
    rintro ⟨_, ⟨⟨⟩⟩ | ⟨⟨⟩⟩, hrules⟩
    exact ⟨items', .inr rfl, forall₂_respell hitems (hspelled.rules items (.inr (by simp))) hrules⟩

/-- **Any number of keys may be respelled.** -/
theorem isMadeOf_iff_of_respells {fields fields' : Fields} (h : fields.SpelledOnce)
    (hfields : Relation.ReflTransGen Respells fields fields') :
    fields'.SpelledOnce ∧ ∀ d : Definition, d.IsMadeOf fields ↔ d.IsMadeOf fields' := by
  induction hfields with
  | refl => exact ⟨h, fun _ => Iff.rfl⟩
  | tail _ hstep ih =>
    obtain ⟨hspelled, hmade⟩ := ih
    have hspelled' := hspelled.respell hstep
    exact ⟨hspelled', fun d => (hmade d).trans
      ⟨(·.respell hspelled hstep), (·.respell hspelled' hstep.symm)⟩⟩

end Definition

namespace Validator

open Definition

/-- **The spelling of a key says nothing, and no key is lost**, whichever validator that obeys the
laws it is.  As long as no object gives a field under both names, the keys of the limits and of the
texts of the rules can be respelled in any number and in any order: the document describes a
definition iff it did, and the same one, undeclared fields included.  A definition has the parts
that its document says, and likewise its rules: every key is a declared field, or else it is left
over with its value, in order.  Of a field under both names the first is the field, and the second
is left over. -/
theorem definition_respelled (v : Validator) (hv : v.Lawful) (fields : Fields) :
    (fields.SpelledOnce → ∀ fields', Relation.ReflTransGen Respells fields fields' →
      ∀ d, v.definition fields = .ok d ↔ v.definition fields' = .ok d) ∧
    (∀ d, v.definition fields = .ok d → d.IsMadeOf fields) ∧
    (∀ d first second, v.definition fields = .ok d →
      fields.find? limitsNames.1 = some first → fields.find? limitsNames.2 = some second →
      Value.Says Value.HasEntries (some first) d.limits ∧ (limitsNames.2, second) ∈ d.extra) ∧
    ∀ r first second, v.rule fields = .ok r →
      fields.find? sourceNames.1 = some first → fields.find? sourceNames.2 = some second →
      first.Denotes r.source ∧ (sourceNames.2, second) ∈ r.extra := by
  simp only [definition_eq_ok_iff hv, RuleDefinition.rule_eq_ok_iff hv]
  refine ⟨fun h fields' hfields => (isMadeOf_iff_of_respells h hfields).2, fun d h => h,
    fun d first second h hfirst hsecond => ?_, fun r first second h hfirst hsecond => ?_⟩
  · have hlimits := h.limits
    rw [given?, hfirst, Option.some_or] at hlimits
    exact ⟨hlimits, h.extra.mem_of_find? (by decide) hfirst hsecond⟩
  · obtain ⟨value, hvalue, hsource⟩ := h.source
    rw [given?, hfirst, Option.some_or] at hvalue
    obtain rfl := Option.some.inj hvalue
    exact ⟨hsource, h.extra.mem_of_find? (by decide) hfirst hsecond⟩

/-- A document with its limits under their first name, one of them under bytes, and of two rules the
second under the first name of its text, and the same with both respelled; and a document that gives
the limits and the text of its rule under both names, though only the first of each makes sense. -/
theorem definition_respelled_documents :
    let v : Validator := Schema.validate
    let limits (name : Text) : Value × Value := (.text name, .object [(.bytes [110], .int 1)])
    let a : Value := .text "a > 1".toList
    let b : Value := .text "b < 2".toList
    let rules (items : List Fields) : Value × Value :=
      (.text "rules".toList, .list (items.map .object))
    let note : Value × Value := (.text "note".toList, .null)
    let first : Fields := [(.text sourceNames.2, a), note]
    let second (name : Text) : Fields := [(.text name, b)]
    let document : Fields := [limits limitsNames.1, rules [first, second sourceNames.1], note]
    let respelled : Fields := [limits limitsNames.2, rules [first, second sourceNames.2], note]
    let d : Definition := ⟨none, none, [⟨none, "a > 1".toList, none, [("note".toList, .null)]⟩,
      ⟨none, "b < 2".toList, none, []⟩], some [(['n'], .int 1)], [("note".toList, .null)]⟩
    let twice : Fields := [(.text sourceNames.2, .null), (.text sourceNames.1, a)]
    let both : Fields := [(.text limitsNames.2, .int 1), rules [twice], limits limitsNames.1]
    let r : RuleDefinition := ⟨none, "a > 1".toList, none, [(sourceNames.2, .null)]⟩
    v.Lawful ∧ v.definition document = .ok d ∧ v.definition respelled = .ok d ∧
      d.IsMadeOf document ∧
      v.definition both = .ok ⟨none, none, [r], some [(['n'], .int 1)],
        [(limitsNames.2, .int 1)]⟩ ∧
      Value.Says Value.HasEntries (some (limits limitsNames.1).2) (some [(['n'], .int 1)]) ∧
      a.Denotes r.source ∧ (sourceNames.2, .null) ∈ r.extra := by
  intro v limits a b rules note first second document respelled d twice both r
  have hv : v.Lawful := Schema.lawful_validate
  have hspelled : document.SpelledOnce := by
    refine ⟨by simp only [GivesBoth]; decide, fun items hmem => ?_⟩
    have hlimits : "rules".toList ≠ limitsNames.1 := by decide
    have hnote : "rules".toList ≠ "note".toList := by decide
    simp only [document, limits, rules, note, List.mem_cons, Prod.mk.injEq, Value.text.injEq,
      hlimits, hnote, false_and, true_and, false_or, or_false, List.not_mem_nil,
      Value.list.injEq, reduceCtorEq] at hmem
    subst hmem
    intro rule hrule
    simp only [List.map_cons, List.map_nil, List.mem_pair, Value.object.injEq] at hrule
    rcases hrule with rfl | rfl <;> simp only [GivesBoth] <;> decide
  have hlimits : document.Respells (document.respell limitsNames) := .limits
  have hrule : (document.respell limitsNames).Respells respelled :=
    @Respells.list [limits limitsNames.2] [note] _ _ (.mk [.object first] [] (second sourceNames.1))
  have hrespelled := (Relation.ReflTransGen.single hlimits).tail hrule
  have hd : v.definition document = .ok d := rfl
  have hboth : v.definition both = .ok ⟨none, none, [r], some [(['n'], .int 1)],
      [(limitsNames.2, .int 1)]⟩ := rfl
  have hr : v.rule twice = .ok r := rfl
  exact ⟨hv, hd, ((definition_respelled v hv document).1 hspelled respelled hrespelled d).1 hd,
    (definition_respelled v hv document).2.1 d hd, hboth,
    ((definition_respelled v hv both).2.2.1 _ _ _ hboth rfl rfl).1,
    (definition_respelled v hv twice).2.2.2 r _ _ hr rfl rfl⟩

end Validator

end Criteria
