import Criteria.Proofs.Outcome
import Criteria.Schema

/-!
# Proofs/Validator — what a validator promises

`Validator.Lawful` lists the laws of validation one by one: which values are taken as a type, what a
field of an instance is, what becomes of the fields that are not declared, and that nothing else is
refused.  They speak of every schema.  What is proved of validated objects rests on these laws and
on what a schema declares, and `Schema.validate` obeys them (`Schema.lawful_validate`).
-/

namespace Criteria

open Outcome

/-! ## Checks -/

namespace Checked

variable {α β : Type}

@[simp] theorem within_eq_ok_iff {step : Step} {check : Checked α} {a : α} :
    check.within step = .ok a ↔ check = .ok a := mapError_eq_ok_iff

@[simp] theorem fault_ne_ok {f : Fault} {a : α} : Checked.fault f ≠ .ok a := by simp [fault]

/-- A list of checks succeeds with the values of each, in order. -/
theorem all_eq_ok_iff {checks : List (Checked α)} {as : List α} :
    Checked.all checks = .ok as ↔ List.Forall₂ (fun check a => check = .ok a) checks as := by
  induction checks generalizing as with
  | nil => rw [all, Except.ok.injEq, List.forall₂_nil_left_iff, eq_comm]
  | cons check checks ih =>
    simp only [List.forall₂_cons_left_iff, ← ih]
    cases check with
    | error issues => simp [all]
    | ok a => cases h : all checks <;> simp [all, h, eq_comm]

/-- A list is accepted iff every item is, in order. -/
theorem all_map_eq_ok_iff {check : α → Checked β} {xs : List α} {ys : List β} :
    Checked.all (xs.map check) = .ok ys ↔ List.Forall₂ (fun x y => check x = .ok y) xs ys := by
  rw [all_eq_ok_iff, List.forall₂_map_left_iff]

/-- Checks that depend on the place of a value only in what they say is wrong. -/
theorem all_mapIdx_eq_ok_iff {R : α → β → Prop} {check : Nat → α → Checked β}
    (h : ∀ i x y, check i x = .ok y ↔ R x y) {xs : List α} {ys : List β} :
    Checked.all (xs.mapIdx check) = .ok ys ↔ List.Forall₂ R xs ys := by
  rw [all_eq_ok_iff]
  induction xs generalizing check ys with
  | nil => simp
  | cons x xs ih =>
    simp only [List.mapIdx_cons, List.forall₂_cons_left_iff, h, ih fun i => h (i + 1)]

end Checked

/-! ## What a value says -/

theorem Fields.ofEntries_injective : Function.Injective ofEntries :=
  List.map_injective_iff.2 fun entry entry' h => by
    simpa [Prod.ext_iff] using h

namespace Value

/-- The value is a text, or bytes that are this text in UTF-8. -/
def Denotes (value : Value) (s : Text) : Prop :=
  value = .text s ∨ ∃ bs, value = .bytes bs ∧ Text.Encoding.decode .utf8 bs = some s

/-- The value is an object whose keys denote texts, and these are its entries: of two keys that
denote one text the last value counts, in the place of the first. -/
def HasEntries (value : Value) (entries : List (Text × Value)) : Prop :=
  ∃ (fields : Fields) (named : List (Text × Value)), value = .object fields ∧
    List.Forall₂ (fun field entry => field.1.Denotes entry.1 ∧ field.2 = entry.2) fields named ∧
    entries = Assoc.ofList named

/-- What a field says: nothing if it is absent or null, and else what its value says. -/
def Says {α : Type} (P : Value → α → Prop) (field? : Option Value) : Option α → Prop
  | none => field? = none ∨ field? = some .null
  | some a => ∃ value, field? = some value ∧ P value a

@[simp] theorem checkText_eq_ok_iff {value : Value} {s : Text} :
    value.checkText = .ok s ↔ value.Denotes s := by
  cases value with
  | bytes bs => cases h : Text.Encoding.decode .utf8 bs <;> simp [checkText, Denotes, h]
  | _ => simp [checkText, Denotes]

@[simp] theorem checkWord_eq_ok_iff {words : List Text} {value : Value} {s : Text} :
    value.checkWord words = .ok s ↔ s ∈ words ∧ value = .text s := by
  cases value with
  | text t =>
    rw [checkWord]
    split_ifs with h
    · rw [Except.ok.injEq, text.injEq]
      exact ⟨fun heq => ⟨heq ▸ h, heq⟩, And.right⟩
    · refine iff_of_false Checked.fault_ne_ok fun hs => h ?_
      obtain ⟨hmem, rfl⟩ := by simpa using hs
      exact hmem
  | _ => simp [checkWord]

@[simp] theorem checkEntry_eq_ok_iff (field : Value × Value) (entry : Text × Value) :
    checkEntry field = .ok entry ↔ field.1.Denotes entry.1 ∧ field.2 = entry.2 := by
  obtain ⟨name, value⟩ := entry
  simp [checkEntry]

@[simp] theorem checkEntries_eq_ok_iff {value : Value} {entries : List (Text × Value)} :
    value.checkEntries = .ok entries ↔ value.HasEntries entries := by
  cases value with
  | object fields =>
    simp only [checkEntries, map_eq_ok_iff, Checked.all_map_eq_ok_iff, checkEntry_eq_ok_iff,
      HasEntries, object.injEq]
    constructor
    · rintro ⟨named, h, rfl⟩
      exact ⟨fields, named, rfl, h, rfl⟩
    · rintro ⟨_, named, rfl, h, rfl⟩
      exact ⟨named, h, rfl⟩
  | _ => simp [checkEntries, HasEntries]

@[simp] theorem checkItems_eq_ok_iff {value : Value} {items : List Value} :
    value.checkItems = .ok items ↔ value = .list items ∨ value = .tuple items := by
  cases value <;> simp [checkItems]

end Value

/-! ## Keys -/

namespace Fields

theorem mem_of_find? {fields : Fields} {name : Text} {value : Value}
    (h : fields.find? name = some value) : (.text name, value) ∈ fields := by
  induction fields using find?.induct name with
  | case1 => exact absurd h (by simp [find?])
  | case2 first rest =>
    rw [find?, if_pos rfl] at h
    obtain rfl := Option.some.inj h
    exact List.mem_cons_self
  | case3 key first rest hkey ih =>
    rw [find?, if_neg hkey] at h
    exact List.mem_cons_of_mem _ (ih h)
  | case4 first rest hkey ih =>
    rw [find?] at h
    exacts [List.mem_cons_of_mem _ (ih h), fun key value => hkey key value]

theorem find?_ofEntries_isSome_iff {entries : List (Text × Value)} {name : Text} :
    ((ofEntries entries).find? name).isSome ↔ name ∈ entries.map Prod.fst := by
  induction entries with
  | nil => simp [ofEntries, find?]
  | cons entry entries ih =>
    rw [List.map_cons, List.mem_cons, ← ih, ofEntries, List.map_cons, find?]
    by_cases h : entry.1 = name
    · simp [h]
    · rw [if_neg h, or_iff_right (Ne.symm h), ofEntries]

end Fields

namespace Field

variable {field : Field} {fields : Fields} {key a : Text}

theorem given?_of_alias?_eq_none (h : field.alias? = none) (fields : Fields) :
    field.given? fields = fields.find? field.name := by
  rw [given?, key?, keys, h]
  cases hname : fields.find? field.name <;> simp [hname]

/-- **The alias comes first**: the name is looked up only where the alias is not given. -/
theorem given?_of_alias?_eq_some (h : field.alias? = some a) (fields : Fields) :
    field.given? fields = (fields.find? a).or (fields.find? field.name) := by
  rw [given?, key?, keys, h]
  cases ha : fields.find? a <;> cases hname : fields.find? field.name <;> simp [ha, hname]

theorem key?_of_alias?_eq_none (h : field.alias? = none) (hkey : (fields.find? key).isSome) :
    field.key? fields = some key ↔ key = field.name := by
  rw [key?, keys, h]
  by_cases hname : key = field.name
  · subst hname
    simp [hkey]
  · cases hgiven : fields.find? field.name <;> simp [hgiven, hname, eq_comm]

/-- The key that a field is read from, in the same order. -/
theorem key?_of_alias?_eq_some (h : field.alias? = some a) (hkey : (fields.find? key).isSome) :
    field.key? fields = some key ↔ key = a ∨ key = field.name ∧ fields.find? a = none := by
  rw [key?, keys, h]
  cases ha : fields.find? a with
  | some value => simp [ha, @eq_comm _ a]
  | none =>
    have hne : key ≠ a := by
      rintro rfl
      simp [ha] at hkey
    by_cases hname : key = field.name
    · subst hname
      simp [ha, hkey]
    · cases hgiven : fields.find? field.name <;> simp [ha, hgiven, hne, hname, Ne.symm hname]

end Field

namespace Schema

variable {schema : Schema} {fields : Fields} {key : Text}

/-- A key is read iff some declared field takes its value from it. -/
theorem reads_iff : schema.reads fields key ↔
    ∃ field ∈ schema.fields, field.key? fields = some key := by
  simp [reads]

/-- Without aliases, the keys of the declared fields are their names. -/
theorem reads_iff_mem (h : ∀ field ∈ schema.fields, field.alias? = none)
    (hkey : (fields.find? key).isSome) :
    schema.reads fields key ↔ key ∈ schema.fields.map Field.name := by
  rw [reads_iff, List.mem_map]
  refine exists_congr fun field => and_congr_right fun hfield => ?_
  rw [Field.key?_of_alias?_eq_none (h field hfield) hkey, eq_comm]

end Schema

/-! ## Laws -/

namespace Validator

/-- A value is taken as a type: a text, or bytes in UTF-8, as a text; one of the words of a type as
it is; an object as its entries; and a list or a tuple item by item. -/
def Takes (v : Validator) (value : Value) : FieldType → Datum → Prop
  | .text, datum => ∃ s, value.Denotes s ∧ datum = .text s
  | .word words, datum => ∃ s ∈ words, value = .text s ∧ datum = .text s
  | .entries, datum => ∃ entries, value.HasEntries entries ∧ datum = .entries entries
  | .list schema, datum => ∃ items instances, (value = .list items ∨ value = .tuple items) ∧
      List.Forall₂ (fun item i => v schema item = .ok i) items instances ∧ datum = .list instances

/-- What a field of an object is: its default if nothing is given for it, null if that is given and
allowed, and else what is given, taken as its type. -/
inductive Reads (v : Validator) (fields : Fields) (field : Field) : Datum → Prop
  | default {datum : Datum} : field.given? fields = none → field.default = some datum →
      Reads v fields field datum
  | null : field.given? fields = some .null → field.nullable → Reads v fields field .null
  | value {value : Value} {datum : Datum} : field.given? fields = some value →
      v.Takes value field.type datum → Reads v fields field datum

/-- Fields are read one by one, each under its name, in the order in which they are declared. -/
def ReadsAll (v : Validator) (fields : Fields) (declared : List Field)
    (data : List (Text × Datum)) : Prop :=
  List.Forall₂ (fun field entry => entry.1 = field.name ∧ v.Reads fields field entry.2)
    declared data

/-- **The laws of validation.** -/
structure Lawful (v : Validator) : Prop where
  /-- Only objects are instances, and only with texts as keys. -/
  object {schema : Schema} {value : Value} {i : Instance} : v schema value = .ok i →
    ∃ entries, value = .object (Fields.ofEntries entries)
  /-- Every declared field is read, under its alias or else under its name. -/
  fields {schema : Schema} {fields : Fields} {i : Instance} : v schema (.object fields) = .ok i →
    v.ReadsAll fields schema.fields i.fields
  /-- The other entries are kept, in order. -/
  extra {schema : Schema} {entries : List (Text × Value)} {i : Instance} :
    v schema (.object (Fields.ofEntries entries)) = .ok i → i.extra = schema.others entries
  /-- A closed schema has no other entries. -/
  closed {schema : Schema} {entries : List (Text × Value)} {i : Instance} :
    v schema (.object (Fields.ofEntries entries)) = .ok i → schema.isOpen = false →
      schema.others entries = []
  /-- Nothing else is refused. -/
  complete {schema : Schema} {entries : List (Text × Value)} {data : List (Text × Datum)} :
    v.ReadsAll (Fields.ofEntries entries) schema.fields data →
      (schema.isOpen = false → schema.others entries = []) →
      v schema (.object (Fields.ofEntries entries)) = .ok ⟨data, schema.others entries⟩

/-- **What an object with texts as keys is**, by the laws. -/
theorem Lawful.object_eq_ok_iff {v : Validator} (hv : v.Lawful) {schema : Schema}
    {entries : List (Text × Value)} {i : Instance} :
    v schema (.object (Fields.ofEntries entries)) = .ok i ↔
      v.ReadsAll (Fields.ofEntries entries) schema.fields i.fields ∧
        i.extra = schema.others entries ∧
        (schema.isOpen = false → schema.others entries = []) := by
  constructor
  · exact fun h => ⟨hv.fields h, hv.extra h, hv.closed h⟩
  · obtain ⟨data, extra⟩ := i
    rintro ⟨hfields, rfl, hclosed⟩
    exact hv.complete hfields hclosed

/-! ## What a field is -/

variable {v : Validator} {fields : Fields} {datum : Datum}

/-- Null is of no type. -/
@[simp] theorem not_takes_null {type : FieldType} : ¬v.Takes .null type datum := by
  cases type <;> simp [Takes, Value.Denotes, Value.HasEntries]

/-- A field that nothing is given for is its default. -/
theorem reads_iff_of_none {field : Field} (h : field.given? fields = none) :
    v.Reads fields field datum ↔ field.default = some datum := by
  constructor
  · rintro (⟨-, hdefault⟩ | ⟨hnull, -⟩ | ⟨hvalue, -⟩)
    exacts [hdefault, absurd (h.symm.trans hnull) (by simp), absurd (h.symm.trans hvalue) (by simp)]
  · exact .default h

/-- A field that null is given for is null, if it may be. -/
theorem reads_iff_of_null {field : Field} (h : field.given? fields = some .null) :
    v.Reads fields field datum ↔ field.nullable ∧ datum = .null := by
  constructor
  · rintro (⟨hnone, -⟩ | ⟨-, hnullable⟩ | ⟨hvalue, htakes⟩)
    · exact absurd (h.symm.trans hnone) (by simp)
    · exact ⟨hnullable, rfl⟩
    · obtain rfl := Option.some.inj (h.symm.trans hvalue)
      exact absurd htakes not_takes_null
  · rintro ⟨hnullable, rfl⟩
    exact .null h hnullable

/-- A field that another value is given for is that value, taken as its type. -/
theorem reads_iff_of_value {field : Field} {value : Value} (h : field.given? fields = some value)
    (hnull : value ≠ .null) :
    v.Reads fields field datum ↔ v.Takes value field.type datum := by
  constructor
  · rintro (⟨hnone, -⟩ | ⟨hnull', -⟩ | ⟨hvalue, htakes⟩)
    · exact absurd (h.symm.trans hnone) (by simp)
    · exact absurd (Option.some.inj (h.symm.trans hnull')) hnull
    · rwa [Option.some.inj (h.symm.trans hvalue)]
  · exact .value h

@[simp] theorem readsAll_nil_iff {data : List (Text × Datum)} :
    v.ReadsAll fields [] data ↔ data = [] := List.forall₂_nil_left_iff

/-- Fields are read one after another, and their data stay in that order. -/
theorem readsAll_cons_iff {field : Field} {declared : List Field} {data : List (Text × Datum)} :
    v.ReadsAll fields (field :: declared) data ↔ ∃ datum rest, v.Reads fields field datum ∧
      v.ReadsAll fields declared rest ∧ data = (field.name, datum) :: rest := by
  rw [ReadsAll, List.forall₂_cons_left_iff]
  constructor
  · rintro ⟨⟨_, datum⟩, rest, ⟨rfl, hdatum⟩, hrest, rfl⟩
    exact ⟨datum, rest, hdatum, hrest, rfl⟩
  · rintro ⟨datum, rest, hdatum, hrest, rfl⟩
    exact ⟨_, rest, ⟨rfl, hdatum⟩, hrest, rfl⟩

/-- An optional field reads as what is said of it: nothing, null or a value of its type. -/
theorem reads_optional_iff {α : Type} {P : Value → α → Prop} {make : α → Datum} {name : Text}
    {type : FieldType} {alias? : Option Text}
    (h : ∀ value datum, v.Takes value type datum ↔ ∃ a, P value a ∧ datum = make a) :
    v.Reads fields (.optional name type alias?) datum ↔ ∃ a? : Option α,
      Value.Says P ((Field.optional name type alias?).given? fields) a? ∧
        datum = a?.elim .null make := by
  constructor
  · rintro (⟨hgiven, hdefault⟩ | ⟨hgiven, -⟩ | ⟨hgiven, htakes⟩)
    · exact ⟨none, .inl hgiven, (Option.some.inj hdefault).symm⟩
    · exact ⟨none, .inr hgiven, rfl⟩
    · obtain ⟨a, ha, rfl⟩ := (h _ _).1 htakes
      exact ⟨some a, ⟨_, hgiven, ha⟩, rfl⟩
  · rintro ⟨_ | a, hsays, rfl⟩
    · rcases hsays with hgiven | hgiven
      exacts [.default hgiven rfl, .null hgiven rfl]
    · obtain ⟨value, hgiven, ha⟩ := hsays
      exact .value hgiven ((h _ _).2 ⟨a, ha, rfl⟩)

theorem takes_text_iff (value : Value) (datum : Datum) :
    v.Takes value .text datum ↔ ∃ s, value.Denotes s ∧ datum = .text s := Iff.rfl

theorem takes_entries_iff (value : Value) (datum : Datum) :
    v.Takes value .entries datum ↔ ∃ entries, value.HasEntries entries ∧ datum = .entries entries :=
  Iff.rfl

/-- A required field reads as its value, which has to be there. -/
theorem reads_required_iff {field : Field} (hnull : field.nullable = false)
    (hdefault : field.default = none) :
    v.Reads fields field datum ↔
      ∃ value, field.given? fields = some value ∧ v.Takes value field.type datum := by
  constructor
  · rintro (⟨-, h⟩ | ⟨-, h⟩ | ⟨hgiven, htakes⟩)
    · exact absurd h (by simp [hdefault])
    · exact absurd h (by simp [hnull])
    · exact ⟨_, hgiven, htakes⟩
  · rintro ⟨value, hgiven, htakes⟩
    exact .value hgiven htakes

end Validator

/-! ## A validator that obeys them -/

namespace Schema

variable {schema : Schema} {fields : Fields}

/-- The standard validator accepts a value as of a type iff the value is taken for it. -/
theorem check_eq_ok_iff {type : FieldType} {value : Value} {datum : Datum} :
    type.check value = .ok datum ↔ Validator.Takes validate value type datum := by
  cases type with
  | text =>
    simp only [FieldType.check, Validator.Takes, map_eq_ok_iff, Value.checkText_eq_ok_iff,
      @eq_comm _ datum]
  | word words =>
    simp only [FieldType.check, Validator.Takes, map_eq_ok_iff, Value.checkWord_eq_ok_iff,
      and_assoc, @eq_comm _ datum]
  | entries =>
    simp only [FieldType.check, Validator.Takes, map_eq_ok_iff, Value.checkEntries_eq_ok_iff,
      @eq_comm _ datum]
  | list schema =>
    have hitem (i : Nat) (item : Value) (j : Instance) :
        (schema.validate item).within (.index i) = .ok j ↔ schema.validate item = .ok j :=
      Checked.within_eq_ok_iff
    simp only [FieldType.check, Validator.Takes, bind_eq_ok_iff, map_eq_ok_iff,
      Value.checkItems_eq_ok_iff, Checked.all_mapIdx_eq_ok_iff hitem, ← exists_and_left,
      @eq_comm _ datum]

variable {field : Field} {datum : Datum}

theorem fieldCheck_eq_ok_iff_of_none (h : field.given? fields = none) :
    field.check fields = .ok datum ↔ field.default = some datum := by
  obtain ⟨name, alias?, type, nullable, default⟩ := field
  rw [Field.check, Field.checkWith, h]
  cases default <;> simp

theorem fieldCheck_eq_ok_iff_of_null (h : field.given? fields = some .null) :
    field.check fields = .ok datum ↔ field.nullable ∧ datum = .null := by
  obtain ⟨name, alias?, type, nullable, default⟩ := field
  rw [Field.check, Field.checkWith, h]
  cases nullable with
  | false => simp [check_eq_ok_iff]
  | true => simp [@eq_comm _ datum]

theorem fieldCheck_eq_ok_iff_of_value {value : Value} (h : field.given? fields = some value)
    (hnull : value ≠ .null) :
    field.check fields = .ok datum ↔ Validator.Takes validate value field.type datum := by
  obtain ⟨name, alias?, type, nullable, default⟩ := field
  rw [Field.check, Field.checkWith, h]
  cases value with
  | null => exact absurd rfl hnull
  | _ => exact Checked.within_eq_ok_iff.trans check_eq_ok_iff

/-- `validate` reads a field from its alias, its name or its default, as any other validator. -/
theorem fieldCheck_eq_ok_iff :
    field.check fields = .ok datum ↔ Validator.Reads validate fields field datum := by
  cases hgiven : field.given? fields with
  | none => rw [fieldCheck_eq_ok_iff_of_none hgiven, Validator.reads_iff_of_none hgiven]
  | some value =>
    by_cases hnull : value = .null
    · subst hnull
      rw [fieldCheck_eq_ok_iff_of_null hgiven, Validator.reads_iff_of_null hgiven]
    · rw [fieldCheck_eq_ok_iff_of_value hgiven hnull, Validator.reads_iff_of_value hgiven hnull]

theorem checkAll_eq_map (declared : List Field) (fields : Fields) :
    Field.checkAll declared fields =
      declared.map fun field => (field.name, ·) <$> field.check fields := by
  induction declared with
  | nil => rfl
  | cons field declared ih => rw [Field.checkAll, ih, List.map_cons]

/-- All declared fields are read, each from its own key. -/
theorem all_checkAll_eq_ok_iff {declared : List Field} {data : List (Text × Datum)} :
    Checked.all (Field.checkAll declared fields) = .ok data ↔
      Validator.ReadsAll validate fields declared data := by
  have hfield (field : Field) (entry : Text × Datum) :
      (field.name, ·) <$> field.check fields = .ok entry ↔
        entry.1 = field.name ∧ Validator.Reads validate fields field entry.2 := by
    obtain ⟨name, datum⟩ := entry
    rw [map_eq_ok_iff, @eq_comm _ name]
    constructor
    · rintro ⟨_, h, heq⟩
      obtain ⟨hname, rfl⟩ := Prod.mk.inj heq
      exact ⟨hname, fieldCheck_eq_ok_iff.1 h⟩
    · rintro ⟨hname, h⟩
      exact ⟨datum, fieldCheck_eq_ok_iff.2 h, Prod.ext hname rfl⟩
  simp only [checkAll_eq_map, Checked.all_map_eq_ok_iff, hfield, Validator.ReadsAll]

/-- A field of an object is kept unless a declared one is read from it; a closed schema has no
others. -/
theorem checkOther_eq_ok_iff {field : Value × Value} {other : Option (Text × Value)} :
    schema.checkOther fields field = .ok other ↔ ∃ key, field.1 = .text key ∧
      (schema.isOpen = false → schema.reads fields key) ∧
      other = if schema.reads fields key then none else some (key, field.2) := by
  obtain ⟨key, value⟩ := field
  cases key with
  | text key =>
    simp only [checkOther, Value.text.injEq, exists_eq_left']
    cases schema.reads fields key <;> cases schema.isOpen <;> simp [@eq_comm _ other]
  | _ => simp [checkOther]

/-- The fields that are not declared, in their order: all keys are texts, and a closed schema has
none. -/
theorem all_checkOther_eq_ok_iff {part : Fields} {others : List (Option (Text × Value))} :
    Checked.all (part.map (schema.checkOther fields)) = .ok others ↔
      ∃ entries, part = Fields.ofEntries entries ∧
        (schema.isOpen = false → ∀ entry ∈ entries, schema.reads fields entry.1) ∧
        others = entries.map fun entry =>
          if schema.reads fields entry.1 then none else some entry := by
  simp only [Checked.all_map_eq_ok_iff, checkOther_eq_ok_iff]
  constructor
  · intro h
    induction h with
    | nil => exact ⟨[], rfl, by simp, rfl⟩
    | @cons field other part others hfield _ ih =>
      obtain ⟨key, hkey, hclosed, rfl⟩ := hfield
      obtain ⟨entries, rfl, hentries, rfl⟩ := ih
      exact ⟨(key, field.2) :: entries, List.cons_eq_cons.2 ⟨Prod.ext hkey rfl, rfl⟩,
        fun hopen => List.forall_mem_cons.2 ⟨hclosed hopen, hentries hopen⟩, rfl⟩
  · rintro ⟨entries, rfl, hclosed, rfl⟩
    refine List.forall₂_map_left_iff.2 (List.forall₂_map_right_iff.2 (List.forall₂_same.2 ?_))
    exact fun entry hentry => ⟨entry.1, rfl, fun hopen => hclosed hopen entry hentry, rfl⟩

theorem filterMap_id_unless {α : Type} (p : α → Bool) (xs : List α) :
    (xs.map fun x => if p x then none else some x).filterMap id = xs.filter (!p ·) := by
  induction xs with
  | nil => rfl
  | cons x xs ih => cases h : p x <;> simp_all

/-- **The keys have to be texts**, and in a closed schema keys of declared fields. -/
theorem checkOthers_eq_ok_iff {extra : List (Text × Value)} :
    schema.checkOthers fields = .ok extra ↔ ∃ entries, fields = Fields.ofEntries entries ∧
      (schema.isOpen = false → schema.others entries = []) ∧ extra = schema.others entries := by
  simp only [checkOthers, map_eq_ok_iff, all_checkOther_eq_ok_iff]
  constructor
  · rintro ⟨_, ⟨entries, rfl, hclosed, rfl⟩, rfl⟩
    refine ⟨entries, rfl, fun hopen => ?_, filterMap_id_unless _ entries⟩
    simpa [others, List.filter_eq_nil_iff] using hclosed hopen
  · rintro ⟨entries, rfl, hclosed, rfl⟩
    refine ⟨_, ⟨entries, rfl, fun hopen => ?_, rfl⟩, filterMap_id_unless _ entries⟩
    simpa [others, List.filter_eq_nil_iff] using hclosed hopen

/-- What `validate` makes of an object. -/
theorem validate_eq_ok_iff {value : Value} {i : Instance} :
    schema.validate value = .ok i ↔ ∃ fields, value = .object fields ∧
      Validator.ReadsAll validate fields schema.fields i.fields ∧
      schema.checkOthers fields = .ok i.extra := by
  obtain ⟨declared, isOpen⟩ := schema
  obtain ⟨data, extra⟩ := i
  cases value with
  | object fields =>
    rw [validate]
    simp only [Value.object.injEq, exists_eq_left', ← all_checkAll_eq_ok_iff]
    constructor
    · intro h
      split at h
      · rename_i hdata hextra
        obtain ⟨rfl, rfl⟩ := Instance.mk.inj (Except.ok.inj h)
        exact ⟨hdata, hextra⟩
      · simp at h
    · rintro ⟨hdata, hextra⟩
      rw [hdata, hextra]
  | _ => simp [validate]

/-- **`validate` obeys the laws.** -/
theorem lawful_validate : Validator.Lawful validate where
  object h := by
    obtain ⟨fields, rfl, -, hextra⟩ := validate_eq_ok_iff.1 h
    obtain ⟨entries, rfl, -⟩ := checkOthers_eq_ok_iff.1 hextra
    exact ⟨entries, rfl⟩
  fields h := by
    obtain ⟨fields, hvalue, hdata, -⟩ := validate_eq_ok_iff.1 h
    rwa [Value.object.inj hvalue]
  extra h := by
    obtain ⟨fields, hvalue, -, hextra⟩ := validate_eq_ok_iff.1 h
    obtain rfl := Value.object.inj hvalue
    obtain ⟨entries, hentries, -, hextra⟩ := checkOthers_eq_ok_iff.1 hextra
    rwa [Fields.ofEntries_injective hentries]
  closed h hopen := by
    obtain ⟨fields, hvalue, -, hextra⟩ := validate_eq_ok_iff.1 h
    obtain rfl := Value.object.inj hvalue
    obtain ⟨entries, hentries, hclosed, -⟩ := checkOthers_eq_ok_iff.1 hextra
    rw [Fields.ofEntries_injective hentries]
    exact hclosed hopen
  complete hdata hclosed := validate_eq_ok_iff.2
    ⟨_, rfl, hdata, checkOthers_eq_ok_iff.2 ⟨_, rfl, hclosed, rfl⟩⟩

end Schema

end Criteria
