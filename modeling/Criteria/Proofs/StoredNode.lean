import Criteria.Proofs.Validator
import Criteria.Tree.Stored

/-!
# Proofs/StoredNode — which fields make a node

A lawful validator takes the fields of an object as parts of a node iff they are what
`StoredNode.HasParts` says of them, and then the parts have to agree with the kind.  So the fields
of an object make a node iff they are those of one: `StoredNode.node_eq_ok_iff`.
-/

namespace Criteria

open Outcome

/-- The names of the fields of a stored node, in order. -/
def Tree.fieldNames : List Text :=
  ["kind".toList, "value".toList, "left".toList, "right".toList]

namespace StoredNode

/-- The parts of a node, each in the field of its name, and no other fields.  A child is the entries
of an object, or none if the field is absent or null. -/
structure HasParts (fields : Fields) (kind s : Text) (left right : Option (List (Text × Value))) :
    Prop where
  mem_fieldNames : ∀ field ∈ fields, ∃ name ∈ Tree.fieldNames, field.1 = .text name
  kind_eq : fields.find? "kind".toList = some (.text kind)
  denotes : ∃ value, fields.find? "value".toList = some value ∧ value.Denotes s
  left : Value.Says Value.HasEntries (fields.find? "left".toList) left
  right : Value.Says Value.HasEntries (fields.find? "right".toList) right

/-- The fields of a leaf have no children; those of an inner node have both, and a connective. -/
def IsMadeOf (fields : Fields) : StoredNode → Prop
  | operand clause => HasParts fields "operand".toList clause none none
  | operator word left right =>
    HasParts fields "operator".toList word (some left) (some right) ∧ isConnective word

variable {v : Validator} {fields : Fields}

/-! ## Fields -/

/-- The instance of a node with these parts. -/
def instanceOf (kind s : Text) (left right : Option (List (Text × Value))) : Instance where
  fields := [("kind".toList, .text kind), ("value".toList, .text s),
    ("left".toList, left.elim .null .entries), ("right".toList, right.elim .null .entries)]
  extra := []

@[simp] theorem ofInstance_instanceOf (kind s : Text) (left right : Option (List (Text × Value))) :
    ofInstance (instanceOf kind s left right) = ofParts kind s left right := by
  cases left <;> cases right <;> rfl

/-- No other fields are allowed. -/
theorem others_eq_nil_iff {entries : List (Text × Value)} :
    schema.others entries = [] ↔ ∀ entry ∈ entries, entry.1 ∈ Tree.fieldNames := by
  have halias : ∀ field ∈ schema.fields, field.alias? = none := by
    simp [schema, Field.optional]
  rw [Schema.others, List.filter_eq_nil_iff]
  refine forall₂_congr fun entry hentry => ?_
  have hkey := Fields.find?_ofEntries_isSome_iff.2 (List.mem_map_of_mem (f := Prod.fst) hentry)
  rw [Bool.not_eq_true', Bool.not_eq_false, Schema.reads_iff_mem halias hkey]
  rfl

/-- **The declared fields are read** iff the parts are what they say. -/
theorem readsAll_iff {data : List (Text × Datum)} :
    v.ReadsAll fields schema.fields data ↔ ∃ kind s left right,
      (kind = "operator".toList ∨ kind = "operand".toList) ∧
      fields.find? "kind".toList = some (.text kind) ∧
      (∃ value, fields.find? "value".toList = some value ∧ value.Denotes s) ∧
      Value.Says Value.HasEntries (fields.find? "left".toList) left ∧
      Value.Says Value.HasEntries (fields.find? "right".toList) right ∧
      data = (instanceOf kind s left right).fields := by
  have hgiven (field : Field) (h : field.alias? = none) := Field.given?_of_alias?_eq_none h fields
  have hchild (name : Text) (datum : Datum) :
      v.Reads fields (.optional name .entries) datum ↔ ∃ entries?,
        Value.Says Value.HasEntries (fields.find? name) entries? ∧
          datum = entries?.elim .null .entries := by
    rw [Validator.reads_optional_iff Validator.takes_entries_iff, hgiven _ rfl]
    rfl
  simp only [schema, Validator.readsAll_cons_iff, Validator.readsAll_nil_iff, hchild,
    Validator.reads_required_iff, hgiven, Validator.Takes, List.mem_pair]
  constructor
  · rintro ⟨_, _, ⟨_, hkind, kind, hword, rfl, rfl⟩, ⟨_, _, ⟨value, hvalue, s, hs, rfl⟩,
      ⟨_, _, ⟨left, hleft, rfl⟩, ⟨_, _, ⟨right, hright, rfl⟩, rfl, rfl⟩, rfl⟩, rfl⟩, rfl⟩
    exact ⟨kind, s, left, right, hword, hkind, ⟨value, hvalue, hs⟩, hleft, hright, rfl⟩
  · rintro ⟨kind, s, left, right, hword, hkind, ⟨value, hvalue, hs⟩, hleft, hright, rfl⟩
    exact ⟨_, _, ⟨_, hkind, kind, hword, rfl, rfl⟩, ⟨_, _, ⟨value, hvalue, s, hs, rfl⟩,
      ⟨_, _, ⟨left, hleft, rfl⟩, ⟨_, _, ⟨right, hright, rfl⟩, rfl, rfl⟩, rfl⟩, rfl⟩, rfl⟩

/-! ## Nodes -/

/-- Every key is the name of a field iff the keys are texts and no other fields are there. -/
theorem forall_mem_fieldNames_iff :
    (∀ field ∈ fields, ∃ name ∈ Tree.fieldNames, field.1 = .text name) ↔
      ∃ entries, fields = Fields.ofEntries entries ∧ schema.others entries = [] := by
  simp only [others_eq_nil_iff]
  constructor
  · intro h
    induction fields with
    | nil => exact ⟨[], rfl, by simp⟩
    | cons field fields ih =>
      rw [List.forall_mem_cons] at h
      obtain ⟨⟨name, hname, hkey⟩, hfields⟩ := h
      obtain ⟨entries, rfl, hentries⟩ := ih hfields
      exact ⟨(name, field.2) :: entries, List.cons_eq_cons.2 ⟨Prod.ext hkey rfl, rfl⟩,
        List.forall_mem_cons.2 ⟨hname, hentries⟩⟩
  · rintro ⟨entries, rfl, h⟩
    exact List.forall_mem_map.2 fun entry hentry => ⟨entry.1, h entry hentry, rfl⟩

/-- **The instances of the schema** are the objects with parts. -/
theorem instance_eq_ok_iff (hv : v.Lawful) {i : Instance} :
    v schema (.object fields) = .ok i ↔ ∃ kind s left right,
      (kind = "operator".toList ∨ kind = "operand".toList) ∧
        HasParts fields kind s left right ∧ i = instanceOf kind s left right := by
  constructor
  · intro h
    obtain ⟨entries, hentries⟩ := hv.object h
    obtain rfl := Value.object.inj hentries
    obtain ⟨hfields, hextra, hclosed⟩ := hv.object_eq_ok_iff.1 h
    obtain ⟨kind, s, left, right, hword, hkind, hvalue, hleft, hright, hdata⟩ :=
      readsAll_iff.1 hfields
    have hothers := hclosed rfl
    have hnames := forall_mem_fieldNames_iff.2 ⟨entries, rfl, hothers⟩
    obtain ⟨data, extra⟩ := i
    obtain rfl : data = _ := hdata
    obtain rfl : extra = [] := hextra.trans hothers
    exact ⟨kind, s, left, right, hword, ⟨hnames, hkind, hvalue, hleft, hright⟩, rfl⟩
  · rintro ⟨kind, s, left, right, hword, ⟨hnames, hkind, hvalue, hleft, hright⟩, rfl⟩
    obtain ⟨entries, rfl, hothers⟩ := forall_mem_fieldNames_iff.1 hnames
    exact hv.object_eq_ok_iff.2 ⟨readsAll_iff.2
      ⟨kind, s, left, right, hword, hkind, hvalue, hleft, hright, rfl⟩, hothers.symm,
      fun _ => hothers⟩

/-- The node of a kind and its parts, whose children agree with the kind. -/
theorem ofParts_eq_ok_iff {kind s : Text} {left right : Option (List (Text × Value))}
    {node : StoredNode} :
    ofParts kind s left right = .ok node ↔
      (kind ≠ "operator".toList ∧ left = none ∧ right = none ∧ node = operand s) ∨
      ∃ l r, kind = "operator".toList ∧ left = some l ∧ right = some r ∧ isConnective s ∧
        node = operator s l r := by
  unfold ofParts
  generalize "operator".toList = name
  split_ifs with hkind hs
  · cases left <;> cases right <;> simp [hkind, hs, @eq_comm _ node]
  · simp [hkind, hs]
  · cases left <;> cases right <;> simp [hkind, @eq_comm _ node]

/-- Fields with these parts are read as these. -/
theorem HasParts.node_eq (hv : v.Lawful) {kind s : Text} {left right : Option (List (Text × Value))}
    (h : HasParts fields kind s left right)
    (hkind : kind = "operator".toList ∨ kind = "operand".toList) :
    v.node fields = ofParts kind s left right := by
  rw [Validator.node, (instance_eq_ok_iff hv).2 ⟨_, _, _, _, hkind, h, rfl⟩]
  exact ofInstance_instanceOf ..

/-- **The fields of an object make a node iff they are those of one.** -/
theorem node_eq_ok_iff (hv : v.Lawful) {node : StoredNode} :
    v.node fields = .ok node ↔ node.IsMadeOf fields := by
  constructor
  · intro h
    obtain ⟨_, hinstance, -⟩ := bind_eq_ok_iff.1 h
    obtain ⟨kind, s, left, right, hkind, hparts, -⟩ := (instance_eq_ok_iff hv).1 hinstance
    rw [hparts.node_eq hv hkind, ofParts_eq_ok_iff] at h
    rcases h with ⟨hne, rfl, rfl, rfl⟩ | ⟨l, r, rfl, rfl, rfl, hs, rfl⟩
    · obtain rfl := hkind.resolve_left hne
      exact hparts
    · exact ⟨hparts, hs⟩
  · intro h
    cases node with
    | operand clause =>
      rw [HasParts.node_eq hv h (.inr rfl), ofParts_eq_ok_iff]
      exact .inl ⟨by decide, rfl, rfl, rfl⟩
    | operator word left right =>
      rw [h.1.node_eq hv (.inl rfl), ofParts_eq_ok_iff]
      exact .inr ⟨left, right, rfl, rfl, rfl, h.2, rfl⟩

end StoredNode

end Criteria
