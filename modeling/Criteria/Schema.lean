import Criteria.Issue

/-!
# Schema — declared fields, and the objects that have them

A schema declares the fields of an object: how each is named, of which type it is, and what it is if
nothing is given for it.  A validator turns a value into an instance of a schema, or says everything
that is wrong with it.  What is made of validated values takes the validator as an argument;
`Schema.validate` is one.
-/

namespace Criteria

/-- The object with these entries. -/
def Fields.ofEntries (entries : List (Text × Value)) : Fields :=
  entries.map fun entry => (.text entry.1, entry.2)

/-! ## Instances -/

mutual

/-- What a field of an instance is. -/
inductive Datum
  | null
  | text (s : Text)
  | entries (entries : List (Text × Value))
  | list (instances : List Instance)
  deriving Repr, Inhabited

/-- The declared fields under their names, and the entries that are no declared field. -/
structure Instance where
  fields : List (Text × Datum)
  extra : List (Text × Value)
  deriving Repr

end

namespace Instance

/-- What the field of a name is. -/
def get? (name : Text) (i : Instance) : Option Datum := i.fields.lookup name

/-- The text that a field is. -/
def text? (name : Text) (i : Instance) : Option Text :=
  match i.get? name with
  | some (.text s) => some s
  | _ => none

/-- The entries that a field is. -/
def entries? (name : Text) (i : Instance) : Option (List (Text × Value)) :=
  match i.get? name with
  | some (.entries entries) => some entries
  | _ => none

/-- The instances that a field lists. -/
def list (name : Text) (i : Instance) : List Instance :=
  match i.get? name with
  | some (.list instances) => instances
  | _ => []

end Instance

/-! ## Declarations -/

mutual

/-- The types of fields. -/
inductive FieldType
  | text
  | word (words : List Text)
  | entries
  | list (schema : Schema)

/-- A declared field.  An alias is another name for it, and comes first; a field without a default
is required. -/
structure Field where
  name : Text
  alias? : Option Text := none
  type : FieldType
  nullable : Bool := false
  default : Option Datum := none

/-- Declared fields, and whether an object may have others. -/
structure Schema where
  fields : List Field
  isOpen : Bool

end

/-- A field that may be null, and is null if nothing is given for it. -/
def Field.optional (name : Text) (type : FieldType) (alias? : Option Text := none) : Field where
  name
  alias?
  type
  nullable := true
  default := some .null

/-- A validator: the instance of a schema that a value is. -/
abbrev Validator := Schema → Value → Checked Instance

/-! ## Keys -/

namespace Field

/-- The keys under which a field can be given, the one that counts first. -/
def keys (field : Field) : List Text := field.alias?.toList ++ [field.name]

/-- The key under which a field is given. -/
def key? (field : Field) (fields : Fields) : Option Text :=
  field.keys.find? fun key => (fields.find? key).isSome

/-- What is given for a field. -/
def given? (field : Field) (fields : Fields) : Option Value := field.key? fields >>= fields.find?

/-- The step to a field: to the key under which it is given, or else to the one that comes first. -/
def step (field : Field) (fields : Fields) : Step :=
  .field ((field.key? fields).getD (field.alias?.getD field.name))

end Field

namespace Schema

/-- Whether a declared field is given under a key. -/
def reads (schema : Schema) (fields : Fields) (key : Text) : Bool :=
  schema.fields.any fun field => field.key? fields = some key

/-- The entries of an object that are no declared field, in order. -/
def others (schema : Schema) (entries : List (Text × Value)) : List (Text × Value) :=
  entries.filter fun entry => !schema.reads (.ofEntries entries) entry.1

/-! ## Validation -/

/-- A field of an object, unless it is a declared one; others are faults of a closed schema. -/
def checkOther (schema : Schema) (fields : Fields) :
    Value × Value → Checked (Option (Text × Value))
  | (.text key, value) =>
    if schema.reads fields key then .ok none
    else if schema.isOpen then .ok (some (key, value))
    else (Checked.fault .unexpected).within (.field key)
  | (key, _) => (Checked.fault .badKey).within (.key key)

/-- The entries of an object that are no declared field. -/
def checkOthers (schema : Schema) (fields : Fields) : Checked (List (Text × Value)) :=
  List.filterMap id <$> Checked.all (fields.map (schema.checkOther fields))

end Schema

/-- What a field of an object is, given how a value of its type is checked. -/
def Field.checkWith (check : Value → Checked Datum) (field : Field) (fields : Fields) :
    Checked Datum :=
  match field.given? fields with
  | some .null =>
    if field.nullable then .ok .null else (check .null).within (field.step fields)
  | some value => (check value).within (field.step fields)
  | none =>
    match field.default with
    | some datum => .ok datum
    | none => (Checked.fault .missing).within (field.step fields)

mutual

/-- A value of a type. -/
def FieldType.check : FieldType → Value → Checked Datum
  | .text, value => .text <$> value.checkText
  | .word words, value => .text <$> value.checkWord words
  | .entries, value => .entries <$> value.checkEntries
  | .list schema, value => do
    let items ← value.checkItems
    .list <$> Checked.all (items.mapIdx fun i item => (schema.validate item).within (.index i))

/-- What a field of an object is. -/
def Field.check : Field → Fields → Checked Datum
  | ⟨name, alias?, type, nullable, default⟩ =>
    Field.checkWith type.check ⟨name, alias?, type, nullable, default⟩

/-- What the fields of an object are. -/
def Field.checkAll : List Field → Fields → List (Checked (Text × Datum))
  | [], _ => []
  | field :: declared, fields =>
    ((field.name, ·) <$> field.check fields) :: Field.checkAll declared fields

/-- The instance of a schema that a value is. -/
def Schema.validate : Schema → Value → Checked Instance
  | schema@⟨declared, _⟩, .object fields =>
    match Checked.all (Field.checkAll declared fields), schema.checkOthers fields with
    | .ok fields, .ok extra => .ok ⟨fields, extra⟩
    | fields, extra => .error (fields.issues ++ extra.issues)
  | _, _ => Checked.fault .notRule

end

end Criteria
