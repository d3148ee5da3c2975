import Criteria.Proofs.Storing

/-!
# Proofs/Nodes — the objects that reading can reach

A child is read as the object with its entries, so reading goes on to the child with the keys that
it denotes as texts (`Value.rekeyed`).  `Value.nodes` lists the objects that it can reach so, each
before what is below it.  A value stores a tree iff it is an object and every one of them makes a
node (`Value.isEncoding_iff`); `Value.completed` is what it would be stored as.
-/

namespace Criteria

namespace Assoc

variable {κ ν : Type} [DecidableEq κ] {P : ν → Prop}

theorem forall_mem_insert {key : κ} {value : ν} {list : List (κ × ν)} (hvalue : P value)
    (hlist : ∀ entry ∈ list, P entry.2) : ∀ entry ∈ insert key value list, P entry.2 := by
  induction list with
  | nil => exact List.forall_mem_singleton.2 hvalue
  | cons first rest ih =>
    rw [List.forall_mem_cons] at hlist
    rw [insert, insertBy]
    split_ifs
    exacts [List.forall_mem_cons.2 ⟨hvalue, hlist.2⟩, List.forall_mem_cons.2 ⟨hlist.1, ih hlist.2⟩]

/-- Inserting entries brings no value that none of them has. -/
theorem forall_mem_ofList {entries : List (κ × ν)} (h : ∀ entry ∈ entries, P entry.2) :
    ∀ entry ∈ ofList entries, P entry.2 :=
  List.foldlRecOn (motive := fun list : List (κ × ν) => ∀ entry ∈ list, P entry.2) entries _
    (List.forall_mem_nil _) fun _ hlist entry hentry => forall_mem_insert (h entry hentry) hlist

end Assoc

namespace Value

open StoredNode

/-! ## Keys -/

/-- The value with the texts that the keys of an object denote as keys, as a child is read; any
other value is left alone. -/
def rekeyed (value : Value) : Value :=
  match value.checkEntries with
  | .ok entries => .object (Fields.ofEntries entries)
  | .error _ => value

/-- The entries of an object are what is left of it when its keys are read as texts. -/
theorem HasEntries.rekeyed_eq {value : Value} {entries : List (Text × Value)}
    (h : value.HasEntries entries) : value.rekeyed = .object (Fields.ofEntries entries) := by
  rw [rekeyed, checkEntries_eq_ok_iff.2 h]

@[simp] theorem rekeyed_null : rekeyed .null = .null := rfl

mutual

/-- How deep the objects in an object are nested. -/
def height : Value → Nat
  | .object fields => fieldsHeight fields + 1
  | _ => 0

/-- How deep the objects in fields are nested. -/
def fieldsHeight : List (Value × Value) → Nat
  | [] => 0
  | (_, value) :: fields => max (height value) (fieldsHeight fields)

end

/-- The height of fields bounds that of every value among them, and is the least bound. -/
theorem fieldsHeight_le_iff {fields : Fields} {n : Nat} :
    fieldsHeight fields ≤ n ↔ ∀ field ∈ fields, field.2.height ≤ n := by
  induction fields with
  | nil => simp [fieldsHeight]
  | cons field fields ih =>
    rw [List.forall_mem_cons, ← ih, fieldsHeight]
    exact Nat.max_le

/-- Rekeying nests nothing deeper. -/
theorem height_rekeyed_le (value : Value) : value.rekeyed.height ≤ value.height := by
  cases h : value.checkEntries with
  | error issues => exact Nat.le_of_eq (by rw [rekeyed, h])
  | ok entries =>
    obtain ⟨fields, named, rfl, hnamed, rfl⟩ := checkEntries_eq_ok_iff.1 h
    rw [rekeyed, h, height, height, Nat.add_le_add_iff_right, fieldsHeight_le_iff]
    refine List.forall_mem_map.2 (Assoc.forall_mem_ofList (P := fun value : Value =>
      value.height ≤ fieldsHeight fields) fun entry hentry => ?_)
    have hfields := (List.forall₂_and_left fields named).2
      ⟨fieldsHeight_le_iff.1 (Nat.le_refl _), hnamed⟩
    obtain ⟨field, hheight, -, heq⟩ :=
      Outcome.exists_forall₂_iff.1 ⟨fields, hfields.flip⟩ entry hentry
    exact heq ▸ hheight

theorem height_lt_of_find? {fields : Fields} {name : Text} {child : Value}
    (h : fields.find? name = some child) : child.height < (object fields).height := by
  rw [height, Nat.lt_add_one_iff]
  exact fieldsHeight_le_iff.1 (Nat.le_refl _) _ (Fields.mem_of_find? h)

/-- The measure: a child is less high than the object it stands in, also when its keys are read as
texts. -/
theorem height_rekeyed_lt_of_find? {fields : Fields} {name : Text} {child : Value}
    (h : fields.find? name = some child) : child.rekeyed.height < (object fields).height :=
  Nat.lt_of_le_of_lt (height_rekeyed_le child) (height_lt_of_find? h)

/-- **Induction as reading goes.**  A value is no object, an object that makes no node, a leaf, or
an inner node, and then its two children are settled before it. -/
theorem node_induction {motive : Value → Prop}
    (other : ∀ value, (∀ fields, value ≠ .object fields) → motive value)
    (broken : ∀ fields : Fields, (∀ stored : StoredNode, ¬stored.IsMadeOf fields) →
      motive (.object fields))
    (operand : ∀ (fields : Fields) (clause : Text), (StoredNode.operand clause).IsMadeOf fields →
      motive (.object fields))
    (operator : ∀ (fields : Fields) (word : Text) (left right : List (Text × Value)),
      (StoredNode.operator word left right).IsMadeOf fields →
      motive (.object (Fields.ofEntries left)) → motive (.object (Fields.ofEntries right)) →
        motive (.object fields))
    (value : Value) : motive value := by
  -- On the height: reading rekeys a child before it looks at it, so it is no part of the object.
  induction hn : value.height using Nat.strongRecOn generalizing value with
  | ind n ih =>
    by_cases hobject : ∃ fields, value = .object fields
    · obtain ⟨fields, rfl⟩ := hobject
      have hchild {name : Text} {child : Value} {entries : List (Text × Value)}
          (hfind : Fields.find? name fields = some child) (hentries : child.HasEntries entries) :
          motive (.object (Fields.ofEntries entries)) :=
        hentries.rekeyed_eq ▸ ih _ (hn ▸ height_rekeyed_lt_of_find? hfind) _ rfl
      by_cases hnode : ∃ stored : StoredNode, stored.IsMadeOf fields
      · obtain ⟨stored, hstored⟩ := hnode
        cases stored with
        | operand clause => exact operand fields clause hstored
        | operator word left right =>
          obtain ⟨_, hleft, hlentries⟩ := hstored.1.left
          obtain ⟨_, hright, hrentries⟩ := hstored.1.right
          exact operator fields word left right hstored (hchild hleft hlentries)
            (hchild hright hrentries)
      · exact broken fields (not_exists.1 hnode)
    · exact other value (not_exists.1 hobject)

/-! ## Objects below an object -/

/-- An object and the level that it is nested on. -/
structure Nested where
  level : Nat
  fields : Fields

/-- The value as an object on a level and, below it, the objects in its two children. -/
def nodesAt (level : Nat) : Value → List Nested
  | .object fields =>
    ⟨level, fields⟩ :: ["left".toList, "right".toList].flatMap fun name =>
      match _ : Fields.find? name fields with
      | some child => nodesAt (level + 1) child.rekeyed
      | none => []
  | _ => []
termination_by value => value.height
decreasing_by exact height_rekeyed_lt_of_find? ‹_›

/-- The objects that reading can reach, each before those below it, those on the left first. -/
def nodes (value : Value) : List Nested := nodesAt 1 value

/-- The value as it would be stored: an object as the four fields of a node in order, each completed
in turn and null where it is absent, and bytes as the text that they are in UTF-8. -/
def completed : Value → Value
  | .object fields =>
    .object <| Tree.fieldNames.map fun name =>
      (.text name, match _ : Fields.find? name fields with
        | some value => completed value.rekeyed
        | none => .null)
  | .bytes bs => ((Text.Encoding.decode .utf8 bs).map text).getD (.bytes bs)
  | value => value
termination_by value => value.height
decreasing_by exact height_rekeyed_lt_of_find? ‹_›

/-- **What stores a tree**: an object with the fields of a leaf, or with those of an inner node
whose children store trees again. -/
inductive IsEncoding : Value → Prop
  | operand {fields : Fields} {clause : Text} (h : (StoredNode.operand clause).IsMadeOf fields) :
      IsEncoding (.object fields)
  | operator {fields : Fields} {word : Text} {left right : List (Text × Value)}
      (h : (StoredNode.operator word left right).IsMadeOf fields)
      (hleft : IsEncoding (.object (Fields.ofEntries left)))
      (hright : IsEncoding (.object (Fields.ofEntries right))) : IsEncoding (.object fields)

variable {fields : Fields} {level : Nat}

/-- An object is a node, and its two children are looked at one level down. -/
theorem nodesAt_object (level : Nat) (fields : Fields) : nodesAt level (.object fields) =
    ⟨level, fields⟩ ::
      ((fields.find? "left".toList).elim [] (fun child => nodesAt (level + 1) child.rekeyed) ++
        (fields.find? "right".toList).elim [] fun child => nodesAt (level + 1) child.rekeyed) := by
  rw [nodesAt, List.flatMap_cons, List.flatMap_singleton]
  congr 2 <;> split <;> rename_i h <;> rw [h] <;> rfl

theorem nodesAt_of_ne_object {value : Value} (h : ∀ fields, value ≠ .object fields) :
    nodesAt level value = [] := by
  rw [nodesAt]
  exact h

theorem nodesAt_of_operand {clause : Text} (h : (StoredNode.operand clause).IsMadeOf fields) :
    nodesAt level (.object fields) = [⟨level, fields⟩] := by
  have hnull : nodesAt (level + 1) .null = [] := nodesAt_of_ne_object (by simp)
  rw [nodesAt_object]
  rcases h.left with hl | hl <;> rcases h.right with hr | hr <;>
    simp only [hl, hr, Option.elim_none, Option.elim_some, rekeyed_null, hnull, List.append_nil]

theorem nodesAt_of_operator {word : Text} {left right : List (Text × Value)}
    (h : (StoredNode.operator word left right).IsMadeOf fields) :
    nodesAt level (.object fields) =
      ⟨level, fields⟩ :: (nodesAt (level + 1) (.object (Fields.ofEntries left)) ++
        nodesAt (level + 1) (.object (Fields.ofEntries right))) := by
  obtain ⟨l, hl, hleft⟩ := h.1.left
  obtain ⟨r, hr, hright⟩ := h.1.right
  rw [nodesAt_object, hl, hr, Option.elim_some, Option.elim_some, hleft.rekeyed_eq,
    hright.rekeyed_eq]

/-- Completion gives each of the four fields a value, in their order, and keeps nothing else. -/
theorem completed_object (fields : Fields) : completed (.object fields) =
    .object (Tree.fieldNames.map fun name =>
      (.text name, (fields.find? name).elim .null fun value => value.rekeyed.completed)) := by
  rw [completed]
  refine congrArg _ (List.map_congr_left fun name _ => ?_)
  split <;> rename_i h <;> rw [h] <;> rfl

@[simp] theorem completed_null : completed .null = .null := by rw [completed] <;> simp

@[simp] theorem completed_text (s : Text) : completed (.text s) = .text s := by
  rw [completed] <;> simp

/-- A text is itself complete, in bytes or not. -/
theorem Denotes.completed_eq {value : Value} {s : Text} (h : value.Denotes s) :
    value.rekeyed.completed = .text s := by
  rcases h with rfl | ⟨bs, rfl, hbs⟩
  · exact completed_text s
  · have hkeys : (bytes bs).rekeyed = .bytes bs := rfl
    rw [hkeys, completed, hbs]
    rfl

/-- A leaf is completed to what stores it: an absent child becomes null. -/
theorem completed_of_operand {clause : Text} (h : (StoredNode.operand clause).IsMadeOf fields) :
    completed (.object fields) = (Tree.operand clause).encode := by
  obtain ⟨value, hvalue, hdenotes⟩ := h.denotes
  have hkind : (text "operand".toList).rekeyed.completed = .text "operand".toList :=
    completed_text _
  have hchild {name : Text}
      (h : fields.find? name = none ∨ fields.find? name = some .null) :
      ((fields.find? name).elim .null fun value => value.rekeyed.completed) = .null := by
    rcases h with h | h <;> simp [h]
  rw [completed_object, Tree.fieldNames]
  simp only [List.map_cons, List.map_nil, h.kind_eq, hvalue, hchild h.left, hchild h.right,
    Option.elim_some, hdenotes.completed_eq, hkind]
  rfl

/-- **Step of completion**: an operator node completes to the encoding of its tree if both children
do. -/
theorem completed_of_operator {word : Text} {left right : List (Text × Value)} {l r : Tree}
    (h : (StoredNode.operator word left right).IsMadeOf fields)
    (hl : l.encode = (object (Fields.ofEntries left)).completed)
    (hr : r.encode = (object (Fields.ofEntries right)).completed) :
    completed (.object fields) = (Tree.operator word l r).encode := by
  have hkind : (text "operator".toList).rekeyed.completed = .text "operator".toList :=
    completed_text _
  obtain ⟨value, hvalue, hdenotes⟩ := h.1.denotes
  obtain ⟨left, hleft, hlentries⟩ := h.1.left
  obtain ⟨right, hright, hrentries⟩ := h.1.right
  rw [completed_object, Tree.fieldNames]
  simp only [List.map_cons, List.map_nil, h.1.kind_eq, hvalue, hleft, hright, Option.elim_some,
    hdenotes.completed_eq, hlentries.rekeyed_eq, hrentries.rekeyed_eq, hkind, ← hl, ← hr]
  rfl

/-- **A value stores a tree iff it is an object, and with it every object that reading can reach
makes a node.** -/
theorem isEncoding_iff (level : Nat) {value : Value} : value.IsEncoding ↔
    (∃ fields, value = .object fields) ∧
      ∀ node ∈ nodesAt level value, ∃ stored : StoredNode, stored.IsMadeOf node.fields := by
  constructor
  · intro h
    induction h generalizing level with
    | operand h =>
      refine ⟨⟨_, rfl⟩, ?_⟩
      rw [nodesAt_of_operand h]
      exact List.forall_mem_singleton.2 ⟨_, h⟩
    | operator h _ _ ihl ihr =>
      refine ⟨⟨_, rfl⟩, ?_⟩
      rw [nodesAt_of_operator h]
      exact List.forall_mem_cons.2 ⟨⟨_, h⟩, List.forall_mem_append.2 ⟨(ihl _).2, (ihr _).2⟩⟩
  · induction value using node_induction generalizing level with
    | other value hother => exact fun h => absurd h.1 (not_exists.2 hother)
    | broken fields hnone =>
      rintro ⟨-, h⟩
      rw [nodesAt_object] at h
      exact absurd (List.forall_mem_cons.1 h).1 (not_exists.2 hnone)
    | operand fields clause hstored => exact fun _ => .operand hstored
    | operator fields word left right hstored ihl ihr =>
      rintro ⟨-, h⟩
      rw [nodesAt_of_operator hstored] at h
      obtain ⟨hl, hr⟩ := List.forall_mem_append.1 (List.forall_mem_cons.1 h).2
      exact .operator hstored (ihl _ ⟨⟨_, rfl⟩, hl⟩) (ihr _ ⟨⟨_, rfl⟩, hr⟩)

end Value

end Criteria
