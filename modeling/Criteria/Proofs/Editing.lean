import Criteria.Assoc
import Criteria.Proofs.Outcome
import Criteria.RuleSet.Compilation
import Mathlib.Data.List.Nodup

/-!
# Proofs/Editing — an edited rule set is the one compiled anew

An edit makes a set out of the rules of another.  `RuleSet.Sound` is what every set keeps, whatever
it was made from and however often it was edited; a set that is sound is determined by its
*entries*, the dictionary of its rules, and edits act on that dictionary as they should
(`Edit.sound_step`).  So after any run of edits the set is the one its dictionary is compiled to
(`RuleSet.run_eq_ofEntries`).
-/

namespace Criteria

/-! ## Dictionaries -/

namespace Assoc

variable {κ ν : Type} [DecidableEq κ] {key : κ} {value : ν} {list : List (κ × ν)}

theorem insert_cons (key : κ) (value : ν) (e : κ × ν) (list : List (κ × ν)) :
    insert key value (e :: list) =
      if e.1 = key then (e.1, value) :: list else e :: insert key value list := by
  obtain ⟨k, v⟩ := e
  simp [insert, insertBy]

/-- A new key goes last. -/
theorem insert_of_not_mem (h : key ∉ list.map Prod.fst) :
    insert key value list = list ++ [(key, value)] := by
  induction list with
  | nil => rfl
  | cons e list ih =>
    rw [List.map_cons, List.mem_cons, not_or] at h
    rw [insert_cons, if_neg (Ne.symm h.1), ih h.2, List.cons_append]

/-- A key that is there keeps its place. -/
theorem insert_of_mem (hn : (list.map Prod.fst).Nodup) (h : key ∈ list.map Prod.fst) :
    insert key value list = list.map fun e => if e.1 = key then (key, value) else e := by
  induction list with
  | nil => exact absurd h List.not_mem_nil
  | cons e list ih =>
    rw [List.map_cons, List.nodup_cons] at hn
    rw [insert_cons, List.map_cons]
    by_cases he : e.1 = key
    · have htail : list.map (fun e => if e.1 = key then (key, value) else e) = list := by
        refine (List.map_congr_left fun e' hm => if_neg fun h' => ?_).trans list.map_id
        exact hn.1 (List.mem_map.2 ⟨e', hm, h'.trans he.symm⟩)
      rw [if_pos he, if_pos he, htail, he]
    · have hmem : key ∈ list.map Prod.fst := (List.mem_cons.1 h).resolve_left (Ne.symm he)
      rw [if_neg he, if_neg he, ih hn.2 hmem]

/-- **A key keeps its place**: a new one comes last, an old one stays where it was. -/
theorem keys_insert (hn : (list.map Prod.fst).Nodup) (key : κ) (value : ν) :
    (insert key value list).map Prod.fst =
      if key ∈ list.map Prod.fst then list.map Prod.fst else list.map Prod.fst ++ [key] := by
  split_ifs with h
  · rw [insert_of_mem hn h, List.map_map]
    refine List.map_congr_left fun e _ => ?_
    by_cases he : e.1 = key <;> simp [he]
  · rw [insert_of_not_mem h, List.map_append, List.map_singleton]

theorem nodup_keys_insert (hn : (list.map Prod.fst).Nodup) (key : κ) (value : ν) :
    ((insert key value list).map Prod.fst).Nodup := by
  rw [keys_insert hn]
  split_ifs with h
  · exact hn
  · exact List.nodup_append.2 ⟨hn, List.nodup_singleton key, by grind⟩

end Assoc

/-! ## Compiling -/

/-- The trees joined by `AND` from the left, if there are any. -/
def Tree.conjunction? : List Tree → Option Tree
  | [] => none
  | first :: rest => some (rest.foldl Tree.and first)

theorem Tree.parseValue_eq_ok_iff {limits : Limits} {value : Value} {tree : Tree} :
    Tree.parseValue limits value = .ok tree ↔
      ∃ source, value = .text source ∧ Tree.parse limits source = .ok tree := by
  rw [Tree.parseValue, Outcome.bind_eq_ok_iff]
  cases value <;> simp [Value.ruleText]

namespace Rule

/-- What a dictionary of rules holds of a rule. -/
def entry (rule : Rule) : Text × Value := (rule.id, .text rule.source)

@[simp] theorem map_fst_entry (rules : List Rule) :
    (rules.map entry).map Prod.fst = rules.map Rule.id := by
  rw [List.map_map]
  rfl

/-- The rule without its description, which no dictionary holds. -/
def undescribed (rule : Rule) : Rule := { rule with description := none }

/-- **The rule of an id and a text.** -/
theorem compile_eq_ok_iff {limits : Limits} {id : Text} {description : Option Text}
    {value : Value} {rule : Rule} :
    compile limits id description value = .ok rule ↔
      rule.entry = (id, value) ∧ rule.description = description ∧
        Tree.parse limits rule.source = .ok rule.tree := by
  unfold compile
  simp only [Outcome.bind_eq_ok_iff, Outcome.mapError_eq_ok_iff, Outcome.pure_eq_ok_iff]
  constructor
  · rintro ⟨source, hs, tree, ht, rfl⟩
    cases value with
    | text s =>
      obtain rfl := Except.ok.inj hs
      exact ⟨rfl, rfl, ht⟩
    | _ => exact absurd hs (by simp [Value.ruleText])
  · obtain ⟨id', source, tree, description'⟩ := rule
    rintro ⟨he, rfl, ht⟩
    obtain ⟨rfl, rfl⟩ := Prod.mk.inj he
    exact ⟨source, rfl, tree, ht, rfl⟩

/-- A rule is not compiled iff its text is not parsed. -/
theorem exists_compile_iff {limits : Limits} {value : Value} (id : Text)
    (description : Option Text) : (∃ rule, compile limits id description value = .ok rule) ↔
      ∃ tree, Tree.parseValue limits value = .ok tree := by
  simp only [compile_eq_ok_iff, Tree.parseValue_eq_ok_iff]
  constructor
  · rintro ⟨rule, he, -, ht⟩
    exact ⟨rule.tree, rule.source, (Prod.mk.inj he).2.symm, ht⟩
  · rintro ⟨tree, source, rfl, ht⟩
    exact ⟨⟨id, source, tree, description⟩, rfl, rfl, ht⟩

end Rule

namespace RuleSet

/-- **No id repeats one before it iff all are distinct**, and new to those seen. -/
theorem repeated?_eq_none_iff {seen ids : List Text} :
    repeated? seen ids = none ↔ ids.Nodup ∧ ∀ id ∈ ids, id ∉ seen := by
  induction ids generalizing seen with
  | nil => simp [repeated?]
  | cons id ids ih =>
    rw [repeated?]
    split_ifs with h
    · simp [h]
    · rw [ih]
      simp only [List.nodup_cons, List.mem_cons, not_or, forall_eq_or_imp]
      grind

/-- **Which rules make a set**: their ids are distinct, and there are none or not too many. -/
theorem ofRules_eq_ok_iff {limits : Limits} {name : Option Text} {rules : List Rule}
    {s : RuleSet} :
    ofRules limits name rules = .ok s ↔
      (rules.map Rule.id).Nodup ∧ (rules ≠ [] → (rules.length : Int) ≤ limits.combinedRules) ∧
        s = ⟨name, limits, rules, Tree.conjunction? (rules.map Rule.tree)⟩ := by
  unfold ofRules
  split
  · rename_i id hrep
    refine iff_of_false (by simp) fun h => ?_
    rw [repeated?_eq_none_iff.2 ⟨h.1, by simp⟩] at hrep
    exact absurd hrep (by simp)
  · rename_i hrep
    rw [and_iff_right (repeated?_eq_none_iff.1 hrep).1]
    cases rules with
    | nil => simp [Tree.conjunction?, eq_comm]
    | cons first rest =>
      simp only [Outcome.bind_eq_ok_iff, Outcome.mapError_eq_ok_iff, Tree.conjoinFrom,
        Outcome.pure_eq_ok_iff]
      constructor
      · rintro ⟨combined, ⟨⟨⟩, hc, rfl⟩, rfl⟩
        have hl := Limits.check_eq_ok_iff.1 hc
        exact ⟨fun _ => by simpa [Limits.bound] using hl, rfl⟩
      · rintro ⟨hl, rfl⟩
        have hl := hl (List.cons_ne_nil _ _)
        exact ⟨_, ⟨(), Limits.check_eq_ok_iff.2 (by simpa [Limits.bound] using hl), rfl⟩, rfl⟩

/-- The dictionary of a set's rules. -/
def entries (s : RuleSet) : List (Text × Value) := s.rules.map Rule.entry

/-- **What every set keeps under its limits.** -/
structure Sound (limits : Limits) (s : RuleSet) : Prop where
  limits_eq : s.limits = limits
  nodup_ids : s.ids.Nodup
  parse_source : ∀ rule ∈ s.rules, Tree.parse limits rule.source = .ok rule.tree
  combined_eq : s.combined = Tree.conjunction? (s.rules.map Rule.tree)
  length_le : s.rules ≠ [] → (s.rules.length : Int) ≤ limits.combinedRules

/-- Parsed rules make sound sets. -/
theorem sound_of_ofRules {limits : Limits} {name : Option Text} {rules : List Rule} {s : RuleSet}
    (h : ofRules limits name rules = .ok s)
    (hp : ∀ rule ∈ rules, Tree.parse limits rule.source = .ok rule.tree) :
    s.Sound limits ∧ s.entries = rules.map Rule.entry := by
  obtain ⟨hn, hl, rfl⟩ := ofRules_eq_ok_iff.1 h
  exact ⟨⟨rfl, hn, hp, rfl, hl⟩, rfl⟩

/-- **Compiling a dictionary** compiles every entry. -/
theorem ofEntries_eq_ok_iff {limits : Limits} {name : Option Text} {list : List (Text × Value)}
    {s : RuleSet} :
    ofEntries limits name list = .ok s ↔
      ∃ rules, List.Forall₂ (fun e r => Rule.compile limits e.1 none e.2 = .ok r) list rules ∧
        ofRules limits name rules = .ok s := by
  rw [ofEntries, Outcome.bind_eq_ok_iff]
  simp only [Outcome.mapM_eq_ok_iff]

/-- Compiled rules have the entries they were compiled from. -/
theorem entries_of_compile {limits : Limits} {description : Option Text}
    {list : List (Text × Value)} {rules : List Rule}
    (h : List.Forall₂ (fun e r => Rule.compile limits e.1 description e.2 = .ok r) list rules) :
    rules.map Rule.entry = list ∧
      ∀ rule ∈ rules, Tree.parse limits rule.source = .ok rule.tree := by
  induction h with
  | nil => simp
  | cons hr _ ih =>
    obtain ⟨he, -, ht⟩ := Rule.compile_eq_ok_iff.1 hr
    exact ⟨by rw [List.map_cons, he, ih.1], List.forall_mem_cons.2 ⟨ht, ih.2⟩⟩

/-- A set made of entries has just these, and is sound. -/
theorem sound_of_ofEntries {limits : Limits} {name : Option Text} {list : List (Text × Value)}
    {s : RuleSet} (h : ofEntries limits name list = .ok s) : s.Sound limits ∧ s.entries = list := by
  obtain ⟨rules, hc, hs⟩ := ofEntries_eq_ok_iff.1 h
  obtain ⟨he, hp⟩ := entries_of_compile hc
  exact he ▸ sound_of_ofRules hs hp

/-- **The dictionary of a sound set compiles to its rules**, descriptions apart. -/
theorem Sound.ofEntries_entries {limits : Limits} {s : RuleSet} (h : s.Sound limits)
    (name : Option Text) :
    ofEntries limits name s.entries =
      .ok ⟨name, limits, s.rules.map Rule.undescribed, s.combined⟩ := by
  refine ofEntries_eq_ok_iff.2 ⟨s.rules.map Rule.undescribed, ?_, ?_⟩
  · rw [entries, List.forall₂_map_left_iff, List.forall₂_map_right_iff, List.forall₂_same]
    exact fun rule hm => Rule.compile_eq_ok_iff.2 ⟨rfl, rfl, h.parse_source rule hm⟩
  · refine ofRules_eq_ok_iff.2 ⟨?_, fun hne => ?_, ?_⟩
    · rw [List.map_map]
      exact h.nodup_ids
    · rw [List.length_map]
      exact h.length_le fun hnil => hne (by rw [hnil, List.map_nil])
    · rw [List.map_map, h.combined_eq]
      rfl

/-! ## Rules of a sound set -/

@[simp] theorem contains_iff {id : Text} {s : RuleSet} : s.contains id ↔ id ∈ s.ids := by
  simp [contains, find?, ids]

/-- **Finding a rule**: the one rule with that id. -/
theorem Sound.find?_eq_some_iff {limits : Limits} {s : RuleSet} (h : s.Sound limits) {id : Text}
    {rule : Rule} : s.find? id = some rule ↔ rule ∈ s.rules ∧ rule.id = id := by
  constructor
  · intro hf
    exact ⟨List.mem_of_find?_eq_some hf, by simpa using List.find?_some hf⟩
  · rintro ⟨hm, rfl⟩
    cases hf : s.find? rule.id with
    | none => exact absurd (List.find?_eq_none.1 hf rule hm) (by simp)
    | some rule' =>
      have hid : rule'.id = rule.id := by simpa using List.find?_some hf
      rw [List.inj_on_of_nodup_map h.nodup_ids (List.mem_of_find?_eq_some hf) hm hid]

/-! ## Editing -/

/-- The rules with one put in: in the place of the one with its id, or else at the end. -/
def put (rule : Rule) (rules : List Rule) : List Rule :=
  if rule.id ∈ rules.map Rule.id then rules.map fun r => if r.id = rule.id then rule else r
  else rules ++ [rule]

/-- **Putting a rule in inserts its entry.** -/
theorem entries_put {rules : List Rule} (hn : (rules.map Rule.id).Nodup) (rule : Rule) :
    (put rule rules).map Rule.entry =
      Assoc.insert rule.id (.text rule.source) (rules.map Rule.entry) := by
  have hkeys := Rule.map_fst_entry rules
  unfold put
  split_ifs with h
  · rw [Assoc.insert_of_mem (hkeys ▸ hn) (hkeys ▸ h), List.map_map, List.map_map]
    refine List.map_congr_left fun r _ => ?_
    by_cases hr : r.id = rule.id <;> simp [Rule.entry, hr]
  · rw [Assoc.insert_of_not_mem (hkeys ▸ h), List.map_append]
    rfl

/-- **Taking a rule out erases its entry.** -/
theorem entries_filter (rules : List Rule) (id : Text) :
    (rules.filter (·.id ≠ id)).map Rule.entry = Assoc.erase id (rules.map Rule.entry) := by
  rw [Assoc.erase, List.filter_map]
  rfl

variable {limits : Limits} {s : RuleSet}

/-- Adding a rule succeeds iff the rule compiles and the rules with it in place are a set. -/
theorem Sound.withRule_eq_ok_iff (h : s.Sound limits) {id : Text} {value : Value}
    {description : Option Text} {s' : RuleSet} :
    s.withRule id value description = .ok s' ↔
      ∃ rule, Rule.compile limits id description value = .ok rule ∧
        ofRules limits s.name (put rule s.rules) = .ok s' := by
  rw [withRule, Outcome.bind_eq_ok_iff, h.limits_eq]
  refine exists_congr fun rule => and_congr_right fun hc => ?_
  obtain ⟨rfl, -⟩ := Prod.mk.inj (Rule.compile_eq_ok_iff.1 hc).1
  have : s.contains rule.id = decide (rule.id ∈ s.rules.map Rule.id) := by
    rw [Bool.eq_iff_iff, contains_iff, decide_eq_true_iff, ids]
  rw [this, put]
  simp only [decide_eq_true_eq]

theorem mem_put {rule r : Rule} {rules : List Rule} (h : r ∈ put rule rules) :
    r = rule ∨ r ∈ rules := by
  unfold put at h
  split_ifs at h with hid
  · obtain ⟨r', hm, rfl⟩ := List.mem_map.1 h
    split_ifs
    · exact .inl rfl
    · exact .inr hm
  · simpa [or_comm] using h

/-- Putting a rule in place keeps the identifiers distinct. -/
theorem nodup_ids_put {rules : List Rule} (hn : (rules.map Rule.id).Nodup) (rule : Rule) :
    ((put rule rules).map Rule.id).Nodup := by
  rw [← Rule.map_fst_entry, entries_put hn]
  exact Assoc.nodup_keys_insert ((Rule.map_fst_entry rules).symm ▸ hn) _ _

@[simp] theorem put_ne_nil (rule : Rule) (rules : List Rule) : put rule rules ≠ [] := by
  unfold put
  split_ifs with hid
  · exact fun hnil => by simp [List.map_eq_nil_iff.1 hnil] at hid
  · simp

/-- A compiled rule is put into a sound set iff the rules are not too many then. -/
theorem Sound.ofRules_put (h : s.Sound limits) {id : Text} {value : Value}
    {description : Option Text} {rule : Rule}
    (hc : Rule.compile limits id description value = .ok rule) :
    ((∃ s', ofRules limits s.name (put rule s.rules) = .ok s') ↔
      ((Assoc.insert id value s.entries).length : Int) ≤ limits.combinedRules) ∧
    ∀ s', ofRules limits s.name (put rule s.rules) = .ok s' →
      s'.Sound limits ∧ s'.entries = Assoc.insert id value s.entries := by
  obtain ⟨he, -, ht⟩ := Rule.compile_eq_ok_iff.1 hc
  obtain ⟨rfl, rfl⟩ := Prod.mk.inj he
  have hentries : (put rule s.rules).map Rule.entry = Assoc.insert rule.id (.text rule.source)
      s.entries := entries_put h.nodup_ids rule
  constructor
  · rw [← hentries, List.length_map]
    simp only [ofRules_eq_ok_iff, and_iff_right (nodup_ids_put h.nodup_ids rule), put_ne_nil,
      ne_eq, not_false_eq_true, forall_const, exists_and_left, exists_eq, and_true]
  · intro s' hs
    rw [← hentries]
    refine sound_of_ofRules hs fun r hm => ?_
    rcases mem_put hm with rfl | hm
    · exact ht
    · exact h.parse_source r hm

/-- **Putting a rule into a sound set** succeeds iff its text is parsed and the rules are not too
many then; its entry is inserted. -/
theorem Sound.withRule (h : s.Sound limits) (id : Text) (value : Value)
    (description : Option Text) :
    ((∃ s', s.withRule id value description = .ok s') ↔
      (∃ tree, Tree.parseValue limits value = .ok tree) ∧
        ((Assoc.insert id value s.entries).length : Int) ≤ limits.combinedRules) ∧
    ∀ s', s.withRule id value description = .ok s' →
      s'.Sound limits ∧ s'.entries = Assoc.insert id value s.entries := by
  simp only [h.withRule_eq_ok_iff]
  constructor
  · rw [← Rule.exists_compile_iff id description]
    constructor
    · rintro ⟨s', rule, hc, hs⟩
      exact ⟨⟨rule, hc⟩, (h.ofRules_put hc).1.1 ⟨s', hs⟩⟩
    · rintro ⟨⟨rule, hc⟩, hl⟩
      obtain ⟨s', hs⟩ := (h.ofRules_put hc).1.2 hl
      exact ⟨s', rule, hc, hs⟩
  · rintro s' ⟨rule, hc, hs⟩
    exact (h.ofRules_put hc).2 s' hs

/-- **Taking a rule out of a sound set** succeeds iff it is there; its entry is erased. -/
theorem Sound.withoutRule (h : s.Sound limits) (id : Text) :
    ((∃ s', s.withoutRule id = .ok s') ↔ id ∈ s.ids) ∧
    ∀ s', s.withoutRule id = .ok s' →
      s'.Sound limits ∧ s'.entries = Assoc.erase id s.entries := by
  have hrest : ∃ s', ofRules limits s.name (s.rules.filter (·.id ≠ id)) = .ok s' := by
    refine ⟨_, ofRules_eq_ok_iff.2 ⟨?_, fun hne => ?_, rfl⟩⟩
    · exact (List.filter_sublist.map _).nodup h.nodup_ids
    · have hlen := List.length_filter_le (·.id ≠ id) s.rules
      have := h.length_le fun hnil => hne (by rw [hnil, List.filter_nil])
      omega
  unfold RuleSet.withoutRule
  rw [h.limits_eq]
  split_ifs with hc
  · rw [contains_iff] at hc
    simp only [Outcome.mapError_eq_ok_iff]
    refine ⟨iff_of_true hrest hc, fun s' hs => ?_⟩
    rw [show Assoc.erase id s.entries = _ from (entries_filter s.rules id).symm]
    exact sound_of_ofRules hs fun r hm => h.parse_source r (List.mem_of_mem_filter hm)
  · rw [contains_iff] at hc
    exact ⟨iff_of_false (by simp) hc, fun s' hs => absurd hs (by simp)⟩

/-! ## Sets and the dictionaries they are made from -/

/-- The rules of a definition, each under the id it gets. -/
def definitionEntries (index : Nat) (rules : List RuleDefinition) : List (Text × Value) :=
  rules.mapIdx fun i rule => (effectiveId (index + i) rule, .text rule.source)

/-- The rules that a definition compiles to have its entries, and the trees of their sources. -/
theorem entries_of_compileRules {limits : Limits} {warn : Bool} {index : Nat}
    {definitions : List RuleDefinition} {rules : List Rule}
    (h : (compileRules limits warn index definitions).2 = .ok rules) :
    rules.map Rule.entry = definitionEntries index definitions ∧
      ∀ rule ∈ rules, Tree.parse limits rule.source = .ok rule.tree := by
  induction definitions generalizing index rules with
  | nil =>
    obtain rfl := Except.ok.inj h
    simp [definitionEntries]
  | cons d ds ih =>
    rw [compileRules] at h
    split at h
    · exact absurd h (by simp)
    · rename_i rule hc
      obtain ⟨he, -, ht⟩ := Rule.compile_eq_ok_iff.1 hc
      obtain ⟨rest, hr, rfl⟩ := Outcome.map_eq_ok_iff.1 h
      obtain ⟨hentries, hp⟩ := ih hr
      refine ⟨?_, List.forall_mem_cons.2 ⟨ht, hp⟩⟩
      rw [List.map_cons, he, hentries]
      simp [definitionEntries, List.mapIdx_cons, Nat.add_assoc, Nat.add_comm 1]

/-- **A set under limits, made from rules**: of a dictionary, of a list, or of a definition. -/
inductive MadeFrom (limits : Limits) : RuleSet → List (Text × Value) → Prop
  | entries {name : Option Text} {list : List (Text × Value)} {s : RuleSet} :
      ofEntries limits name list = .ok s → MadeFrom limits s list
  | list {name : Option Text} {sources : List Value} {s : RuleSet} :
      ofList limits name sources = .ok s →
      MadeFrom limits s (sources.mapIdx fun i source => (defaultId i, source))
  | definition {given : Option Limits} {warn : Bool} {d : Definition} {s : RuleSet} :
      limitsFor given d = .ok limits → (ofDefinition given warn d).outcome = .ok s →
      MadeFrom limits s (definitionEntries 0 d.rules)

/-- However a set is made, it is sound and has the entries it is made from. -/
theorem MadeFrom.sound {list : List (Text × Value)} (h : MadeFrom limits s list) :
    s.Sound limits ∧ s.entries = list := by
  cases h with
  | entries h => exact sound_of_ofEntries h
  | list h => exact sound_of_ofEntries h
  | @definition given warn d _ hl h =>
    rw [ofDefinition, hl] at h
    obtain ⟨rules, hc, hs⟩ := Outcome.bind_eq_ok_iff.1 (Outcome.mapError_eq_ok_iff.1 h)
    obtain ⟨he, hp⟩ := entries_of_compileRules hc
    exact he ▸ sound_of_ofRules hs hp

end RuleSet

/-! ## Runs of edits -/

/-- An edit of a rule set. -/
inductive Edit
  | put (id : Text) (source : Value) (description : Option Text)
  | remove (id : Text)

namespace Edit

/-- The edited set, unless the edit fails. -/
def result? : Edit → RuleSet → Option RuleSet
  | put id source description, s => (s.withRule id source description).toOption
  | remove id, s => (s.withoutRule id).toOption

/-- What the edit does to a dictionary of rules. -/
def update : Edit → List (Text × Value) → List (Text × Value)
  | put id source _, list => Assoc.insert id source list
  | remove id, list => Assoc.erase id list

/-- A set and a dictionary edited together; an edit that fails changes neither. -/
def step (state : RuleSet × List (Text × Value)) (edit : Edit) : RuleSet × List (Text × Value) :=
  match edit.result? state.1 with
  | some s => (s, edit.update state.2)
  | none => state

/-- A set and a dictionary after a run of edits. -/
def run (s : RuleSet) (list : List (Text × Value)) (edits : List Edit) :
    RuleSet × List (Text × Value) :=
  edits.foldl step (s, list)

variable {limits : Limits} {s s' : RuleSet} {list : List (Text × Value)}

/-- **Step**: an edit that succeeds keeps the set sound, and does to its entries what it does to a
list. -/
theorem sound_result? {edit : Edit} (h : s.Sound limits) (hs : edit.result? s = some s') :
    s'.Sound limits ∧ s'.entries = edit.update s.entries := by
  cases edit with
  | put id source description =>
    exact (h.withRule id source description).2 s' (Outcome.toOption_eq_some_iff.1 hs)
  | remove id => exact (h.withoutRule id).2 s' (Outcome.toOption_eq_some_iff.1 hs)

/-- **One edit keeps a set sound, and its dictionary its own.** -/
theorem sound_step {state : RuleSet × List (Text × Value)} (h : state.1.Sound limits)
    (he : state.1.entries = state.2) (edit : Edit) :
    (step state edit).1.Sound limits ∧ (step state edit).1.entries = (step state edit).2 := by
  unfold step
  split
  · rename_i s' hs
    exact he ▸ sound_result? h hs
  · exact ⟨h, he⟩

/-- **So does a run of edits.** -/
theorem sound_run (h : s.Sound limits) (he : s.entries = list) (edits : List Edit) :
    (run s list edits).1.Sound limits ∧ (run s list edits).1.entries = (run s list edits).2 := by
  suffices ∀ state : RuleSet × List (Text × Value), state.1.Sound limits →
      state.1.entries = state.2 →
        (edits.foldl step state).1.Sound limits ∧
          (edits.foldl step state).1.entries = (edits.foldl step state).2 from this (s, list) h he
  induction edits with
  | nil => exact fun state h he => ⟨h, he⟩
  | cons edit edits ih =>
    intro state h he
    obtain ⟨h', he'⟩ := sound_step h he edit
    exact ih _ h' he'

end Edit

namespace RuleSet

/-- The set is made from rules under the limits, and then edited any number of times. -/
def ReachableUnder (limits : Limits) (s : RuleSet) : Prop :=
  ∃ made list edits, MadeFrom limits made list ∧ (Edit.run made list edits).1 = s

/-- The set is made from rules under some limits, and then edited any number of times. -/
def Reachable (s : RuleSet) : Prop := ∃ limits, s.ReachableUnder limits

/-- **Every set that can be reached is sound.** -/
theorem ReachableUnder.sound {limits : Limits} {s : RuleSet} (h : s.ReachableUnder limits) :
    s.Sound limits := by
  obtain ⟨made, list, edits, hmade, rfl⟩ := h
  obtain ⟨hsound, hentries⟩ := hmade.sound
  exact (Edit.sound_run hsound hentries edits).1

theorem Reachable.sound {s : RuleSet} (h : s.Reachable) : ∃ limits, s.Sound limits :=
  h.imp fun _ => ReachableUnder.sound

/-- **An edited set is the one its dictionary is compiled to.**  After any run of edits, the set
that is compiled anew from the dictionary has the same ids, texts, trees and conjunction.  Putting a
rule in fails iff its text is not parsed or the rules are too many then, taking one out iff it is
not there.  The ids are distinct and find their rules, every tree is that of its text, and the
conjunction is that of the trees in order. -/
theorem run_eq_ofEntries (limits : Limits) (made : RuleSet) (list : List (Text × Value))
    (hmade : MadeFrom limits made list) (edits : List Edit) (name : Option Text) :
    let s := (Edit.run made list edits).1
    let dictionary := (Edit.run made list edits).2
    (∃ anew, ofEntries limits name dictionary = .ok anew ∧ anew.ids = s.ids ∧
      anew.rules.map Rule.source = s.rules.map Rule.source ∧
      anew.rules.map Rule.tree = s.rules.map Rule.tree ∧ anew.combined = s.combined) ∧
    (∀ id source description, (∃ e, s.withRule id source description = .error e) ↔
      (∃ e, Tree.parseValue limits source = .error e) ∨
        limits.combinedRules < ((Assoc.insert id source dictionary).length : Int)) ∧
    (∀ id, (∃ e, s.withoutRule id = .error e) ↔ id ∉ s.ids) ∧
    s.ids.Nodup ∧
    (∀ id rule, s.find? id = some rule ↔ rule ∈ s.rules ∧ rule.id = id) ∧
    (∀ rule ∈ s.rules, Tree.parse limits rule.source = .ok rule.tree) ∧
    s.combined = Tree.conjunction? (s.rules.map Rule.tree) := by
  intro s dictionary
  obtain ⟨hsound, hentries⟩ := hmade.sound
  obtain ⟨h, he⟩ : s.Sound limits ∧ s.entries = dictionary := Edit.sound_run hsound hentries edits
  refine ⟨⟨_, he ▸ h.ofEntries_entries name, ?_⟩, fun id source description => ?_, fun id => ?_,
    h.nodup_ids, fun _ _ => h.find?_eq_some_iff, h.parse_source, h.combined_eq⟩
  · simp [ids, List.map_map, Function.comp_def, Rule.undescribed]
  · rw [Outcome.exists_error_iff, Outcome.exists_error_iff, (h.withRule id source description).1,
      he, not_and_or, Int.not_le]
  · rw [Outcome.exists_error_iff, (h.withoutRule id).1]

/-- One rule replaced, another put in after it, and one that is not parsed. -/
theorem run_eq_ofEntries_puts :
    let made : RuleSet := ⟨none, {}, [⟨"r".toList, "a > 1".toList, .operand "a > 1".toList, none⟩],
      some (.operand "a > 1".toList)⟩
    let list := [("r".toList, Value.text "a > 1".toList)]
    let state := Edit.run made list [.put "r".toList (.text "b < 2".toList) none,
      .put "q".toList (.text "c = 3".toList) none, .put "q".toList (.text "c".toList) none]
    MadeFrom {} made list ∧ state.1.ids = ["r".toList, "q".toList] ∧
      ∃ anew, ofEntries {} none state.2 = .ok anew ∧ anew.ids = state.1.ids ∧
        anew.rules.map Rule.source = state.1.rules.map Rule.source ∧
        anew.rules.map Rule.tree = state.1.rules.map Rule.tree ∧
        anew.combined = state.1.combined := by
  intro made list state
  have hparse : Tree.parse {} "a > 1".toList = .ok (.operand "a > 1".toList) := by decide +kernel
  have hmade : MadeFrom {} made list := .entries <| ofEntries_eq_ok_iff.2
    ⟨made.rules, .cons (Rule.compile_eq_ok_iff.2 ⟨rfl, rfl, hparse⟩) .nil,
      ofRules_eq_ok_iff.2 ⟨List.nodup_singleton _, fun _ => by decide, rfl⟩⟩
  obtain ⟨hanew, -⟩ := run_eq_ofEntries {} made list hmade _ none
  exact ⟨hmade, by decide +kernel, hanew⟩

end RuleSet

end Criteria
