import Criteria.Proofs.Loading

/-!
# Proofs/Overriding — which entry a limit comes from

Entries are taken in order.  The first one for a limit that is no integer fails, whatever follows
it; otherwise a limit has the value of the last entry under either of its names
(`Limits.update_eq_ok_iff`).  So the limits depend on nothing but the entries for each of them:
`Limits.ofEntries_iff`.
-/

namespace Criteria

open Outcome

/-! ## The names of a limit -/

namespace Limit

/-- The limits that can be set; the depth of stored trees follows from them. -/
def settable : List Limit := [.ruleLength, .depth, .nodes, .combinedRules]

/-- The two names of a limit that can be set. -/
def keys : Limit → List Text
  | .ruleLength => ["maxRuleLength".toList, "max_rule_length".toList]
  | .depth => ["maxAstDepth".toList, "max_ast_depth".toList]
  | .nodes => ["maxAstNodes".toList, "max_ast_nodes".toList]
  | .combinedRules => ["maxCombinedRules".toList, "max_combined_rules".toList]
  | .storedDepth => []

/-- All names of limits. -/
def allKeys : List Text := settable.flatMap keys

/-- **A key sets the limit that it names.** -/
theorem ofKey?_eq_some_iff {key : Text} {limit : Limit} :
    ofKey? key = some limit ↔ key ∈ limit.keys := by
  constructor
  · intro h
    unfold ofKey? at h
    split_ifs at h with hkey hkey hkey hkey <;> obtain rfl := Option.some.inj h
    all_goals exact List.mem_pair.2 hkey
  · intro h
    cases limit with
    | storedDepth => exact absurd h List.not_mem_nil
    | _ => rcases List.mem_pair.1 h with rfl | rfl <;> rfl

/-- The depth of stored trees is the one limit that no entry sets. -/
theorem mem_settable_iff {limit : Limit} : limit ∈ settable ↔ limit ≠ .storedDepth := by
  cases limit <;> decide

theorem isSome_ofKey?_iff {key : Text} : (ofKey? key).isSome ↔ key ∈ allKeys := by
  simp only [Option.isSome_iff_exists, ofKey?_eq_some_iff, allKeys, List.mem_flatMap]
  refine exists_congr fun limit => (and_iff_right_of_imp fun h => ?_).symm
  rw [mem_settable_iff]
  rintro rfl
  exact absurd h List.not_mem_nil

/-- No key names two limits. -/
theorem eq_of_mem_keys {key : Text} {limit limit' : Limit} (h : key ∈ limit.keys)
    (h' : key ∈ limit'.keys) : limit = limit' :=
  Option.some.inj ((ofKey?_eq_some_iff.2 h).symm.trans (ofKey?_eq_some_iff.2 h'))

end Limit

namespace Limits

variable {entries : List (Text × Value)} {l l' : Limits}

/-! ## Entries -/

/-- The entries for a limit under either of its names, in order. -/
def entriesFor (limit : Limit) (entries : List (Text × Value)) : List (Text × Value) :=
  entries.filter fun entry => entry.1 ∈ limit.keys

/-- **The first entry for a limit that is no integer** is none for this reason. -/
def FailsFirst (entries : List (Text × Value)) (e : IntegerError) : Prop :=
  ∃ before key value after, entries = before ++ (key, value) :: after ∧ key ∈ Limit.allKeys ∧
    value.toInt = .error e ∧ ∀ entry ∈ before, entry.1 ∈ Limit.allKeys → ∃ n, entry.2.toInt = .ok n

/-- **A limit has the value of the last entry for it**, or else the one it had before. -/
def IsTakenFrom (entries : List (Text × Value)) (before : Int) (limit : Limit) (n : Int) : Prop :=
  match (entriesFor limit entries).getLast? with
  | some entry => entry.2.toInt = .ok n
  | none => n = before

theorem settings_eq (entries : List (Text × Value)) :
    settings entries = entries.filter fun entry => entry.1 ∈ Limit.allKeys :=
  List.filter_congr fun entry _ => by
    rw [Bool.eq_iff_iff, Limit.isSome_ofKey?_iff, decide_eq_true_eq]

/-! ## Entries that fail -/

theorem ofEntries_eq_error_iff {e : IntegerError} :
    ofEntries entries = .error e ↔ FailsFirst entries e := by
  rw [ofEntries, update_eq_error_iff, mapM_eq_error_iff, settings_eq]
  constructor
  · rintro ⟨_, ⟨key, value⟩, _, hsplit, hbefore, he⟩
    obtain ⟨front, rest, rfl, rfl, hrest⟩ := List.filter_eq_append_iff.1 hsplit
    obtain ⟨others, after, rfl, hothers, hkey, -⟩ := List.filter_eq_cons_iff.1 hrest
    refine ⟨front ++ others, key, value, after, (List.append_assoc ..).symm,
      of_decide_eq_true hkey, he, fun entry hm hk => ?_⟩
    rcases List.mem_append.1 hm with hm | hm
    · exact hbefore entry (List.mem_filter.2 ⟨hm, decide_eq_true hk⟩)
    · exact absurd (decide_eq_true hk) (hothers entry hm)
  · rintro ⟨before, key, value, after, rfl, hkey, he, hbefore⟩
    rw [List.filter_append, List.filter_cons_of_pos (by simpa using hkey)]
    refine ⟨_, _, _, rfl, fun entry hm => ?_, he⟩
    obtain ⟨hm, hk⟩ := List.mem_filter.1 hm
    exact hbefore entry hm (of_decide_eq_true hk)

theorem forall_settings_iff :
    (∀ entry ∈ settings entries, ∃ n, entry.2.toInt = .ok n) ↔ ∀ e, ¬FailsFirst entries e := by
  simp only [← ofEntries_eq_error_iff]
  rw [← not_exists, exists_ofEntries_eq_error_iff]
  push Not
  rfl

/-! ## Entries that count -/

/-- Setting one limit leaves the others as they are. -/
theorem bound_set {limit : Limit} (h : limit ∈ Limit.settable) (n : Int) (limit' : Limit) :
    (l.set n limit').bound limit = if limit = limit' then n else l.bound limit := by
  cases limit with
  | storedDepth => exact absurd rfl (Limit.mem_settable_iff.1 h)
  | _ => cases limit' <;> rfl

/-- Limits are the same if those that can be set are. -/
theorem eq_iff_bound_eq : l = l' ↔ ∀ limit ∈ Limit.settable, l.bound limit = l'.bound limit := by
  obtain ⟨length, depth, nodes, rules⟩ := l
  obtain ⟨length', depth', nodes', rules'⟩ := l'
  simp [Limit.settable, bound]

variable {limit : Limit} {key : Text} {value : Value} {before n : Int}

theorem entriesFor_cons_of_mem (h : key ∈ limit.keys) :
    entriesFor limit ((key, value) :: entries) = (key, value) :: entriesFor limit entries :=
  List.filter_cons_of_pos (decide_eq_true h)

theorem entriesFor_cons_of_not_mem (h : key ∉ limit.keys) :
    entriesFor limit ((key, value) :: entries) = entriesFor limit entries :=
  List.filter_cons_of_neg (by simpa using h)

/-- The last entry decides, so an earlier one only changes what the rest starts from. -/
theorem isTakenFrom_cons_of_mem (h : key ∈ limit.keys) {m : Int} (hm : value.toInt = .ok m) :
    IsTakenFrom ((key, value) :: entries) before limit n ↔ IsTakenFrom entries m limit n := by
  rw [IsTakenFrom, IsTakenFrom, entriesFor_cons_of_mem h, List.getLast?_cons]
  cases (entriesFor limit entries).getLast? with
  | some entry => rfl
  | none => simp only [Option.getD_none, hm, Except.ok.injEq, eq_comm]

theorem isTakenFrom_cons_of_not_mem (h : key ∉ limit.keys) :
    IsTakenFrom ((key, value) :: entries) before limit n ↔ IsTakenFrom entries before limit n := by
  rw [IsTakenFrom, IsTakenFrom, entriesFor_cons_of_not_mem h]

/-- **The last entry for a limit counts.** -/
theorem update_eq_ok_iff : l.update entries = .ok l' ↔
    (∀ entry ∈ settings entries, ∃ n, entry.2.toInt = .ok n) ∧
      ∀ limit ∈ Limit.settable, IsTakenFrom entries (l.bound limit) limit (l'.bound limit) := by
  induction entries generalizing l with
  | nil =>
    rw [update, Except.ok.injEq, eq_comm, eq_iff_bound_eq]
    exact (and_iff_right fun _ h => absurd h List.not_mem_nil).symm
  | cons entry entries ih =>
    obtain ⟨key, value⟩ := entry
    rw [update, settings, List.filter_cons]
    cases hkey : Limit.ofKey? key with
    | none =>
      have hmem (limit : Limit) : key ∉ limit.keys := fun h => by
        rw [Limit.ofKey?_eq_some_iff.2 h] at hkey
        exact absurd hkey (Option.some_ne_none _)
      simp only [isTakenFrom_cons_of_not_mem (hmem _)]
      exact ih
    | some limit =>
      have hmem := Limit.ofKey?_eq_some_iff.1 hkey
      simp only [Option.isSome_some, if_true, List.forall_mem_cons, bind_eq_ok_iff, ih]
      cases hvalue : value.toInt with
      | error e => simp
      | ok n =>
        have hlimit (limit') (h : limit' ∈ Limit.settable) :
            IsTakenFrom ((key, value) :: entries) (l.bound limit') limit' (l'.bound limit') ↔
              IsTakenFrom entries ((l.set n limit).bound limit') limit' (l'.bound limit') := by
          rw [bound_set h]
          split_ifs with heq
          · exact isTakenFrom_cons_of_mem (heq ▸ hmem) hvalue
          · exact isTakenFrom_cons_of_not_mem fun h => heq (Limit.eq_of_mem_keys h hmem)
        simp only [Except.ok.injEq, exists_eq_left', exists_eq', true_and]
        exact and_congr_right' (forall₂_congr fun limit' h => (hlimit limit' h).symm)

/-! ## Entries that do not count -/

/-- Only the entries for a limit count. -/
@[simp] theorem update_settings (l : Limits) (entries : List (Text × Value)) :
    l.update (settings entries) = l.update entries := by
  induction entries generalizing l with
  | nil => rfl
  | cons entry entries ih =>
    obtain ⟨key, value⟩ := entry
    rw [settings, List.filter_cons, update]
    cases hkey : Limit.ofKey? key with
    | none => exact ih l
    | some limit =>
      rw [Option.isSome_some, if_pos rfl, update, hkey]
      exact congrArg _ (funext fun n => ih (l.set n limit))

/-- The settings are the entries of the limits that can be set, taken together. -/
theorem mem_settings_iff {entry : Text × Value} :
    entry ∈ settings entries ↔ ∃ limit ∈ Limit.settable, entry ∈ entriesFor limit entries := by
  simp only [settings_eq, entriesFor, List.mem_filter, decide_eq_true_eq, Limit.allKeys,
    List.mem_flatMap]
  exact ⟨fun ⟨hm, limit, hl, hk⟩ => ⟨limit, hl, hm, hk⟩, fun ⟨limit, hl, hm, hk⟩ =>
    ⟨hm, limit, hl, hk⟩⟩

/-- **Which limits the entries of a document set.**  They fail iff an entry for a limit is no
integer, with the first one that is none, even if a later one overrides it.  Otherwise every limit
has the value of the last entry for it under either of its names, or its default.  Entries under
other names, that of the depth of stored trees among them, do not count, whatever they hold; and if
the limits are set, they are set to the same by any entries that have those for each limit in the
same order. -/
theorem ofEntries_iff (entries : List (Text × Value)) :
    (∀ e, ofEntries entries = .error e ↔ FailsFirst entries e) ∧
    (∀ l, ofEntries entries = .ok l ↔ (∀ e, ¬FailsFirst entries e) ∧
      ∀ limit ∈ Limit.settable,
        IsTakenFrom entries (({} : Limits).bound limit) limit (l.bound limit)) ∧
    Limit.storedDepth.name ∉ Limit.allKeys ∧
    (∀ entries' : List (Text × Value),
      (entries'.filter fun entry => entry.1 ∈ Limit.allKeys) =
        (entries.filter fun entry => entry.1 ∈ Limit.allKeys) →
      ofEntries entries' = ofEntries entries) ∧
    ∀ entries' l, (∀ limit ∈ Limit.settable, entriesFor limit entries' = entriesFor limit entries) →
      ofEntries entries = .ok l → ofEntries entries' = .ok l := by
  refine ⟨fun e => ofEntries_eq_error_iff, fun l => ?_, by decide, fun entries' h => ?_,
    fun entries' l h hl => ?_⟩
  · rw [ofEntries, update_eq_ok_iff, forall_settings_iff]
  · rw [ofEntries, ofEntries, ← update_settings, ← update_settings _ entries, settings_eq, h,
      ← settings_eq]
  · obtain ⟨hn, hlast⟩ := update_eq_ok_iff.1 hl
    refine update_eq_ok_iff.2 ⟨fun entry hm => hn entry ?_, fun limit hlimit => ?_⟩
    · obtain ⟨limit, hlimit, hm⟩ := mem_settings_iff.1 hm
      exact mem_settings_iff.2 ⟨limit, hlimit, h limit hlimit ▸ hm⟩
    · have := hlast limit hlimit
      rwa [IsTakenFrom, ← h limit hlimit] at this

/-- A depth that is overridden, between entries that do not count; and one that is overridden too
late, since it is no integer. -/
theorem ofEntries_iff_overridden :
    let first : Text × Value := ("maxAstDepth".toList, .text " 7 ".toList)
    let last : Text × Value := ("max_ast_depth".toList, .int 5)
    let other : Text × Value := ("max_tree_depth".toList, .null)
    let length : Text × Value := ("max_rule_length".toList, .bool true)
    let limits : Limits := { ruleLength := 1, depth := 5 }
    let malformed : Text × Value := ("maxAstDepth".toList, .text "seven".toList)
    ofEntries [first, last, length] = .ok limits ∧
      ofEntries [other, first, last, other, length] = .ok limits ∧
      ofEntries [length, first, last] = .ok limits ∧
      ofEntries [other, malformed, last] = .error .malformed := by
  intro first last other length limits malformed
  obtain ⟨-, -, -, hothers, hreordered⟩ := ofEntries_iff [first, last, length]
  have hlimits : ofEntries [first, last, length] = .ok limits := by decide +kernel
  have hfails : FailsFirst [other, malformed, last] .malformed :=
    ⟨[other], _, _, [last], rfl, by decide, by decide +kernel,
      List.forall_mem_singleton.2 fun h => absurd h (by decide)⟩
  have hother : other.1 ∉ Limit.allKeys := by decide
  have hkept : [other, first, last, other, length].filter (·.1 ∈ Limit.allKeys) =
      [first, last, length].filter (·.1 ∈ Limit.allKeys) := by
    simp only [List.filter_cons, hother, decide_false, Bool.false_eq_true, if_false]
  have hmoved (limit : Limit) :
      entriesFor limit [length, first, last] = entriesFor limit [first, last, length] := by
    cases limit <;>
      simp (disch := decide) only [first, last, length, entriesFor_cons_of_mem,
        entriesFor_cons_of_not_mem]
  exact ⟨hlimits, (hothers _ hkept).trans hlimits,
    hreordered _ _ (fun limit _ => hmoved limit) hlimits, ((ofEntries_iff _).1 _).2 hfails⟩

end Limits

end Criteria
