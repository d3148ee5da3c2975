import Criteria.Proofs.Conjoining
import Criteria.Proofs.Reporting

/-!
# Proofs/Compiling — a rule set has the tree that its rules are combined to

Rules are combined after they were counted, and counted after they were compiled to a set; both
succeed iff each rule is parsed and they are not too many, except that a set may be empty
(`Tree.exists_combine_iff`, `RuleSet.exists_ofEntries_iff`).  The set then has the combined tree
(`RuleSet.Sound.combine_eq_ok_iff`).
-/

namespace Criteria

open Outcome

/-! ## When either succeeds -/

/-- **Rules are combined** iff there are some, not too many, and each is parsed. -/
theorem Tree.exists_combine_iff (limits : Limits) (sources : List Value) :
    (∃ tree, combine limits sources = .ok tree) ↔ sources ≠ [] ∧
      (sources.length : Int) ≤ limits.combinedRules ∧
        ∀ value ∈ sources, ∃ tree, parseValue limits value = .ok tree := by
  simp only [Tree.combine_eq_ok_iff]
  rw [← exists_forall₂_iff]
  constructor
  · rintro ⟨tree, hlen, trees, htrees, htree⟩
    refine ⟨?_, hlen, trees, htrees⟩
    rintro rfl
    rw [List.forall₂_nil_left_iff] at htrees
    rw [htrees] at htree
    exact absurd htree (by simp [conjunction?])
  · rintro ⟨hne, hlen, trees, htrees⟩
    cases htrees with
    | nil => exact absurd rfl hne
    | cons htree htrees => exact ⟨_, hlen, _, .cons htree htrees, rfl⟩

namespace RuleSet

variable {limits : Limits}

/-- **A dictionary makes a set** iff each rule is parsed, and there are none or not too many. -/
theorem exists_ofEntries_iff (limits : Limits) (name : Option Text) {entries : List (Text × Value)}
    (hids : (entries.map Prod.fst).Nodup) :
    (∃ s, ofEntries limits name entries = .ok s) ↔
      (∀ e ∈ entries, ∃ tree, Tree.parseValue limits e.2 = .ok tree) ∧
        (entries ≠ [] → (entries.length : Int) ≤ limits.combinedRules) := by
  constructor
  · rintro ⟨s, hs⟩
    obtain ⟨hsound, rfl⟩ := sound_of_ofEntries hs
    refine ⟨fun e he => ?_, fun hne => ?_⟩
    · obtain ⟨rule, hm, rfl⟩ := List.mem_map.1 he
      exact ⟨rule.tree, Tree.parseValue_eq_ok_iff.2 ⟨_, rfl, hsound.parse_source rule hm⟩⟩
    · rw [entries, List.length_map]
      exact hsound.length_le fun hnil => hne (by rw [entries, hnil, List.map_nil])
  · rintro ⟨hparse, hlen⟩
    obtain ⟨rules, hrules⟩ := exists_forall₂_iff.2 fun e he =>
      (Rule.exists_compile_iff e.1 none).2 (hparse e he)
    have hentries := (entries_of_compile hrules).1
    refine ⟨_, ofEntries_eq_ok_iff.2 ⟨rules, hrules, ofRules_eq_ok_iff.2 ⟨?_, fun hne => ?_, rfl⟩⟩⟩
    · rwa [← hentries, Rule.map_fst_entry] at hids
    · rw [← hentries, List.length_map] at hlen
      exact hlen fun hnil => hne (List.map_eq_nil_iff.1 hnil)

/-- **The combined tree of a set** is what its rules are combined to. -/
theorem Sound.combine_eq_ok_iff {s : RuleSet} (h : s.Sound limits) {tree : Tree} :
    Tree.combine limits (s.entries.map Prod.snd) = .ok tree ↔ s.combined = some tree := by
  have htrees : List.Forall₂ (fun value t => Tree.parseValue limits value = .ok t)
      (s.entries.map Prod.snd) (s.rules.map Rule.tree) := by
    rw [entries, List.map_map, List.forall₂_map_left_iff, List.forall₂_map_right_iff,
      List.forall₂_same]
    exact fun rule hm => Tree.parseValue_eq_ok_iff.2 ⟨_, rfl, h.parse_source rule hm⟩
  rw [Tree.combine_eq_ok_iff, h.combined_eq, List.length_map, entries, List.length_map]
  constructor
  · rintro ⟨-, trees, htrees', htree⟩
    have htrees_eq : .ok trees = Except.ok (s.rules.map Rule.tree) :=
      (mapM_eq_ok_iff.2 htrees').symm.trans (mapM_eq_ok_iff.2 htrees)
    rwa [← Except.ok.inj htrees_eq]
  · intro htree
    refine ⟨h.length_le ?_, _, htrees, htree⟩
    intro hnil
    rw [hnil] at htree
    exact absurd htree (by simp [Tree.conjunction?])

/-! ## Numbered rules -/

theorem defaultId_injective : Function.Injective fun index : Nat => defaultId index := by
  intro i j h
  have hrepr : (Nat.repr i).toList = (Nat.repr j).toList := List.append_cancel_left h
  rw [Nat.repr_eq_ofList_toDigits, Nat.repr_eq_ofList_toDigits, String.toList_ofList,
    String.toList_ofList] at hrepr
  rw [← Nat.ofDigitChars_ten_toDigits (n := i), hrepr, Nat.ofDigitChars_ten_toDigits]

/-- The rules under their default ids. -/
def numbered (sources : List Value) : List (Text × Value) :=
  sources.mapIdx fun i source => (defaultId i, source)

@[simp] theorem keys_numbered (sources : List Value) :
    (numbered sources).map Prod.fst = (List.range sources.length).map defaultId :=
  List.ext_getElem (by simp [numbered]) (by simp [numbered])

@[simp] theorem values_numbered (sources : List Value) :
    (numbered sources).map Prod.snd = sources :=
  List.ext_getElem (by simp [numbered]) (by simp [numbered])

/-- **Default ids are distinct.** -/
theorem nodup_keys_numbered (sources : List Value) : ((numbered sources).map Prod.fst).Nodup := by
  rw [keys_numbered]
  exact List.nodup_range.map defaultId_injective

/-! ## The set and the combination -/

/-- **What is made of rules agrees with what they are combined to.** -/
structure Agrees (limits : Limits) (sources : List Value) (made : Except RuleSetError RuleSet) :
    Prop where
  /-- The rules are combined to the tree of the set. -/
  combined_iff : ∀ tree, Tree.combine limits sources = .ok tree ↔
    ∃ s, made = .ok s ∧ s.combined = some tree
  /-- If there are rules, both fail or neither does. -/
  error_iff : sources ≠ [] →
    ((∃ e, Tree.combine limits sources = .error e) ↔ ∃ e, made = .error e)
  /-- A set that is not made has an error of its own, unless a number in it cannot be written. -/
  report : ∀ e, made = .error e → (e.IsWritable → e.report.kind = .ruleSet) ∧
    (¬e.IsWritable → e.report = { kind := .badNumber })
  /-- Without rules the set is made, and neither it nor the combination has a tree. -/
  of_nil : sources = [] → (∃ e, Tree.combine limits sources = .error e) ∧
    ∃ s, made = .ok s ∧ s.combined = none ∧
      ∀ record, (s.evaluate record).mapError RunError.report =
        .error (Report.emptyInput noRulesMessage)

/-- **From entries to sources**: the identifiers matter only in that they are distinct. -/
theorem agrees_ofEntries (limits : Limits) (name : Option Text) {entries : List (Text × Value)}
    (hids : (entries.map Prod.fst).Nodup) :
    Agrees limits (entries.map Prod.snd) (ofEntries limits name entries) := by
  have hmade := exists_ofEntries_iff limits name hids
  have hcombine := Tree.exists_combine_iff limits (entries.map Prod.snd)
  simp only [List.forall_mem_map, List.length_map, ne_eq, List.map_eq_nil_iff] at hcombine
  refine ⟨fun tree => ⟨fun h => ?_, ?_⟩, fun hne => ?_, fun e _ => ?_, fun hnil => ?_⟩
  · obtain ⟨-, hlen, hparse⟩ := hcombine.1 ⟨tree, h⟩
    obtain ⟨s, hs⟩ := hmade.2 ⟨hparse, fun _ => hlen⟩
    obtain ⟨hsound, rfl⟩ := sound_of_ofEntries hs
    exact ⟨s, hs, hsound.combine_eq_ok_iff.1 h⟩
  · rintro ⟨s, hs, htree⟩
    obtain ⟨hsound, rfl⟩ := sound_of_ofEntries hs
    exact hsound.combine_eq_ok_iff.2 htree
  · rw [exists_error_iff, exists_error_iff, hmade, hcombine, not_iff_not]
    have hne : entries ≠ [] := fun hnil => hne (by rw [hnil, List.map_nil])
    grind
  · exact ⟨e.report_kind_eq_ruleSet_iff.2, RuleSetError.report_of_not_isWritable⟩
  · obtain rfl := List.map_eq_nil_iff.1 hnil
    exact ⟨exists_error_iff.2 fun h => (hcombine.1 h).1 rfl, _, rfl, rfl, fun _ => rfl⟩

/-- **A rule set has the tree that `combine` builds, on the same rules.**  Rules under distinct ids,
or numbered ones, are combined to a tree iff they make a set with that tree; if there are rules, one
fails iff the other does.  A set without rules is made under all limits and has no tree. -/
theorem agrees_combine (limits : Limits) (name : Option Text) :
    (∀ entries : List (Text × Value), (entries.map Prod.fst).Nodup →
      Agrees limits (entries.map Prod.snd) (ofEntries limits name entries)) ∧
    ∀ sources : List Value, Agrees limits sources (ofList limits name sources) := by
  refine ⟨fun entries hids => agrees_ofEntries limits name hids, fun sources => ?_⟩
  have h := agrees_ofEntries limits name (nodup_keys_numbered sources)
  rwa [values_numbered] at h

/-- Two rules have a common tree; where only one is allowed and one is not parsed, the combination
reports the number of rules, and the set the rule. -/
theorem agrees_combine_pair :
    let good := [("x".toList, .text "a > 1".toList), ("y".toList, .text "b < 2".toList)]
    let bad := [("x".toList, Value.text "a".toList), ("y".toList, .text "b < 2".toList)]
    let one : Limits := { combinedRules := 1 }
    (good.map Prod.fst).Nodup ∧ (bad.map Prod.fst).Nodup ∧
      (∃ s, ofEntries {} none good = .ok s ∧
        s.combined = some (.and (.operand "a > 1".toList) (.operand "b < 2".toList))) ∧
      Tree.combine one (bad.map Prod.snd) = .error (.rule (.limit ⟨.combinedRules, 1, 2⟩)) ∧
      ∃ e, ofEntries one none bad = .error e ∧ e.report.ruleId = some "x".toList := by
  intro good bad one
  have hgood : (good.map Prod.fst).Nodup := by decide
  have hbad : (bad.map Prod.fst).Nodup := by decide
  have htree : Tree.combine {} (good.map Prod.snd) =
      .ok (.and (.operand "a > 1".toList) (.operand "b < 2".toList)) := by decide +kernel
  have hlimit : Tree.combine one (bad.map Prod.snd) =
      .error (.rule (.limit ⟨.combinedRules, 1, 2⟩)) := by decide +kernel
  have hid : (ofEntries one none bad).mapError (fun e => e.report.ruleId) =
      .error (some "x".toList) := by decide +kernel
  obtain ⟨e, he⟩ := (((agrees_combine one none).1 bad hbad).error_iff (by decide)).1 ⟨_, hlimit⟩
  rw [he] at hid
  exact ⟨hgood, hbad, (((agrees_combine {} none).1 good hgood).combined_iff _).1 htree, hlimit,
    e, he, Except.error.inj hid⟩

/-- **A combination can fail where the set has no error of its own**: the bound on the number of
rules may have a digit more than can be written. -/
theorem not_forall_ofList_error_iff :
    ¬∀ (limits : Limits) (name : Option Text) (sources : List Value), sources ≠ [] →
      ((∃ e, Tree.combine limits sources = .error e) ↔
        ∃ e, ofList limits name sources = .error e ∧ e.report.kind = .ruleSet) := by
  let limits : Limits := { combinedRules := -(Nat.pow 10 Text.maxDigits : Nat) }
  intro h
  have hneg : ¬(1 : Int) ≤ limits.combinedRules := by decide +kernel
  have hcombine : ∃ e, Tree.combine limits [.text "a > 1".toList] = .error e :=
    exists_error_iff.2 fun ht => hneg ((Tree.exists_combine_iff _ _).1 ht).2.1
  have hreport : (ofList limits none [.text "a > 1".toList]).mapError (fun e => e.report.kind) =
      .error .badNumber := by decide +kernel
  obtain ⟨e, he, hkind⟩ := (h limits none _ (List.cons_ne_nil _ _)).1 hcombine
  rw [he] at hreport
  exact absurd (hkind.symm.trans (Except.error.inj hreport)) (by decide)

end RuleSet

end Criteria
