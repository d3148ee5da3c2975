import Criteria.Proofs.Conjoining
import Criteria.Proofs.Deciding

/-!
# Proofs/Rereading — what rules are turned into is read back under the same limits

A conjunction is deeper than the deepest of its rules by at most one level for every rule after the
first (`depth_foldl_and_le`), and the bound on stored trees leaves room for just that.  So all trees
that come from rules can be read back from where they are stored: those of single rules, those of
rules combined, and those in a set, however often it was edited (`decode_encode_of_isMade`).
-/

namespace Criteria

namespace Tree

variable {limits : Limits} {tree : Tree}

/-- **The tree can be stored and read back**: its levels are within the limit, and its connectives
have a meaning. -/
structure IsStorable (limits : Limits) (tree : Tree) : Prop where
  depth_le : (tree.depth : Int) ≤ limits.storedDepth
  isConnective_of_mem : ∀ w ∈ tree.connectives, isConnective w

theorem IsStorable.decode_eq_ok (h : tree.IsStorable limits) :
    decode limits tree.encode = .ok tree := by
  have := h.depth_le
  exact decodeAt_encode Schema.lawful_validate h.isConnective_of_mem (by omega)

/-! ## Conjunctions -/

/-- **Every rule after the first adds at most a level.** -/
theorem depth_foldl_and_le {bound : Int} {first : Tree} {rest : List Tree}
    (h : ∀ t ∈ first :: rest, (t.depth : Int) ≤ bound) :
    ((rest.foldl and first).depth : Int) ≤ bound + rest.length := by
  induction rest generalizing first bound with
  | nil => simpa using h
  | cons t rest ih =>
    simp only [List.forall_mem_cons] at h
    obtain ⟨hfirst, ht, hrest⟩ := h
    have hand : ((first.and t).depth : Int) ≤ bound + 1 := by
      simp only [and, depth]
      omega
    have hrest' : ∀ u ∈ rest, (u.depth : Int) ≤ bound + 1 := fun u hu =>
      Int.le_add_one (hrest u hu)
    have := ih (List.forall_mem_cons.2 ⟨hand, hrest'⟩)
    rw [List.foldl_cons, List.length_cons]
    omega

theorem isConnective_foldl_and {first : Tree} {rest : List Tree}
    (h : ∀ t ∈ first :: rest, ∀ w ∈ t.connectives, isConnective w) :
    ∀ w ∈ (rest.foldl and first).connectives, isConnective w := by
  induction rest generalizing first with
  | nil => simpa using h
  | cons t rest ih =>
    simp only [List.forall_mem_cons] at h
    obtain ⟨hfirst, ht, hrest⟩ := h
    refine ih (List.forall_mem_cons.2 ⟨?_, hrest⟩)
    exact forall_mem_connectives_operator.2 ⟨hfirst, by decide, ht⟩

/-! ## Trees that come from rules -/

/-- A parsed tree can be stored: a stored one may be deeper by the rules that can be combined. -/
theorem isStorable_of_parse {source : Text} (hcount : 0 ≤ limits.combinedRules)
    (h : parse limits source = .ok tree) : tree.IsStorable limits := by
  obtain ⟨-, -, -, hdepth⟩ := parse_eq_ok_iff.1 h
  refine ⟨?_, isConnective_of_parse h⟩
  rw [Limits.storedDepth]
  omega

/-- **The conjunction of not too many parsed rules can be stored.** -/
theorem isStorable_of_conjunction? {trees : List Tree}
    (hparse : ∀ t ∈ trees, ∃ source, parse limits source = .ok t)
    (hcount : (trees.length : Int) ≤ limits.combinedRules) (h : conjunction? trees = some tree) :
    tree.IsStorable limits := by
  cases trees with
  | nil => exact absurd h (by simp [conjunction?])
  | cons first rest =>
    obtain rfl := Option.some.inj h
    have hdepth : ∀ t ∈ first :: rest, (t.depth : Int) ≤ limits.depth := fun t ht => by
      obtain ⟨source, hp⟩ := hparse t ht
      exact (parse_eq_ok_iff.1 hp).2.2.2
    have hconnective : ∀ t ∈ first :: rest, ∀ w ∈ t.connectives, isConnective w := fun t ht => by
      obtain ⟨source, hp⟩ := hparse t ht
      exact isConnective_of_parse hp
    refine ⟨?_, isConnective_foldl_and hconnective⟩
    have := depth_foldl_and_le hdepth
    rw [List.length_cons] at hcount
    rw [Limits.storedDepth]
    omega

/-- A combined tree can be stored: its rules are not more than can be combined. -/
theorem isStorable_of_combine {rules : List Value} (h : combine limits rules = .ok tree) :
    tree.IsStorable limits := by
  obtain ⟨hcount, trees, htrees, hc⟩ := combine_eq_ok_iff.1 h
  refine isStorable_of_conjunction? (fun t ht => ?_) (htrees.length_eq ▸ hcount) hc
  obtain ⟨rule, hr⟩ := Outcome.exists_forall₂_iff.1 ⟨rules, htrees.flip⟩ t ht
  obtain ⟨source, -, hp⟩ := parseValue_eq_ok_iff.1 hr
  exact ⟨source, hp⟩

end Tree

/-! ## Sets -/

/-- The value of a field, if the value is an object that has it. -/
def Value.field? (name : Text) : Value → Option Value
  | .object fields => Fields.find? name fields
  | _ => none

namespace RuleSet

variable {limits : Limits} {s : RuleSet}

/-- The tree of a rule in a set can be stored: where there is a rule, one rule is not too many. -/
theorem Sound.isStorable_tree (h : s.Sound limits) {rule : Rule} (hm : rule ∈ s.rules) :
    rule.tree.IsStorable limits := by
  have := h.length_le (List.ne_nil_of_mem hm)
  exact Tree.isStorable_of_parse (by omega) (h.parse_source rule hm)

theorem Sound.isStorable_combined (h : s.Sound limits) {tree : Tree} (hc : s.combined = some tree) :
    tree.IsStorable limits := by
  rw [h.combined_eq] at hc
  refine Tree.isStorable_of_conjunction? (fun t ht => ?_) ?_ hc
  · obtain ⟨rule, hm, rfl⟩ := List.mem_map.1 ht
    exact ⟨rule.source, h.parse_source rule hm⟩
  · rw [List.length_map]
    exact h.length_le fun hnil => by simp [hnil, Tree.conjunction?] at hc

/-- **A stored set holds its trees**: what it stores of each rule is read back to the tree of that
rule, and what it stores of the conjunction to the conjunction. -/
structure IsReadBack (s : RuleSet) : Prop where
  rules : ∃ stored, s.encode.field? "rules".toList = some (.list stored) ∧
    List.Forall₂ (fun rule v => ∃ ast, v.field? "ast".toList = some ast ∧
      Tree.decode s.limits ast = .ok rule.tree) s.rules stored
  combined : ∀ tree, s.combined = some tree → ∃ v, s.encode.field? "combined".toList = some v ∧
    Tree.decode s.limits v = .ok tree

/-- **Every tree of a sound set is read back**, those of its rules and the combined one. -/
theorem Sound.isReadBack (h : s.Sound limits) : s.IsReadBack where
  rules := by
    refine ⟨s.rules.map encodeRule, rfl, ?_⟩
    rw [List.forall₂_map_right_iff, List.forall₂_same, h.limits_eq]
    exact fun rule hm => ⟨rule.tree.encode, rfl, (h.isStorable_tree hm).decode_eq_ok⟩
  combined := by
    intro tree hc
    refine ⟨tree.encode, ?_, h.limits_eq ▸ (h.isStorable_combined hc).decode_eq_ok⟩
    rw [encode, hc]
    rfl

end RuleSet

namespace Tree

/-- **The trees that rules are turned into** under limits: parsed from one, if they admit any
number of rules, combined from several, or kept in a set. -/
inductive IsMade (limits : Limits) : Tree → Prop
  | parsed {source : Text} {tree : Tree} : 0 ≤ limits.combinedRules →
      parse limits source = .ok tree → IsMade limits tree
  | combined {rules : List Value} {tree : Tree} :
      combine limits rules = .ok tree → IsMade limits tree
  | rule {s : RuleSet} {rule : Rule} :
      s.ReachableUnder limits → rule ∈ s.rules → IsMade limits rule.tree
  | conjunction {s : RuleSet} {tree : Tree} :
      s.ReachableUnder limits → s.combined = some tree → IsMade limits tree

/-- Every tree that can be made under limits can be stored under them. -/
theorem IsMade.isStorable {limits : Limits} {tree : Tree} (h : tree.IsMade limits) :
    tree.IsStorable limits := by
  cases h with
  | parsed hcount h => exact isStorable_of_parse hcount h
  | combined h => exact isStorable_of_combine h
  | rule hs hm => exact hs.sound.isStorable_tree hm
  | conjunction hs hc => exact hs.sound.isStorable_combined hc

/-- **Whatever rules are turned into is read back under the same limits.**  The tree of a rule, of
rules combined, or of a set that was edited any number of times is within the bound on stored trees,
its connectives are `AND` and `OR` only, it is read back from where it is stored, and its evaluation
never fails on a connective.  So a stored set is read back under its own limits, tree by tree. -/
theorem decode_encode_of_isMade (limits : Limits) :
    (∀ tree : Tree, tree.IsMade limits →
      (tree.depth : Int) ≤ limits.storedDepth ∧
      (∀ w ∈ tree.connectives, w = andWord ∨ w = orWord) ∧
      decode limits tree.encode = .ok tree ∧
      ∀ record word, tree.evaluate record ≠ .error (.error (.unsupportedConnective word))) ∧
    ∀ s : RuleSet, s.ReachableUnder limits → s.limits = limits ∧ s.IsReadBack := by
  refine ⟨fun tree h => ?_, fun s hs => ⟨hs.sound.limits_eq, hs.sound.isReadBack⟩⟩
  obtain ⟨hdepth, hconnective⟩ := h.isStorable
  refine ⟨hdepth, fun w hw => ?_, h.isStorable.decode_eq_ok, fun record =>
    evaluate_ne_unsupportedConnective hconnective⟩
  simpa [isConnective] using hconnective w hw

/-- At the limit of both the depth of rules and their number, after a rule is put into a set. -/
theorem decode_encode_of_isMade_full :
    let limits : Limits := { depth := 2, combinedRules := 2 }
    let rule : Rule := ⟨"p".toList, "a > 1 OR b < 2".toList,
      operator orWord (operand "a > 1".toList) (operand "b < 2".toList), none⟩
    let made : RuleSet := ⟨none, limits, [rule], some rule.tree⟩
    let s := (Edit.run made [rule.entry] [.put "q".toList (.text "c = 3".toList) none]).1
    let tree := rule.tree.and (operand "c = 3".toList)
    s.ReachableUnder limits ∧ s.combined = some tree ∧ tree.IsMade limits ∧
      decode limits tree.encode = .ok tree ∧ s.IsReadBack := by
  intro limits rule made s tree
  have hmade : RuleSet.MadeFrom limits made [rule.entry] := .entries <|
    RuleSet.ofEntries_eq_ok_iff.2 ⟨[rule],
      .cons (Rule.compile_eq_ok_iff.2 ⟨rfl, rfl, by decide +kernel⟩) .nil,
      RuleSet.ofRules_eq_ok_iff.2 ⟨List.nodup_singleton _, fun _ => by decide, rfl⟩⟩
  have hs : s.ReachableUnder limits := ⟨made, _, _, hmade, rfl⟩
  have hc : s.combined = some tree := by decide +kernel
  have htree : tree.IsMade limits := .conjunction hs hc
  obtain ⟨htrees, hsets⟩ := decode_encode_of_isMade limits
  exact ⟨hs, hc, htree, (htrees tree htree).2.2.1, (hsets s hs).2⟩

end Tree

end Criteria
