import Criteria.Proofs.Reading
import Criteria.Proofs.Reporting

/-!
# Proofs/Exceeding — which limit a rule is refused for

A rule with a tree is refused for one limit, however many it exceeds (`Tree.exceeded?`): that of its
length, or else that of the depth of its tree, or else that of the nodes.  Levels are checked on the
way down (`ofItem_of_group`), so a tree that is too deep is refused on the first level beyond the
limit, whichever branch reaches it (`ofItem_of_tooDeep`), and the depth of a tree that is read
passes every time (`guard_depth_of_ofItem`).  Together: `parse_eq_of_parse_eq_ok`.
-/

namespace Criteria

open Token

namespace Item

theorem core_group {items : Group} (h : 2 ≤ items.length) :
    (Item.group items).core = .group items := by
  match items with
  | [] => simp at h
  | [_] => simp at h
  | _ :: _ :: _ => rw [core.eq_def]

/-- A group that is split has two items at least, if there is anything before the connective. -/
theorem two_le_length_of_split {items left right : Group} {word : Text} {tree : Tree}
    (hs : Group.split? items = some (left, word, right)) (h : (Item.group left).Builds tree) :
    2 ≤ items.length := by
  obtain ⟨rfl, -, -⟩ := Group.split?_eq_some_iff.1 hs
  cases left with
  | nil => exact absurd h not_builds_nil
  | cons item left =>
    simp only [List.length_append, List.length_cons]
    omega

end Item

namespace Tree

variable {limits : Limits} {source : Text} {level : Nat} {item : Item} {items : Group} {tree : Tree}

/-! ## One level -/

/-- Parentheses around one item are on no level of their own. -/
theorem ofItem_singleton (limits : Limits) (source : Text) (level : Nat) (item : Item) :
    ofItem limits source level (.group [item]) = ofItem limits source level item := by
  have hsame : (Item.group [item]).core = item.core := by rw [Item.core]
  cases hcore : item.core with
  | token value =>
    rw [ofItem_of_token _ _ _ hcore, ofItem_of_token _ _ _ (hsame.trans hcore)]
  | group items =>
    by_cases hne : items = []
    · subst hne
      rw [ofItem_of_nil _ _ _ hcore, ofItem_of_nil _ _ _ (hsame.trans hcore)]
    · rw [ofItem_of_group _ _ _ hcore hne, ofItem_of_group _ _ _ (hsame.trans hcore) hne]

/-- Beyond the limit, a group is not split. -/
theorem ofItem_of_lt (h : limits.depth < level) (hlen : 2 ≤ items.length) :
    ofItem limits source level (.group items) = .error (.limit ⟨.depth, limits.depth, level⟩) := by
  have hne : items ≠ [] := List.ne_nil_of_length_pos (by omega)
  rw [ofItem_of_group _ _ _ (Item.core_group hlen) hne, Limits.guard_of_lt h]
  rfl

/-- Within the limit, a group that is split is read before the connective, then after it. -/
theorem ofItem_of_split {left right : Group} {word : Text} (h : level ≤ limits.depth)
    (hlen : 2 ≤ items.length) (hs : Group.split? items = some (left, word, right)) :
    ofItem limits source level (.group items) =
      ofItem limits source (level + 1) (.group left) >>= fun l =>
        ofItem limits source (level + 1) (.group right) >>= fun r => .ok (operator word l r) := by
  have hne : items ≠ [] := List.ne_nil_of_length_pos (by omega)
  rw [ofItem_of_group _ _ _ (Item.core_group hlen) hne, Limits.guard_of_le h, hs]
  rfl

/-! ## All levels -/

/-- **A tree that is too deep is refused on the first level beyond the limit**, whichever branch
reaches it and however many parentheses there are. -/
theorem ofItem_of_tooDeep (h : item.Builds tree) (hd : limits.depth + 1 < level + tree.depth) :
    ofItem limits source level item =
      .error (.limit ⟨.depth, limits.depth, max level (limits.depth + 1)⟩) := by
  induction h generalizing level with
  | unwrap _ ih =>
    rw [ofItem_singleton]
    exact ih hd
  | @operand items hs hlen =>
    have hl : limits.depth < level := by simpa [depth] using hd
    rw [ofItem_of_lt hl hlen, Int.max_eq_left (Int.add_one_le_of_lt hl)]
  | @operator items left right word l r hs hbl hbr ihl ihr =>
    have hlen := Item.two_le_length_of_split hs hbl
    by_cases hl : (level : Int) ≤ limits.depth
    · have hmax : max ((level + 1 : Nat) : Int) (limits.depth + 1) =
          max (level : Int) (limits.depth + 1) := by omega
      rw [ofItem_of_split hl hlen hs, ← hmax]
      -- The right part is looked at only if the left one is within the limit.
      rcases operator_tooDeep hd with hdl | ⟨hdl, hdr⟩
      · rw [ihl hdl]
        rfl
      · rw [ofItem_eq_ok_iff.2 ⟨hbl, hdl⟩, ihr hdr]
        rfl
    · have hl := Int.not_le.1 hl
      rw [ofItem_of_lt hl hlen, Int.max_eq_left (Int.add_one_le_of_lt hl)]

/-- **The depth of a tree that is read is within the limit**, as its levels are. -/
theorem guard_depth_of_ofItem (h : ofItem limits source 1 item = .ok tree) :
    limits.guard .depth tree.depth = .ok () := by
  obtain ⟨-, hd⟩ := ofItem_eq_ok_iff.1 h
  have hdepth : (tree.depth : Int) ≤ limits.depth := by omega
  exact Limits.guard_of_le hdepth

/-! ## As a rule is parsed -/

/-- **The limit that a rule is refused for**, given its length and its tree: the first that it
exceeds, in the order in which they are checked.  Of a depth beyond the limit only the first level
is known. -/
def exceeded? (limits : Limits) (length : Nat) (tree : Tree) : Option LimitExceeded :=
  if limits.ruleLength < length then some ⟨.ruleLength, limits.ruleLength, length⟩
  else if limits.depth < tree.depth then some ⟨.depth, limits.depth, max 1 (limits.depth + 1)⟩
  else if limits.nodes < tree.size then some ⟨.nodes, limits.nodes, tree.size⟩
  else none

/-- A rule that is not too long is read from the group that spells it, then its tree is checked. -/
theorem parse_of_spells (h : (source.length : Int) ≤ limits.ruleLength)
    (hs : Group.Spells items source.lexemes) (hb : (Item.group items).Builds tree) :
    parse limits source = ofItem limits source 1 (.group items) >>= fun t =>
      limits.guard .nodes t.size >>= fun _ => limits.guard .depth t.depth >>= fun _ => .ok t := by
  have hne : scan source ≠ [] := by
    intro hnil
    rw [Text.lexemes, hnil] at hs
    obtain rfl := hs.unique .nil
    exact Item.not_builds_nil hb
  rw [parse, scanWithin_eq_ok_iff.2 ⟨h, rfl⟩]
  change ofTokens limits source (scan source) = _
  rw [ofTokens, if_neg hne, Group.ofTokens_of_spells hs]
  rfl

/-- **A rule that means a tree is parsed to it or refused for one limit.** -/
theorem parse_eq_of_builds (limits : Limits) (hs : Group.Spells items source.lexemes)
    (hb : (Item.group items).Builds tree) :
    parse limits source = match tree.exceeded? limits source.length with
      | none => .ok tree
      | some x => .error (.limit x) := by
  unfold exceeded?
  split_ifs with hlength hdepth hsize
  · rw [parse, scanWithin, Limits.guard_of_lt hlength]
    rfl
  · have hd : limits.depth + 1 < (1 : Nat) + tree.depth := by omega
    rw [parse_of_spells (Int.not_lt.1 hlength) hs hb, ofItem_of_tooDeep hb hd]
    rfl
  · have hd : ((1 : Nat) + tree.depth : Int) ≤ limits.depth + 1 := by omega
    rw [parse_of_spells (Int.not_lt.1 hlength) hs hb, ofItem_eq_ok_iff.2 ⟨hb, hd⟩]
    change limits.guard .nodes tree.size >>= _ = _
    rw [Limits.guard_of_lt hsize]
    rfl
  · exact parse_eq_ok_iff.2 ⟨Int.not_lt.1 hlength, ⟨items, hs, hb⟩, Int.not_lt.1 hsize,
      Int.not_lt.1 hdepth⟩

/-- **A rule with a tree is parsed to it, or refused for the first limit that it exceeds**: its
length, then the depth, then the nodes, the depth whatever the branch and with the first level
beyond the limit.  A limit or quantity with too many digits to be written has no report of its own.
The check of the depth of a tree that is read never fails, whatever is read. -/
theorem parse_eq_of_parse_eq_ok {limits₀ : Limits} (h : parse limits₀ source = .ok tree) :
    (∀ limits : Limits,
      (tree.exceeded? limits source.length = none → parse limits source = .ok tree) ∧
      ∀ x, tree.exceeded? limits source.length = some x →
        parse limits source = .error (.limit x) ∧
        (parse limits source).mapError ParseError.report = .error (
          if Text.isWritable x.bound && Text.isWritable x.actual then
            { kind := .limitExceeded, limitName := x.limit.name, limit := x.bound,
              actual := x.actual, message := limitMessage x.limit.name x.bound x.actual }
          else { kind := .badNumber })) ∧
    ∀ (limits : Limits) (source : Text) (item : Item) (t : Tree),
      ofItem limits source 1 item = .ok t → limits.guard .depth t.depth = .ok () := by
  refine ⟨fun limits => ?_, fun _ _ _ _ ht => guard_depth_of_ofItem ht⟩
  obtain ⟨-, ⟨items, hs, hb⟩, -⟩ := parse_eq_ok_iff.1 h
  have hparse := parse_eq_of_builds limits hs hb
  refine ⟨fun hx => ?_, fun x hx => ?_⟩
  · rw [hparse, hx]
  · rw [hx] at hparse
    exact ⟨hparse, by rw [hparse]; rfl⟩

/-- A tree that is too deep on the right, of a rule that is not too long, and has too many nodes. -/
theorem parse_eq_of_parse_eq_ok_deep_right :
    let source := "a > 1 AND (b < 2 OR (c = 3 AND d > 4))".toList
    let limits : Limits := { depth := 2, nodes := 3 }
    (∃ tree, parse {} source = .ok tree ∧ limits.nodes < tree.size) ∧
      parse limits source = .error (.limit ⟨.depth, 2, 3⟩) := by
  intro source limits
  let tree := operator andWord (operand "a > 1".toList) (operator orWord (operand "b < 2".toList)
    (operator andWord (operand "c = 3".toList) (operand "d > 4".toList)))
  have h : parse {} source = .ok tree := by decide +kernel
  have hx : tree.exceeded? limits source.length = some ⟨.depth, 2, 3⟩ := by decide +kernel
  exact ⟨⟨tree, h, by decide⟩, (((parse_eq_of_parse_eq_ok h).1 limits).2 _ hx).1⟩

/-- **The limit is not always reported**: a bound can have more digits than may be written. -/
theorem not_forall_parse_report_limitExceeded :
    ¬∀ (limits₀ limits : Limits) (source : Text) (tree : Tree), parse limits₀ source = .ok tree →
      (source.length : Int) ≤ limits.ruleLength → limits.depth < tree.depth →
        ∃ report : Report, (parse limits source).mapError ParseError.report = .error report ∧
          report.kind = .limitExceeded := by
  intro h
  let limits : Limits := { depth := -(Nat.pow 10 Text.maxDigits : Nat) }
  let tree := operand "a > 1".toList
  have hp : parse {} "a > 1".toList = .ok tree := by decide +kernel
  have hd : limits.depth < tree.depth := by decide +kernel
  obtain ⟨-, ⟨items, hs, hb⟩, -⟩ := parse_eq_ok_iff.1 hp
  obtain ⟨report, hr, hk⟩ := h {} limits _ tree hp (by decide) hd
  have hx : tree.exceeded? limits "a > 1".toList.length = some ⟨.depth, limits.depth, 1⟩ := by
    decide +kernel
  rw [parse_eq_of_builds limits hs hb, hx] at hr
  have hkind : (ParseError.limit ⟨.depth, limits.depth, 1⟩).report.kind = .badNumber := by
    decide +kernel
  rw [← Except.error.inj hr, hkind] at hk
  exact absurd hk (by decide)

end Tree

end Criteria
