import Criteria.Proofs.Nesting
import Criteria.Proofs.Outcome
import Criteria.Tree.Parse

/-!
# Proofs/Reading — what a rule means, limits aside

`Item.Builds item tree` reads an item as a tree without looking at a limit.  `parse_eq_ok_iff` says
that limits only filter: a rule is parsed iff it is short enough, some group spells its lexemes and
builds a tree, and that tree is small enough.
-/

namespace Criteria

open Token

/-! ## Splitting -/

namespace Group

/-- **A split happens at the first connective of the group itself.** -/
theorem split?_eq_some_iff {items left right : Group} {word : Text} :
    split? items = some (left, word, right) ↔
      items = left ++ .token word :: right ∧ isConnective word ∧
        ∀ v, Item.token v ∈ left → isConnective v = false := by
  induction items generalizing left with
  | nil => simp [split?]
  | cons item items ih =>
    have hmap : ∀ i, (split? items).map (fun p => (i :: p.1, p.2.1, p.2.2)) =
        some (left, word, right) ↔ ∃ l, left = i :: l ∧ split? items = some (l, word, right) := by
      intro i
      cases split? items <;> simp [Prod.ext_iff]
      grind
    cases item with
    | token value =>
      by_cases hv : isConnective value
      · simp only [split?, if_pos hv, Option.some.injEq, Prod.mk.injEq]
        cases left with
        | nil => simp; grind
        | cons i left => simp; grind
      · simp only [split?, if_neg hv]
        rw [hmap]
        cases left with
        | nil => simp; grind
        | cons i left => simp [ih]; grind
    | group inner =>
      simp only [split?]
      rw [hmap]
      cases left with
      | nil => simp
      | cons i left => simp [ih]; grind

/-- **Without a connective of its own, a group is not split.** -/
theorem split?_eq_none_iff {items : Group} :
    split? items = none ↔ ∀ v, Item.token v ∈ items → isConnective v = false := by
  induction items with
  | nil => simp [split?]
  | cons item items ih =>
    cases item with
    | token value =>
      by_cases hv : isConnective value
      · simp [split?, hv]
      · simp [split?, hv, ih]
    | group inner => simp [split?, ih]

end Group

/-! ## Building -/

namespace Item

/-- **The tree of an item.**  Parentheses around one item mean nothing; a group is split at its
first connective; a group without one, of two items or more, is a condition. -/
inductive Builds : Item → Tree → Prop
  | unwrap {item : Item} {tree : Tree} : Builds item tree → Builds (.group [item]) tree
  | operator {items left right : Group} {word : Text} {l r : Tree} :
      Group.split? items = some (left, word, right) → Builds (.group left) l →
      Builds (.group right) r → Builds (.group items) (.operator word l r)
  | operand {items : Group} : Group.split? items = none → 2 ≤ items.length →
      Builds (.group items) (.operand (Text.unwords (valuesAll items)))

@[simp] theorem not_builds_token {value : Text} {tree : Tree} : ¬Builds (.token value) tree := nofun

@[simp] theorem not_builds_nil {tree : Tree} : ¬Builds (.group []) tree := by
  rintro (_ | ⟨h, _, _⟩ | ⟨_, h⟩)
  · simp [Group.split?] at h
  · simp at h

/-- Parentheses around one item mean nothing. -/
@[simp] theorem builds_singleton_iff {item : Item} {tree : Tree} :
    Builds (.group [item]) tree ↔ Builds item tree := by
  refine ⟨?_, .unwrap⟩
  rintro (h | ⟨h, hl, _⟩ | ⟨_, h⟩)
  · exact h
  · obtain ⟨he, -, -⟩ := Group.split?_eq_some_iff.1 h
    rw [List.singleton_eq_append_iff] at he
    rcases he with ⟨rfl, -⟩ | ⟨-, he⟩
    · exact absurd hl not_builds_nil
    · simp at he
  · simp at h

@[simp] theorem builds_core_iff {tree : Tree} :
    ∀ {item : Item}, Builds item.core tree ↔ Builds item tree
  | .token _ => by rw [core.eq_def]
  | .group [] => by rw [core.eq_def]
  | .group [item] => by rw [core, builds_core_iff, builds_singleton_iff]
  | .group (_ :: _ :: _) => by rw [core.eq_def]

/-- Where no more parentheses can be taken off, a group is empty or has two items. -/
theorem two_le_length_of_core {items : Group} (hne : items ≠ []) :
    ∀ {item : Item}, item.core = .group items → 2 ≤ items.length
  | .token _, h => by rw [core.eq_def] at h; exact absurd h (by simp)
  | .group [], h => by
    rw [core.eq_def] at h
    exact absurd (Item.group.inj h).symm hne
  | .group [item], h => by
    rw [core] at h
    exact two_le_length_of_core hne h
  | .group (_ :: _ :: _), h => by
    rw [core.eq_def] at h
    obtain rfl := Item.group.inj h
    simp

/-- A group with a keyword outside of its groups builds an operator, of what the two parts build. -/
theorem builds_iff_of_split {items left right : Group} {word : Text} {tree : Tree}
    (h : Group.split? items = some (left, word, right)) :
    Builds (.group items) tree ↔
      ∃ l r, Builds (.group left) l ∧ Builds (.group right) r ∧ tree = .operator word l r := by
  constructor
  · rintro (hi | ⟨h', hl, hr⟩ | ⟨h', _⟩)
    · obtain ⟨he, hw, -⟩ := Group.split?_eq_some_iff.1 h
      rw [List.singleton_eq_append_iff] at he
      rcases he with ⟨-, he⟩ | ⟨-, he⟩
      · obtain ⟨rfl, -⟩ := List.cons.inj he
        exact absurd hi not_builds_token
      · simp at he
    · rw [h] at h'
      obtain ⟨rfl, rfl, rfl⟩ := by simpa using h'
      exact ⟨_, _, hl, hr, rfl⟩
    · rw [h] at h'
      exact absurd h' (by simp)
  · rintro ⟨l, r, hl, hr, rfl⟩
    exact .operator h hl hr

/-- A group of two or more items without a keyword builds an operand. -/
theorem builds_iff_of_not_split {items : Group} {tree : Tree} (h : Group.split? items = none)
    (hlen : 2 ≤ items.length) :
    Builds (.group items) tree ↔ tree = .operand (Text.unwords (valuesAll items)) := by
  constructor
  · rintro (_ | ⟨h', _, _⟩ | _)
    · simp at hlen
    · rw [h] at h'
      exact absurd h' (by simp)
    · rfl
  · rintro rfl
    exact .operand h hlen

/-- **Only connectives join the trees that items build.** -/
theorem Builds.isConnective {item : Item} {tree : Tree} (h : item.Builds tree) :
    ∀ w ∈ tree.connectives, Criteria.isConnective w := by
  induction h with
  | unwrap _ ih => exact ih
  | operator hs _ _ ihl ihr =>
    obtain ⟨-, hw, -⟩ := Group.split?_eq_some_iff.1 hs
    rw [Tree.forall_mem_connectives_operator]
    exact ⟨ihl, hw, ihr⟩
  | operand _ _ => simp

end Item

/-! ## Limits -/

theorem Limits.guard_eq_ok_iff {limits : Limits} {limit : Limit} {actual : Int} {u : Unit} :
    limits.guard limit actual = .ok u ↔ actual ≤ limits.bound limit := by
  rw [Limits.guard, Outcome.mapError_eq_ok_iff]
  exact Limits.check_eq_ok_iff

theorem Limits.guard_of_le {limits : Limits} {limit : Limit} {actual : Int}
    (h : actual ≤ limits.bound limit) : limits.guard limit actual = .ok () :=
  Limits.guard_eq_ok_iff.2 h

theorem Limits.guard_of_lt {limits : Limits} {limit : Limit} {actual : Int}
    (h : limits.bound limit < actual) :
    limits.guard limit actual = .error (.limit ⟨limit, limits.bound limit, actual⟩) := by
  rw [guard, check_eq_error_iff.2 ⟨h, rfl⟩]
  rfl

/-- **A rule has tokens iff it is not too long.** -/
theorem Token.scanWithin_eq_ok_iff {limits : Limits} {source : Text} {tokens : List Token} :
    scanWithin limits source = .ok tokens ↔
      (source.length : Int) ≤ limits.ruleLength ∧ tokens = scan source := by
  rw [scanWithin, Outcome.bind_eq_ok_iff]
  simp only [Limits.guard_eq_ok_iff, Outcome.pure_eq_ok_iff, exists_const]
  exact and_congr_right fun _ => eq_comm

namespace Tree

theorem depth_pos : ∀ tree : Tree, 0 < tree.depth
  | operand _ => Nat.one_pos
  | operator _ _ _ => Nat.add_pos_left Nat.one_pos _

/-- A leaf is within the levels iff its own level is. -/
theorem operand_levels_iff {level : Nat} {bound : Int} {clause : Text} :
    (level + (operand clause).depth : Int) ≤ bound + 1 ↔ (level : Int) ≤ bound := by
  simp only [depth]
  omega

/-- An inner node is within the levels iff its own level and both subtrees are. -/
theorem operator_levels_iff {level : Nat} {bound : Int} {word : Text} {left right : Tree} :
    (level + (operator word left right).depth : Int) ≤ bound + 1 ↔ (level : Int) ≤ bound ∧
      ((level + 1 : Nat) + left.depth : Int) ≤ bound + 1 ∧
        ((level + 1 : Nat) + right.depth : Int) ≤ bound + 1 := by
  have := depth_pos left
  simp only [depth]
  omega

/-- Below an inner node that reaches beyond the bound, the left subtree does, or else the right
one. -/
theorem operator_tooDeep {level : Nat} {bound : Int} {word : Text} {left right : Tree}
    (h : bound + 1 < (level + (operator word left right).depth : Int)) :
    bound + 1 < ((level + 1 : Nat) + left.depth : Int) ∨
      ((level + 1 : Nat) + left.depth : Int) ≤ bound + 1 ∧
        bound + 1 < ((level + 1 : Nat) + right.depth : Int) := by
  simp only [depth] at h
  omega

/-! ## One level -/

section

variable {item : Item} (limits : Limits) (source : Text) (level : Nat)

theorem ofItem_of_token {value : Text} (h : item.core = .token value) :
    ofItem limits source level item = .error (.incomplete value source) := by
  rw [ofItem]
  split <;> simp_all

theorem ofItem_of_nil (h : item.core = .group []) :
    ofItem limits source level item = .error (.noCondition source) := by
  rw [ofItem]
  split <;> simp_all

/-- **One level of reading**: the level is checked, then the group is split. -/
theorem ofItem_of_group {items : Group} (h : item.core = .group items) (hne : items ≠ []) :
    ofItem limits source level item = limits.guard .depth level >>= fun _ =>
      match Group.split? items with
      | some (left, word, right) =>
        ofItem limits source (level + 1) (.group left) >>= fun l =>
          ofItem limits source (level + 1) (.group right) >>= fun r => pure (operator word l r)
      | none => pure (operand (Text.unwords (Group.flatten items))) := by
  rw [ofItem]
  split
  · simp_all
  · simp_all
  · rename_i h'
    rw [h] at h'
    obtain rfl := Item.group.inj h'
    refine congrArg _ (funext fun _ => ?_)
    split <;> rename_i hs <;> rw [hs]

variable {limits source level} {items left right : Group} {word : Text} {tree : Tree}

/-- **Step**: a group that is split makes a tree iff its level is allowed and both parts do, one
level down. -/
theorem ofItem_eq_ok_iff_of_split (h : item.core = .group items)
    (hs : Group.split? items = some (left, word, right)) :
    ofItem limits source level item = .ok tree ↔ (level : Int) ≤ limits.depth ∧
      ∃ l r, ofItem limits source (level + 1) (.group left) = .ok l ∧
        ofItem limits source (level + 1) (.group right) = .ok r ∧ tree = operator word l r := by
  have hne : items ≠ [] := by
    rintro rfl
    exact absurd hs (by simp [Group.split?])
  rw [ofItem_of_group _ _ _ h hne, hs]
  simp only [Outcome.bind_eq_ok_iff, Limits.guard_eq_ok_iff, Outcome.pure_eq_ok_iff]
  constructor
  · rintro ⟨-, hlevel, l, hl, r, hr, rfl⟩
    exact ⟨hlevel, l, r, hl, hr, rfl⟩
  · rintro ⟨hlevel, l, r, hl, hr, rfl⟩
    exact ⟨(), hlevel, l, hl, r, hr, rfl⟩

/-- **Step**: a group that is not split makes an operand iff its level is allowed. -/
theorem ofItem_eq_ok_iff_of_not_split (h : item.core = .group items) (hne : items ≠ [])
    (hs : Group.split? items = none) :
    ofItem limits source level item = .ok tree ↔ (level : Int) ≤ limits.depth ∧
      tree = operand (Text.unwords (Item.valuesAll items)) := by
  rw [ofItem_of_group _ _ _ h hne, hs]
  simp only [Outcome.bind_eq_ok_iff, Limits.guard_eq_ok_iff, Outcome.pure_eq_ok_iff,
    Group.flatten_eq_valuesAll, exists_const]
  exact and_congr_right fun _ => eq_comm

end

/-! ## All levels -/

/-- **An item is read iff it builds a tree whose levels are all within the limit.**  The levels are
checked on the way down, so the limit refuses no tree that it would not refuse afterwards. -/
theorem ofItem_eq_ok_iff {limits : Limits} {source : Text} {level : Nat} {item : Item}
    {tree : Tree} :
    ofItem limits source level item = .ok tree ↔
      item.Builds tree ∧ (level + tree.depth : Int) ≤ limits.depth + 1 := by
  induction hn : item.weight using Nat.strongRecOn generalizing item level tree with
  | _ n ih =>
    subst hn
    rw [← Item.builds_core_iff]
    cases hcore : item.core with
    | token value => simp [ofItem_of_token limits source level hcore]
    | group items =>
      by_cases hne : items = []
      · subst hne
        simp [ofItem_of_nil limits source level hcore]
      · cases hs : Group.split? items with
        | none =>
          have hlen := Item.two_le_length_of_core hne hcore
          rw [ofItem_eq_ok_iff_of_not_split hcore hne hs, Item.builds_iff_of_not_split hs hlen,
            and_comm]
          exact and_congr_right fun h => h ▸ operand_levels_iff.symm
        | some parts =>
          obtain ⟨left, word, right⟩ := parts
          obtain ⟨hl, hr⟩ := Group.weight_halves hcore hs
          simp only [ofItem_eq_ok_iff_of_split hcore hs, Item.builds_iff_of_split hs,
            ih _ hl rfl, ih _ hr rfl]
          constructor
          · rintro ⟨hd, l, r, ⟨hbl, hdl⟩, ⟨hbr, hdr⟩, rfl⟩
            exact ⟨⟨l, r, hbl, hbr, rfl⟩, operator_levels_iff.2 ⟨hd, hdl, hdr⟩⟩
          · rintro ⟨⟨l, r, hbl, hbr, rfl⟩, hd⟩
            obtain ⟨hd, hdl, hdr⟩ := operator_levels_iff.1 hd
            exact ⟨hd, l, r, ⟨hbl, hdl⟩, ⟨hbr, hdr⟩, rfl⟩

/-! ## As a rule is parsed -/

/-- **A parse succeeds iff the tokens spell a group that builds a tree** within the bounds for nodes
and for depth. -/
theorem ofTokens_eq_ok_iff {limits : Limits} {source : Text} {tokens : List Token} {tree : Tree} :
    ofTokens limits source tokens = .ok tree ↔
      (∃ items, Group.Spells items (tokens.map lexeme) ∧ (Item.group items).Builds tree) ∧
        (tree.size : Int) ≤ limits.nodes ∧ (tree.depth : Int) ≤ limits.depth := by
  unfold ofTokens
  by_cases hne : tokens = []
  · subst hne
    rw [if_pos rfl]
    refine iff_of_false (by rintro ⟨⟩) ?_
    rintro ⟨⟨items, hs, hb⟩, -⟩
    obtain rfl := hs.unique .nil
    exact Item.not_builds_nil hb
  · rw [if_neg hne]
    simp only [Outcome.bind_eq_ok_iff, Outcome.mapError_eq_ok_iff, Group.ofTokens_eq_ok_iff,
      ofItem_eq_ok_iff, Limits.guard_eq_ok_iff, Outcome.pure_eq_ok_iff]
    constructor
    · rintro ⟨items, hs, t, ⟨hb, -⟩, -, hn, -, hd, rfl⟩
      exact ⟨⟨items, hs, hb⟩, hn, hd⟩
    · rintro ⟨⟨items, hs, hb⟩, hn, hd⟩
      exact ⟨items, hs, tree, ⟨hb, by omega⟩, (), hn, (), hd, rfl⟩

/-- **Limits only filter**: a rule is parsed iff it is short enough, a group spells its lexemes and
builds a tree, and that tree is small enough. -/
theorem parse_eq_ok_iff {limits : Limits} {source : Text} {tree : Tree} :
    parse limits source = .ok tree ↔
      (source.length : Int) ≤ limits.ruleLength ∧
        (∃ items, Group.Spells items source.lexemes ∧ (Item.group items).Builds tree) ∧
        (tree.size : Int) ≤ limits.nodes ∧ (tree.depth : Int) ≤ limits.depth := by
  rw [parse, Outcome.bind_eq_ok_iff]
  simp only [Token.scanWithin_eq_ok_iff, ofTokens_eq_ok_iff]
  constructor
  · rintro ⟨tokens, ⟨hlen, rfl⟩, h⟩
    exact ⟨hlen, h⟩
  · rintro ⟨hlen, h⟩
    exact ⟨_, ⟨hlen, rfl⟩, h⟩

/-- The connectives of a parsed tree have a meaning. -/
theorem isConnective_of_parse {limits : Limits} {source : Text} {tree : Tree}
    (h : parse limits source = .ok tree) : ∀ w ∈ tree.connectives, isConnective w := by
  obtain ⟨-, ⟨_, -, hb⟩, -⟩ := parse_eq_ok_iff.1 h
  exact hb.isConnective

end Tree

end Criteria
