import Criteria.Proofs.Rendering
import Mathlib.Data.List.Infix

/-!
# Proofs/Filling — how many tokens the conditions of a rule have

A condition is made of a segment of its rule that spells two items or more
(`hasClause_of_builds`).  Two items are two tokens or more unless one of them is a group without any
token, and such a group holds a parenthesis that closes as soon as it is opened
(`Spells.values_ne_nil`).  So a condition of less than two tokens stands beside such a group
(`isClause_of_parse`).  There it is taken: `not_forall_two_le_length`.
-/

namespace Criteria

namespace Lexeme

/-- Some parenthesis closes as soon as it is opened. -/
def HasEmptyGroup (xs : List Lexeme) : Prop :=
  [Token.Kind.opening, Token.Kind.closing] <:+: xs.map Lexeme.kind

instance (xs : List Lexeme) : Decidable (HasEmptyGroup xs) :=
  inferInstanceAs (Decidable (_ <:+: xs.map Lexeme.kind))

theorem HasEmptyGroup.mono {xs ys : List Lexeme} (h : HasEmptyGroup ys) (hys : ys <:+: xs) :
    HasEmptyGroup xs := List.IsInfix.trans h (hys.map Lexeme.kind)

end Lexeme

namespace Group

open Lexeme

variable {items more : Group} {xs ys : List Lexeme} {clause : Text}

/-! ## Items and their tokens -/

/-- Items that all have tokens are at most as many as these. -/
theorem length_le_length_valuesAll (h : ∀ item ∈ items, item.values ≠ []) :
    items.length ≤ (Item.valuesAll items).length := by
  induction items with
  | nil => exact Nat.le_refl 0
  | cons item items ih =>
    obtain ⟨hitem, hitems⟩ := List.forall_mem_cons.1 h
    have := List.length_pos_iff.2 hitem
    have := ih hitems
    rw [Item.valuesAll, List.length_append, List.length_cons]
    omega

/-- **Only where a parenthesis closes at once is an item without a token.** -/
theorem Spells.values_ne_nil (h : Spells items xs) (he : ¬HasEmptyGroup xs) :
    ∀ item ∈ items, item.values ≠ [] := by
  induction h with
  | nil => simp
  | token _ _ ih =>
    refine List.forall_mem_cons.2 ⟨by simp [Item.values], ih fun h => he ?_⟩
    exact h.mono (List.suffix_cons _ _).isInfix
  | @group o c inner items ys xs ho hc hys _ ihys ihxs =>
    have hinner := length_le_length_valuesAll (ihys fun h => he (h.mono ⟨[o], c :: xs, rfl⟩))
    refine List.forall_mem_cons.2 ⟨fun hnil => he ?_, ihxs fun h => he (h.mono ?_)⟩
    · have hlength : inner.length ≤ 0 := hinner.trans_eq (congrArg List.length hnil)
      obtain rfl := List.length_eq_zero_iff.1 (Nat.le_zero.1 hlength)
      cases hys
      exact ⟨[], xs.map Lexeme.kind, by simp [ho, hc]⟩
    · exact ⟨o :: ys ++ [c], [], by simp⟩

/-! ## Segments -/

/-- Items one after the other are spelt by segments one after the other. -/
theorem Spells.of_append (h : Spells (items ++ more) xs) :
    ∃ ys zs, xs = ys ++ zs ∧ Spells items ys ∧ Spells more zs := by
  induction items generalizing xs with
  | nil => exact ⟨[], xs, rfl, .nil, h⟩
  | cons item items ih =>
    cases h with
    | token hx h =>
      obtain ⟨ys, zs, rfl, hys, hzs⟩ := ih h
      exact ⟨_, zs, rfl, .token hx hys, hzs⟩
    | group ho hc hinner h =>
      obtain ⟨ys, zs, rfl, hys, hzs⟩ := ih h
      exact ⟨_, zs, by simp, .group ho hc hinner hys, hzs⟩

/-- The inside of a group is spelt by a segment. -/
theorem Spells.of_group {inner : Group} (h : Spells [.group inner] xs) :
    ∃ ys, ys <:+: xs ∧ Spells inner ys := by
  obtain _ | _ | @⟨o, c, _, _, ys, zs, _, _, hys, _⟩ := h
  exact ⟨ys, ⟨[o], c :: zs, rfl⟩, hys⟩

/-- Both sides of a connective are spelt by segments. -/
theorem Spells.of_split? {left right : Group} {word : Text} (h : Spells items xs)
    (hsplit : split? items = some (left, word, right)) :
    (∃ ys, ys <:+: xs ∧ Spells left ys) ∧ ∃ ys, ys <:+: xs ∧ Spells right ys := by
  obtain ⟨rfl, -, -⟩ := split?_eq_some_iff.1 hsplit
  obtain ⟨ys, zs, rfl, hleft, hzs⟩ := h.of_append
  obtain _ | @⟨k, _, zs, _, hright⟩ := hzs
  exact ⟨⟨ys, ⟨[], k :: zs, rfl⟩, hleft⟩, zs, ⟨ys ++ [k], [], by simp⟩, hright⟩

/-- **What a clause is made of**: lexemes that spell two items or more, none of them a connective;
the clause joins those that are no parentheses. -/
structure IsClause (items : Group) (xs : List Lexeme) (clause : Text) : Prop where
  spells : Spells items xs
  split?_eq_none : split? items = none
  two_le_length : 2 ≤ items.length
  eq_unwords : clause = Text.unwords ((xs.filter (!·.isParen)).map Lexeme.text)

/-- A clause is made of a segment of the lexemes. -/
def HasClause (xs : List Lexeme) (clause : Text) : Prop :=
  ∃ items ys, ys <:+: xs ∧ IsClause items ys clause

theorem HasClause.mono (h : HasClause ys clause) (hys : ys <:+: xs) : HasClause xs clause := by
  obtain ⟨items, zs, hzs, hclause⟩ := h
  exact ⟨items, zs, hzs.trans hys, hclause⟩

/-- **Every clause is made of a segment** of the lexemes that its tree is built from. -/
theorem hasClause_of_builds {item : Item} {tree : Tree} (h : item.Builds tree)
    (he : item = .group items) (hs : Spells items xs) :
    ∀ clause ∈ tree.clauses, HasClause xs clause := by
  induction h generalizing items xs with
  | @unwrap item tree hb ih =>
    obtain rfl := Item.group.inj he
    match item with
    | .token value => exact absurd hb Item.not_builds_token
    | .group inner =>
      obtain ⟨ys, hys, hinner⟩ := hs.of_group
      exact fun clause hc => (ih rfl hinner clause hc).mono hys
  | @operator items left right word l r hsplit _ _ ihl ihr =>
    obtain rfl := Item.group.inj he
    obtain ⟨⟨ys, hys, hleft⟩, zs, hzs, hright⟩ := hs.of_split? hsplit
    refine List.forall_mem_append.2 ⟨fun clause hc => ?_, fun clause hc => ?_⟩
    · exact (ihl rfl hleft clause hc).mono hys
    · exact (ihr rfl hright clause hc).mono hzs
  | @operand items hsplit hlen =>
    obtain rfl := Item.group.inj he
    intro clause hc
    obtain rfl := List.mem_singleton.1 hc
    exact ⟨items, xs, List.infix_rfl, hs, hsplit, hlen, by rw [hs.valuesAll]⟩

/-! ## Short clauses -/

/-- The lexemes of a clause are those it is made of, parentheses apart. -/
theorem IsClause.lexemes_eq (h : IsClause items xs clause) (hx : ∀ x ∈ xs, x.WellFormed) :
    clause.lexemes = xs.filter (!·.isParen) := by
  rw [h.eq_unwords, Text.lexemes_unwords fun x hm => hx x (List.mem_of_mem_filter hm)]

/-- Where all items have tokens, a clause has two or more. -/
theorem IsClause.two_le_length_lexemes (h : IsClause items xs clause)
    (hx : ∀ x ∈ xs, x.WellFormed) (hitems : ∀ item ∈ items, item.values ≠ []) :
    2 ≤ clause.lexemes.length := by
  have hlength := h.two_le_length.trans (length_le_length_valuesAll hitems)
  rwa [h.spells.valuesAll, List.length_map, ← h.lexemes_eq hx] at hlength

/-- All items but one are without a token, and that one has one at most. -/
def IsShort (items : Group) : Prop :=
  ∃ before item after, items = before ++ item :: after ∧ item.values.length < 2 ∧
    ∀ other ∈ before ++ after, other.values = []

theorem IsShort.cons {item : Item} (h : IsShort items) (hitem : item.values = []) :
    IsShort (item :: items) := by
  obtain ⟨before, one, after, rfl, hone, hothers⟩ := h
  exact ⟨item :: before, one, after, rfl, hone, List.forall_mem_cons.2 ⟨hitem, hothers⟩⟩

/-- Items have no token iff none of them has one. -/
theorem valuesAll_eq_nil_iff :
    Item.valuesAll items = [] ↔ ∀ item ∈ items, item.values = [] := by
  induction items with
  | nil => simp [Item.valuesAll]
  | cons item items ih => rw [Item.valuesAll, List.append_eq_nil_iff, ih, List.forall_mem_cons]

/-- **Items have less than two tokens** iff all but one have none, and that one has no more. -/
theorem length_valuesAll_lt_two_iff (hne : items ≠ []) :
    (Item.valuesAll items).length < 2 ↔ IsShort items := by
  constructor
  · intro h
    induction items with
    | nil => exact absurd rfl hne
    | cons item items ih =>
      rw [Item.valuesAll, List.length_append] at h
      by_cases hrest : Item.valuesAll items = []
      · exact ⟨[], item, items, rfl, by omega, valuesAll_eq_nil_iff.1 hrest⟩
      · have := List.length_pos_iff.2 hrest
        have hitem : item.values = [] := List.length_eq_zero_iff.1 (by omega)
        exact (ih (by rintro rfl; exact hrest rfl) (by omega)).cons hitem
  · rintro ⟨before, item, after, rfl, hitem, hothers⟩
    obtain ⟨hbefore, hafter⟩ := List.forall_mem_append.1 hothers
    rw [valuesAll_append, Item.valuesAll, valuesAll_eq_nil_iff.2 hbefore,
      valuesAll_eq_nil_iff.2 hafter, List.nil_append, List.append_nil]
    exact hitem

/-- **A clause has less than two tokens iff its items are short of them.** -/
theorem IsClause.length_lexemes_lt_two_iff (h : IsClause items xs clause)
    (hx : ∀ x ∈ xs, x.WellFormed) : clause.lexemes.length < 2 ↔ IsShort items := by
  have hne : items ≠ [] := List.ne_nil_of_length_pos (Nat.zero_lt_two.trans_le h.two_le_length)
  rw [← length_valuesAll_lt_two_iff hne, h.spells.valuesAll, List.length_map, ← h.lexemes_eq hx]

end Group

namespace Tree

/-- **The conditions of a rule have two tokens or more, except beside groups without any.**  If a
rule is parsed, each of its clauses is made of a segment of its tokens that spells two items or
more, and joins those tokens that are no parentheses.  It has less than two of them iff all of these
items but one are groups without any token.  So in a rule none of whose parentheses closes as soon
as it is opened, every clause has two tokens or more. -/
theorem isClause_of_parse (limits : Limits) (source : Text) (tree : Tree)
    (h : parse limits source = .ok tree) :
    (∀ clause ∈ tree.clauses, ∃ items xs, xs <:+: source.lexemes ∧
      Group.IsClause items xs clause ∧ clause.lexemes = xs.filter (!·.isParen) ∧
      (clause.lexemes.length < 2 ↔ Group.IsShort items)) ∧
    (¬Lexeme.HasEmptyGroup source.lexemes →
      ∀ clause ∈ tree.clauses, 2 ≤ clause.lexemes.length) := by
  obtain ⟨-, ⟨group, hs, hb⟩, -⟩ := parse_eq_ok_iff.1 h
  have hclause := Group.hasClause_of_builds hb rfl hs
  have hx {xs : List Lexeme} (hxs : xs <:+: source.lexemes) : ∀ x ∈ xs, x.WellFormed :=
    fun x hm => Text.wellFormed_of_mem_lexemes (hxs.subset hm)
  constructor
  · intro clause hm
    obtain ⟨items, xs, hxs, hc⟩ := hclause clause hm
    exact ⟨items, xs, hxs, hc, hc.lexemes_eq (hx hxs), hc.length_lexemes_lt_two_iff (hx hxs)⟩
  · intro he clause hm
    obtain ⟨items, xs, hxs, hc⟩ := hclause clause hm
    refine hc.two_le_length_lexemes (hx hxs) (hc.spells.values_ne_nil fun h => he ?_)
    exact h.mono hxs

/-- Groups inside of a condition and around one, none of them empty. -/
theorem isClause_of_parse_nested :
    let source : Text := "((a > (1))) OR b = 'x ()'".toList
    let tree := operator orWord (operand "a > 1".toList) (operand "b = 'x ()'".toList)
    parse {} source = .ok tree ∧ ¬Lexeme.HasEmptyGroup source.lexemes ∧
      ∀ clause ∈ tree.clauses, 2 ≤ clause.lexemes.length := by
  intro source tree
  have hparse : parse {} source = .ok tree := by decide +kernel
  have he : ¬Lexeme.HasEmptyGroup source.lexemes := by decide +kernel
  exact ⟨hparse, he, (isClause_of_parse {} source tree hparse).2 he⟩

/-- **A single token is taken for a condition** beside an empty group. -/
theorem not_forall_two_le_length :
    ¬∀ (limits : Limits) (source : Text) (tree : Tree), parse limits source = .ok tree →
      ∀ clause ∈ tree.clauses, 2 ≤ clause.lexemes.length := by
  intro h
  have hparse : parse {} "() a".toList = .ok (operand "a".toList) := by decide +kernel
  have hlength := h {} "() a".toList _ hparse "a".toList (List.mem_singleton_self _)
  exact absurd hlength (by decide +kernel)

/-- So are no tokens at all, beside another. -/
example : parse {} "() ()".toList = .ok (operand []) := by decide +kernel

end Tree

end Criteria
