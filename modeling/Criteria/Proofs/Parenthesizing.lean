import Criteria.Proofs.Conjoining

/-!
# Proofs/Parenthesizing — parentheses group, and do nothing else

Read from left to right, the tree of a rule has the tokens of the rule without its parentheses
(`tokenTexts_of_parse`): none is lost, and a keyword inside of a nested group stays where it was.
Nor do pairs of parentheses that group nothing new change the tree.  A tree whose clauses are in
normal form (`exists_isWrittenAs_iff`) can be written with any number of pairs around its parts, one
at least around an inner node on the left of another (`Tree.IsWrittenAs`), and every such text is
read as that tree: `parse_wrapped_eq_ok_iff`.
-/

namespace Criteria

open Token

/-! ## The tokens of a tree -/

namespace Tree

/-- The texts of the tokens of a tree, from left to right. -/
def tokenTexts : Tree → List Text
  | operand clause => (scan clause).map Token.value
  | operator word left right => left.tokenTexts ++ word :: right.tokenTexts

end Tree

/-- **The tree of an item has the texts of the item.** -/
theorem Item.Builds.tokenTexts {item : Item} {tree : Tree} (h : item.Builds tree)
    (hv : ∀ v ∈ item.values, v.IsLexical) : tree.tokenTexts = item.values := by
  induction h with
  | @unwrap item tree _ ih =>
    have hvalues : values (.group [item]) = values item := by simp [values, valuesAll]
    rw [hvalues] at hv ⊢
    exact ih hv
  | @operator items left right word l r hs _ _ ihl ihr =>
    obtain ⟨rfl, -, -⟩ := Group.split?_eq_some_iff.1 hs
    have hvalues : values (.group (left ++ .token word :: right)) =
        values (.group left) ++ word :: values (.group right) := by
      simp [values, valuesAll]
    simp only [hvalues, List.forall_mem_append, List.forall_mem_cons] at hv
    obtain ⟨hl, -, hr⟩ := hv
    rw [hvalues, Tree.tokenTexts, ihl hl, ihr hr]
  | @operand items _ _ =>
    -- A clause joins the texts of its group, so its own tokens are these texts again.
    obtain ⟨xs, hx, -, he⟩ := Text.exists_lexemes hv
    rw [values] at he ⊢
    rw [Tree.tokenTexts, ← he, Text.map_value_scan, Text.lexemes_unwords hx]

namespace Tree

/-- **No token is lost, repeated or moved**: the tokens of a parsed tree are those of the rule that
are no parentheses. -/
theorem tokenTexts_of_parse {limits : Limits} {source : Text} {tree : Tree}
    (h : parse limits source = .ok tree) :
    tree.tokenTexts = ((scan source).filter (!·.lexeme.isParen)).map Token.value := by
  obtain ⟨-, ⟨items, hs, hb⟩, -⟩ := parse_eq_ok_iff.1 h
  have hx : ∀ x ∈ source.lexemes, x.WellFormed := fun _ => Text.wellFormed_of_mem_lexemes
  rw [hb.tokenTexts (hs.isLexical hx), Item.values, hs.valuesAll, Text.lexemes, List.filter_map,
    List.map_map]
  rfl

/-- Two empty groups, and a keyword in a group that is no condition of its own. -/
theorem tokenTexts_of_parse_nested :
    let source := "((a ()) = 'x  )') OR ((() b (< 2 AND)))".toList
    let tree := operator orWord (operand "a = 'x  )'".toList) (operand "b < 2 AND".toList)
    parse {} source = .ok tree ∧
      tree.tokenTexts = ["a", "=", "'x  )'", "OR", "b", "<", "2", "AND"].map String.toList ∧
      tree.tokenTexts = ((scan source).filter (!·.lexeme.isParen)).map Token.value := by
  intro source tree
  have h : parse {} source = .ok tree := by decide +kernel
  exact ⟨h, by decide +kernel, tokenTexts_of_parse h⟩

end Tree

/-! ## Layers of parentheses -/

namespace Text

/-- A text in that many pairs of parentheses. -/
def wrapped (s : Text) : Nat → Text
  | 0 => s
  | k + 1 => Tree.parenthesized (s.wrapped k)

variable {s clause : Text} {tree : Tree}

theorem Settled.wrapped (h : s.Settled) : ∀ k, (s.wrapped k).Settled
  | 0 => h
  | k + 1 => (h.wrapped k).parenthesized

/-- Layers of parentheses change no meaning. -/
theorem Means.wrapped (hs : s.Settled) (h : s.Means tree) : ∀ k, (s.wrapped k).Means tree
  | 0 => h
  | k + 1 => ((h.wrapped hs k).parenthesized (hs.wrapped k)).means

/-- In one layer at least, no connective is left outside of all parentheses. -/
theorem Means.wrapped_succ (hs : s.Settled) (h : s.Means tree) (k : Nat) :
    (s.wrapped (k + 1)).MeansUnsplit tree :=
  (h.wrapped hs k).parenthesized (hs.wrapped k)

instance (clause : Text) : Decidable clause.IsNormal :=
  decidable_of_iff (clause = unwords (clause.lexemes.map Lexeme.text) ∧
      2 ≤ clause.lexemes.length ∧
      ∀ x ∈ clause.lexemes, x.kind = .word ∨ x.kind = .quoted ∨ x.kind = .comparator)
    ⟨fun h => ⟨h.1, h.2.1, h.2.2⟩, fun h => ⟨h.1, h.2, h.3⟩⟩

theorem IsNormal.settled (h : clause.IsNormal) : clause.Settled :=
  (isNormal_iff.1 h).1.settled

/-- **A condition in normal form means itself**, with no connective to split it at. -/
theorem IsNormal.meansUnsplit (h : clause.IsNormal) : clause.MeansUnsplit (.operand clause) := by
  obtain ⟨hjoined, hlen, hkeyword⟩ := isNormal_iff.1 h
  have hx : ∀ x ∈ clause.lexemes, x.WellFormed := fun _ => wellFormed_of_mem_lexemes
  exact ⟨_, Group.spells_ofLexemes hjoined.not_isParen,
    (Tree.builds_operand_iff hjoined).2 ⟨hlen, hkeyword⟩, (Group.split?_ofLexemes hx).2 hkeyword⟩

end Text

namespace Tree

/-- How many pairs of parentheses a tree needs on the left of a connective. -/
def leftLayers : Tree → Nat
  | operand _ => 0
  | operator .. => 1

/-- **The tree is written as the text**, conditions in normal form and single spaces around every
connective.  A part may stand in any number of pairs of parentheses, but an inner node on the left
of a connective stands in one at least. -/
inductive IsWrittenAs : Tree → Text → Prop
  | operand {clause : Text} : clause.IsNormal → IsWrittenAs (operand clause) clause
  | operator {word s r : Text} {left right : Tree} {j k : Nat} : isConnective word →
      IsWrittenAs left s → left.leftLayers ≤ j → IsWrittenAs right r →
      IsWrittenAs (operator word left right) (Text.joined word (s.wrapped j) (r.wrapped k))

variable {tree : Tree} {s : Text}

theorem IsWrittenAs.settled (h : tree.IsWrittenAs s) : s.Settled := by
  induction h with
  | operand hc => exact hc.settled
  | @operator _ _ _ _ _ j k hw _ _ _ ihl ihr => exact .joined hw (ihl.wrapped j) (ihr.wrapped k)

/-- With enough layers for the left of a connective, a text shows no connective. -/
theorem IsWrittenAs.meansUnsplit_wrapped (h : tree.IsWrittenAs s) (hm : s.Means tree) {k : Nat}
    (hk : tree.leftLayers ≤ k) : (s.wrapped k).MeansUnsplit tree := by
  cases k with
  | succ k => exact hm.wrapped_succ h.settled k
  | zero =>
    cases h with
    | operand hc => exact hc.meansUnsplit
    | operator => exact absurd hk (by simp [leftLayers])

/-- **A text means the tree that it is written for.**  The first connective outside of all
parentheses is that of the root, since the left part shows none. -/
theorem IsWrittenAs.means (h : tree.IsWrittenAs s) : s.Means tree := by
  induction h with
  | operand hc => exact hc.meansUnsplit.means
  | @operator word s r left right j k hw hl hj hr ihl ihr =>
    have hleft : (s.wrapped j).MeansUnsplit left := hl.meansUnsplit_wrapped ihl hj
    have hright : (r.wrapped k).Means right := ihr.wrapped hr.settled k
    exact .joined hw (hl.settled.wrapped j) hleft hright

theorem enclose_eq_wrapped (tree : Tree) (s : Text) :
    tree.enclose s = s.wrapped tree.leftLayers := by
  cases tree with
  | operand clause => rfl
  | operator word left right => rfl

/-- The rule that a tree stands for is one of the texts that it is written as. -/
theorem isWrittenAs_render (hw : ∀ w ∈ tree.connectives, isConnective w)
    (hc : ∀ c ∈ tree.clauses, c.IsNormal) : tree.IsWrittenAs tree.render := by
  induction tree with
  | operand clause => exact .operand (hc clause List.mem_cons_self)
  | operator word left right ihl ihr =>
    rw [forall_mem_connectives_operator] at hw
    rw [forall_mem_clauses_operator] at hc
    obtain ⟨hwl, hword, hwr⟩ := hw
    obtain ⟨hcl, hcr⟩ := hc
    rw [render, enclose_eq_wrapped, enclose_eq_wrapped]
    exact .operator hword (ihl hwl hcl) (Nat.le_refl _) (ihr hwr hcr)

/-- **Which trees are written as a text**: those whose connectives have a meaning and whose clauses
are all in normal form. -/
theorem exists_isWrittenAs_iff : (∃ s, tree.IsWrittenAs s) ↔
    (∀ w ∈ tree.connectives, isConnective w) ∧ ∀ c ∈ tree.clauses, c.IsNormal := by
  constructor
  · rintro ⟨s, h⟩
    induction h with
    | operand hc => simpa using hc
    | operator hw _ _ _ ihl ihr =>
      rw [forall_mem_connectives_operator, forall_mem_clauses_operator]
      exact ⟨⟨ihl.1, hw, ihr.1⟩, ihl.2, ihr.2⟩
  · rintro ⟨hw, hc⟩
    exact ⟨_, isWrittenAs_render hw hc⟩

/-- **Parentheses that group nothing new never change the tree**: however many there are, a text is
parsed to the tree that it is written for iff the text and the tree are within the limits. -/
theorem parse_wrapped_eq_ok_iff (limits : Limits) (k : Nat) (h : tree.IsWrittenAs s) :
    parse limits (s.wrapped k) = .ok tree ↔ ((s.wrapped k).length : Int) ≤ limits.ruleLength ∧
      (tree.size : Int) ≤ limits.nodes ∧ (tree.depth : Int) ≤ limits.depth := by
  have hmeans : (s.wrapped k).Means tree := h.means.wrapped h.settled k
  rw [parse_eq_ok_iff]
  exact and_congr_right fun _ => and_iff_right hmeans

/-- Two layers, one that the left of a connective needs, none on its right, and a quoted literal
with parentheses and a connective. -/
theorem parse_wrapped_mixed :
    let s : Text := "(((a > 1)) OR b < 2) AND c = 'x) OR (y' OR (d > 4)".toList
    let tree := operator andWord
      (operator orWord (operand "a > 1".toList) (operand "b < 2".toList))
      (operator orWord (operand "c = 'x) OR (y'".toList) (operand "d > 4".toList))
    tree.IsWrittenAs s ∧ parse {} (s.wrapped 1) = .ok tree := by
  intro s tree
  have hclauses : ∀ c ∈ tree.clauses, c.IsNormal := by decide +kernel
  simp only [tree, forall_mem_clauses_operator, clauses_operand, List.forall_mem_singleton]
    at hclauses
  obtain ⟨⟨ha, hb⟩, hc, hd⟩ := hclauses
  have hleft : IsWrittenAs _ (Text.joined orWord (Text.wrapped _ 2) (Text.wrapped _ 0)) :=
    .operator (by decide) (.operand ha) (Nat.zero_le _) (.operand hb)
  have hright : IsWrittenAs _ (Text.joined orWord (Text.wrapped _ 0) (Text.wrapped _ 1)) :=
    .operator (by decide) (.operand hc) (Nat.zero_le _) (.operand hd)
  have h : tree.IsWrittenAs s :=
    .operator (j := 1) (k := 0) (by decide) hleft (Nat.le_refl _) hright
  refine ⟨h, (parse_wrapped_eq_ok_iff {} 1 h).2 ⟨?_, ?_, ?_⟩⟩
  all_goals decide +kernel

end Tree

end Criteria
