import Criteria.Proofs.Parenthesizing

/-!
# Proofs/Stabilizing — a rule is stable once it was written and read

A parsed tree can be written, but a clause of it may hold a keyword that a nested group has hidden;
written as a rule and read again, the clause is split there.  What is written has its groups alone
between connectives (`Group.IsSeparated`), and so have both parts of it wherever it is split
(`IsSeparated.of_split?`).  Hence no clause that is read has a group in it, and every one is in
normal form (`Item.Builds.isNormal`): from then on writing and reading change nothing
(`Tree.parse_render_parse_render`).
-/

namespace Criteria

/-! ## Groups alone between connectives -/

namespace Group

/-- **Nested groups are separated by connectives** from everything else: between two connectives of
the group itself stand lexemes only, or one nested group that is again of this form. -/
inductive IsSeparated : Group → Prop
  | plain {xs : List Lexeme} : (∀ x ∈ xs, x.WellFormed) → (∀ x ∈ xs, x.isParen = false) →
      IsSeparated (ofLexemes xs)
  | nested {inner : Group} : IsSeparated inner → IsSeparated [.group inner]
  | joined {left right : Group} {word : Text} : isConnective word → IsSeparated left →
      IsSeparated right → IsSeparated (left ++ .token word :: right)

namespace IsSeparated

variable {items left right : Group} {word : Text}

/-- Parentheses around the whole can be taken off. -/
theorem of_nested {inner : Group} (h : IsSeparated [.group inner]) : inner.IsSeparated := by
  generalize hitems : [Item.group inner] = items at h
  cases h with
  | plain hx hp =>
    obtain ⟨x, -, hx⟩ := List.map_eq_singleton_iff.1 hitems.symm
    exact absurd hx (by simp)
  | nested h =>
    obtain ⟨hgroup, -⟩ := List.cons.inj hitems
    exact Item.group.inj hgroup ▸ h
  | joined hw hl hr =>
    rw [List.singleton_eq_append_iff] at hitems
    rcases hitems with ⟨-, hitems⟩ | ⟨-, hitems⟩
    · exact absurd (List.cons.inj hitems).1 (by simp)
    · exact absurd hitems (by simp)

/-- **Both parts of a split are separated again.** -/
theorem of_split? (h : items.IsSeparated) (hs : split? items = some (left, word, right)) :
    left.IsSeparated ∧ right.IsSeparated := by
  induction h generalizing left word right with
  | @plain xs hx hp =>
    obtain ⟨he, -, -⟩ := split?_eq_some_iff.1 hs
    obtain ⟨us, vs, rfl, rfl, hvs⟩ := List.map_eq_append_iff.1 he
    obtain ⟨v, ws, rfl, -, rfl⟩ := List.map_eq_cons_iff.1 hvs
    rw [List.forall_mem_append, List.forall_mem_cons] at hx hp
    exact ⟨.plain hx.1 hp.1, .plain hx.2.2 hp.2.2⟩
  | nested => exact absurd hs (by simp [split?])
  | @joined l r w hw hl hr ihl _ =>
    cases hfirst : split? l with
    | none =>
      -- The connective that joins the two is the first one.
      have hjoin : split? (l ++ .token w :: r) = some (l, w, r) :=
        split?_eq_some_iff.2 ⟨rfl, hw, split?_eq_none_iff.1 hfirst⟩
      obtain ⟨rfl, rfl, rfl⟩ := by simpa using hjoin.symm.trans hs
      exact ⟨hl, hr⟩
    | some parts =>
      -- The first connective stands in the left part, whose rest is joined to the right one.
      obtain ⟨before, w', after⟩ := parts
      obtain ⟨rfl, hw', hbefore⟩ := split?_eq_some_iff.1 hfirst
      have hjoin : split? (before ++ .token w' :: after ++ .token w :: r) =
          some (before, w', after ++ .token w :: r) :=
        split?_eq_some_iff.2 ⟨by simp, hw', hbefore⟩
      obtain ⟨rfl, rfl, rfl⟩ := by simpa using hjoin.symm.trans hs
      obtain ⟨hb, ha⟩ := ihl hfirst
      exact ⟨hb, .joined hw ha hr⟩

end IsSeparated

end Group

/-! ## Clauses in normal form -/

/-- Two lexemes or more that are neither parentheses nor keywords write a clause in normal form. -/
theorem Text.isNormal_unwords {xs : List Lexeme} (hx : ∀ x ∈ xs, x.WellFormed)
    (hp : ∀ x ∈ xs, x.isParen = false) (hk : ∀ x ∈ xs, x.isKeyword = false) (hlen : 2 ≤ xs.length) :
    IsNormal (unwords (xs.map Lexeme.text)) := by
  refine isNormal_iff.2 ⟨isJoined_unwords hx hp, ?_, ?_⟩
  · rwa [lexemes_unwords hx]
  · rwa [lexemes_unwords hx]

/-- **Separated groups build clauses in normal form only.**  A group that is not split has no nested
group beside another item, so its clause joins lexemes of its own. -/
theorem Item.Builds.isNormal {item : Item} {tree : Tree} (h : item.Builds tree)
    (hs : ∀ items : Group, item = .group items → items.IsSeparated) :
    ∀ c ∈ tree.clauses, c.IsNormal := by
  induction h with
  | @unwrap item tree _ ih =>
    refine ih fun inner hinner => ?_
    subst hinner
    exact (hs _ rfl).of_nested
  | operator hsplit _ _ ihl ihr =>
    obtain ⟨hl, hr⟩ := (hs _ rfl).of_split? hsplit
    rw [Tree.forall_mem_clauses_operator]
    exact ⟨ihl fun _ he => Item.group.inj he ▸ hl, ihr fun _ he => Item.group.inj he ▸ hr⟩
  | @operand items hsplit hlen =>
    rw [Tree.clauses_operand, List.forall_mem_singleton]
    cases hs _ rfl with
    | plain hx hp =>
      rw [Group.valuesAll_ofLexemes]
      rw [Group.ofLexemes, List.length_map] at hlen
      exact Text.isNormal_unwords hx hp ((Group.split?_ofLexemes hx).1 hsplit) hlen
    | nested => exact absurd hlen (by simp)
    | @joined l r w hw =>
      have := Group.split?_eq_none_iff.1 hsplit w (by simp)
      exact absurd hw (by simp [this])

namespace Tree

variable {limits : Limits} {tree tree' : Tree}

/-! ## Writing and reading -/

/-- **The items of a written tree are separated**: a child is a group of its own, or the lexemes of
a clause. -/
theorem IsWritable.isSeparated_items (h : tree.IsWritable) : tree.items.IsSeparated := by
  have henclose {t : Tree} (ht : t.items.IsSeparated) : (t.encloseItems t.items).IsSeparated := by
    cases t with
    | operand clause => exact ht
    | operator word left right => exact .nested ht
  induction h with
  | operand hc => exact .plain (fun _ => Text.wellFormed_of_mem_lexemes) hc.not_isParen
  | operator hw _ _ ihl ihr => exact .joined hw (henclose ihl) (henclose ihr)

/-- Every parsed tree can be written. -/
theorem isWritable_of_parse {source : Text} (h : parse limits source = .ok tree) :
    tree.IsWritable := by
  obtain ⟨-, ⟨items, hs, hb⟩, -⟩ := parse_eq_ok_iff.1 h
  exact hb.isWritable (hs.isLexical fun _ => Text.wellFormed_of_mem_lexemes)

/-- **What is read of a written tree has clauses in normal form.** -/
theorem IsWritable.isNormal_of_parse_render (h : tree.IsWritable)
    (hparse : parse limits tree.render = .ok tree') : ∀ c ∈ tree'.clauses, c.IsNormal := by
  obtain ⟨-, ⟨items, hs, hb⟩, -⟩ := parse_eq_ok_iff.1 hparse
  rw [(settled_render h).2] at hs
  obtain rfl := hs.unique (spells_items h)
  exact hb.isNormal fun _ he => Item.group.inj he ▸ h.isSeparated_items

/-- **Writing and reading are stable after one pass.**  If a parsed tree is written as a rule and
that is parsed, then every clause of the result has two tokens or more, none of them a keyword or a
parenthesis, and written as a rule the result is parsed to itself, unless that rule is too long. -/
theorem parse_render_parse_render {limits₀ : Limits} {source : Text}
    (h : parse limits₀ source = .ok tree) (h' : parse limits tree.render = .ok tree') :
    (∀ c ∈ tree'.clauses, c.IsNormal) ∧
      (parse limits tree'.render = .ok tree' ↔
        (tree'.render.length : Int) ≤ limits.ruleLength) := by
  have hnormal := (isWritable_of_parse h).isNormal_of_parse_render h'
  have hmeans := (isWrittenAs_render (isConnective_of_parse h') hnormal).means
  obtain ⟨-, -, hsize, hdepth⟩ := parse_eq_ok_iff.1 h'
  refine ⟨hnormal, ?_⟩
  rw [parse_eq_ok_iff]
  exact and_iff_left ⟨hmeans, hsize, hdepth⟩

/-- A keyword in a nested group is read as one after the first pass, and the tree has another
level. -/
theorem parse_render_parse_render_hidden :
    let source := "a > 1 AND (b (< 2 OR c = 3))".toList
    let tree := operator andWord (operand "a > 1".toList) (operand "b < 2 OR c = 3".toList)
    let tree' := operator andWord (operand "a > 1".toList)
      (operator orWord (operand "b < 2".toList) (operand "c = 3".toList))
    parse {} source = .ok tree ∧ parse {} tree.render = .ok tree' ∧
      (∀ c ∈ tree'.clauses, c.IsNormal) ∧ parse {} tree'.render = .ok tree' := by
  intro source tree tree'
  have h : parse {} source = .ok tree := by decide +kernel
  have h' : parse {} tree.render = .ok tree' := by decide +kernel
  obtain ⟨hnormal, hstable⟩ := parse_render_parse_render h h'
  exact ⟨h, h', hnormal, hstable.2 (by decide)⟩

end Tree

end Criteria
