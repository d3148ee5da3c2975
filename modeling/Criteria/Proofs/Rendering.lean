import Criteria.Proofs.Reading

/-!
# Proofs/Rendering — which trees are read back from the rule they are written as

A tree with joined clauses is written with the lexemes `written`, which its own items spell
(`lexemes_render_append`, `spells_items`), so reading it back is a question about these items:
`builds_items_iff`.  A tree that is read back has joined clauses because every parsed tree has
(`Item.Builds.isWritable`).  Together: `parse_render_eq_ok_iff`.
-/

namespace Criteria

open Token

namespace Text

/-- The text joins its own lexemes by single spaces, and none is a parenthesis. -/
structure IsJoined (clause : Text) : Prop where
  eq_unwords : clause = unwords (clause.lexemes.map Lexeme.text)
  not_isParen : ∀ x ∈ clause.lexemes, x.isParen = false

/-- **A condition in normal form**: two lexemes or more, all of them words, quoted literals or
comparators, joined by single spaces. -/
structure IsNormal (clause : Text) : Prop where
  eq_unwords : clause = unwords (clause.lexemes.map Lexeme.text)
  two_le_length : 2 ≤ clause.lexemes.length
  kind_of_mem : ∀ x ∈ clause.lexemes, x.kind = .word ∨ x.kind = .quoted ∨ x.kind = .comparator

/-- A normal clause is one that is read back as an operand: joined by spaces, of two lexemes or more
and without a keyword. -/
theorem isNormal_iff {clause : Text} :
    clause.IsNormal ↔ clause.IsJoined ∧ 2 ≤ clause.lexemes.length ∧
      ∀ x ∈ clause.lexemes, x.isKeyword = false := by
  have hkind : ∀ x : Lexeme, x.isParen = false ∧ x.isKeyword = false ↔
      x.kind = .word ∨ x.kind = .quoted ∨ x.kind = .comparator := by
    rintro ⟨kind, text⟩
    cases kind <;> simp [Lexeme.isParen, Lexeme.isKeyword]
  constructor
  · rintro ⟨he, h2, hk⟩
    exact ⟨⟨he, fun x hx => ((hkind x).2 (hk x hx)).1⟩, h2, fun x hx => ((hkind x).2 (hk x hx)).2⟩
  · rintro ⟨⟨he, hp⟩, h2, hk⟩
    exact ⟨he, h2, fun x hx => (hkind x).1 ⟨hp x hx, hk x hx⟩⟩

/-- The text of a well-formed lexeme that is no parenthesis. -/
def IsLexical (v : Text) : Prop := ∃ x : Lexeme, x.WellFormed ∧ x.isParen = false ∧ x.text = v

theorem exists_lexemes {vs : List Text} (h : ∀ v ∈ vs, v.IsLexical) :
    ∃ xs : List Lexeme, (∀ x ∈ xs, x.WellFormed) ∧ (∀ x ∈ xs, x.isParen = false) ∧
      xs.map Lexeme.text = vs := by
  induction vs with
  | nil => exact ⟨[], by simp⟩
  | cons v vs ih =>
    obtain ⟨hv, hvs⟩ := List.forall_mem_cons.1 h
    obtain ⟨x, hx, hp, rfl⟩ := hv
    obtain ⟨xs, hxs, hps, rfl⟩ := ih hvs
    exact ⟨x :: xs, List.forall_mem_cons.2 ⟨hx, hxs⟩, List.forall_mem_cons.2 ⟨hp, hps⟩, rfl⟩

/-- Well-formed lexemes that are no parentheses make a joined text, and are its lexemes. -/
theorem isJoined_unwords {xs : List Lexeme} (hx : ∀ x ∈ xs, x.WellFormed)
    (hp : ∀ x ∈ xs, x.isParen = false) : IsJoined (unwords (xs.map Lexeme.text)) where
  eq_unwords := by rw [lexemes_unwords hx]
  not_isParen := by rwa [lexemes_unwords hx]

theorem IsJoined.settled {clause : Text} (h : clause.IsJoined) : clause.Settled := by
  rw [h.eq_unwords]
  exact settled_unwords fun _ => wellFormed_of_mem_lexemes

/-! ## Texts put together -/

variable {s r : Text}

/-- Two texts with a word between them, single spaces around it. -/
def joined (word s r : Text) : Text := s ++ ' ' :: word ++ ' ' :: r

theorem lexemes_parenthesized_append (h : s.Settled) (rest : Text) :
    lexemes (Tree.parenthesized s ++ rest) =
      ⟨.opening, ['(']⟩ :: s.lexemes ++ ⟨.closing, [')']⟩ :: rest.lexemes := by
  have hopen : markKind? '(' = some .opening := by decide
  have hclose : markKind? ')' = some .closing := by decide
  rw [Tree.parenthesized, List.append_assoc, List.cons_append, lexemes_mark _ hopen,
    List.cons_append, List.nil_append, h _ (breaks_cons (by decide)), lexemes_mark _ hclose]
  rfl

theorem lexemes_parenthesized (h : s.Settled) :
    lexemes (Tree.parenthesized s) = ⟨.opening, ['(']⟩ :: s.lexemes ++ [⟨.closing, [')']⟩] := by
  simpa using lexemes_parenthesized_append h []

theorem Settled.parenthesized (h : s.Settled) : (Tree.parenthesized s).Settled := by
  intro rest _
  rw [lexemes_parenthesized_append h, lexemes_parenthesized h]
  simp

/-- A keyword between two texts is one more lexeme, and the second text is read with what follows
it. -/
theorem lexemes_joined_append {word : Text} (hw : isConnective word) (hs : s.Settled)
    (rest : Text) : lexemes (joined word s r ++ rest) =
      s.lexemes ++ ⟨wordKind word, word⟩ :: lexemes (r ++ rest) := by
  have hspace (rest : Text) : Breaks (' ' :: rest) := breaks_cons (by decide)
  have hword := Lexeme.wellFormed_connective hw
  have hpiece : joined word s r ++ rest = s ++ ' ' :: (word ++ ' ' :: (r ++ rest)) := by
    simp [joined]
  rw [hpiece, hs _ (hspace _), lexemes_space, lexemes_append_of_wellFormed hword (hspace _),
    lexemes_space]

theorem lexemes_joined {word : Text} (hw : isConnective word) (hs : s.Settled) :
    lexemes (joined word s r) = s.lexemes ++ ⟨wordKind word, word⟩ :: r.lexemes := by
  simpa using lexemes_joined_append hw hs []

theorem Settled.joined {word : Text} (hw : isConnective word) (hs : s.Settled) (hr : r.Settled) :
    (joined word s r).Settled := by
  intro rest hrest
  rw [lexemes_joined_append hw hs, lexemes_joined hw hs, hr rest hrest]
  simp

end Text

/-! ## Groups without groups -/

namespace Group

/-- The group whose items are the texts of lexemes. -/
def ofLexemes (xs : List Lexeme) : Group := xs.map fun x => .token x.text

variable {xs : List Lexeme}

theorem spells_ofLexemes (h : ∀ x ∈ xs, x.isParen = false) : Spells (ofLexemes xs) xs := by
  induction xs with
  | nil => exact .nil
  | cons x xs ih =>
    obtain ⟨hx, hxs⟩ := List.forall_mem_cons.1 h
    exact .token hx (ih hxs)

@[simp] theorem valuesAll_ofLexemes (xs : List Lexeme) :
    Item.valuesAll (ofLexemes xs) = xs.map Lexeme.text := by
  induction xs with
  | nil => rfl
  | cons x xs ih => exact congrArg (x.text :: ·) ih

/-- Lexemes without parentheses are split at their first keyword, if there is one. -/
theorem split?_ofLexemes (hx : ∀ x ∈ xs, x.WellFormed) :
    split? (ofLexemes xs) = none ↔ ∀ x ∈ xs, x.isKeyword = false := by
  rw [split?_eq_none_iff]
  constructor
  · intro h x hm
    rw [← (hx x hm).isConnective_iff]
    exact h x.text (List.mem_map.2 ⟨x, hm, rfl⟩)
  · intro h v hv
    obtain ⟨x, hm, he⟩ := List.mem_map.1 hv
    rw [← Item.token.inj he, (hx x hm).isConnective_iff, h x hm]

/-- **Two lexemes or more that are no keywords build their join**, and nothing else does. -/
theorem builds_ofLexemes_iff (hx : ∀ x ∈ xs, x.WellFormed) (hk : ∀ x ∈ xs, x.isKeyword = false)
    {tree : Tree} : (Item.group (ofLexemes xs)).Builds tree ↔
      2 ≤ xs.length ∧ tree = .operand (Text.unwords (xs.map Lexeme.text)) := by
  by_cases hlen : 2 ≤ xs.length
  · rw [Item.builds_iff_of_not_split ((split?_ofLexemes hx).2 hk) (by simpa [ofLexemes] using hlen),
      valuesAll_ofLexemes, and_iff_right hlen]
  · refine iff_of_false ?_ fun h => hlen h.1
    match xs with
    | [] => exact Item.not_builds_nil
    | [x] => exact fun h => Item.not_builds_token (Item.builds_singleton_iff.1 h)
    | _ :: _ :: _ => exact absurd hlen (by simp)

/-- **Lexemes that are neither parentheses nor keywords are a condition**, if they are two or
more. -/
theorem exists_builds_iff_of_plain (hx : ∀ x ∈ xs, x.WellFormed)
    (hp : ∀ x ∈ xs, x.isParen = false) (hk : ∀ x ∈ xs, x.isKeyword = false) {tree : Tree} :
    (∃ items, Spells items xs ∧ (Item.group items).Builds tree) ↔
      2 ≤ xs.length ∧ tree = .operand (Text.unwords (xs.map Lexeme.text)) := by
  rw [← builds_ofLexemes_iff hx hk]
  constructor
  · rintro ⟨items, hs, hb⟩
    exact hs.unique (spells_ofLexemes hp) ▸ hb
  · exact fun hb => ⟨_, spells_ofLexemes hp, hb⟩

end Group

namespace Tree

/-! ## The lexemes of a written tree -/

/-- The lexemes of a child, between parentheses unless the child is a leaf. -/
def encloseLexemes : Tree → List Lexeme → List Lexeme
  | operand _, xs => xs
  | operator .., xs => ⟨.opening, ['(']⟩ :: xs ++ [⟨.closing, [')']⟩]

/-- The lexemes a tree is written with. -/
def written : Tree → List Lexeme
  | operand clause => clause.lexemes
  | operator word left right =>
    left.encloseLexemes left.written ++ ⟨wordKind word, word⟩ :: right.encloseLexemes right.written

/-- The items of a child, in a group unless the child is a leaf. -/
def encloseItems : Tree → Group → Group
  | operand _, items => items
  | operator .., items => [.group items]

/-- The items a tree is written with. -/
def items : Tree → Group
  | operand clause => .ofLexemes clause.lexemes
  | operator word left right =>
    left.encloseItems left.items ++ .token word :: right.encloseItems right.items

/-- **The tree can be written**: its connectives have a meaning and its clauses are joined. -/
inductive IsWritable : Tree → Prop
  | operand {clause : Text} : clause.IsJoined → IsWritable (operand clause)
  | operator {word : Text} {left right : Tree} : isConnective word → IsWritable left →
      IsWritable right → IsWritable (operator word left right)

/-- A tree is writable iff its words are connectives and its clauses are joined by single spaces,
wherever they stand. -/
theorem isWritable_iff {tree : Tree} : tree.IsWritable ↔
    (∀ w ∈ tree.connectives, isConnective w) ∧ ∀ c ∈ tree.clauses, c.IsJoined := by
  induction tree with
  | operand clause =>
    constructor
    · rintro ⟨h⟩
      simpa using h
    · rintro ⟨-, h⟩
      exact .operand (by simpa using h)
  | operator word left right ihl ihr =>
    rw [forall_mem_connectives_operator, forall_mem_clauses_operator]
    constructor
    · rintro (_ | ⟨hw, hl, hr⟩)
      obtain ⟨hlw, hlc⟩ := ihl.1 hl
      obtain ⟨hrw, hrc⟩ := ihr.1 hr
      exact ⟨⟨hlw, hw, hrw⟩, hlc, hrc⟩
    · rintro ⟨⟨hlw, hw, hrw⟩, hlc, hrc⟩
      exact .operator hw (ihl.2 ⟨hlw, hlc⟩) (ihr.2 ⟨hrw, hrc⟩)

/-- A child reads back as its lexemes if the tree below it does. -/
theorem lexemes_enclose {tree : Tree} (hs : tree.render.Settled)
    (hx : tree.render.lexemes = tree.written) : (tree.enclose tree.render).Settled ∧
      (tree.enclose tree.render).lexemes = tree.encloseLexemes tree.written := by
  cases tree with
  | operand clause => exact ⟨hs, hx⟩
  | operator word left right =>
    rw [← hx]
    exact ⟨hs.parenthesized, Text.lexemes_parenthesized hs⟩

/-- **What is read of a written tree** are its lexemes, whatever follows. -/
theorem settled_render {tree : Tree} (h : tree.IsWritable) :
    tree.render.Settled ∧ tree.render.lexemes = tree.written := by
  induction h with
  | operand hc => exact ⟨hc.settled, rfl⟩
  | @operator word left right hw _ _ ihl ihr =>
    obtain ⟨hl, hxl⟩ := lexemes_enclose ihl.1 ihl.2
    obtain ⟨hr, hxr⟩ := lexemes_enclose ihr.1 ihr.2
    have hrender : (operator word left right).render =
        Text.joined word (left.enclose left.render) (right.enclose right.render) := rfl
    rw [hrender, written, ← hxl, ← hxr]
    exact ⟨.joined hw hl hr, Text.lexemes_joined hw hl⟩

/-- **The text of a writable tree is read back as its lexemes**, whatever follows that does not
continue a word. -/
theorem lexemes_render_append {tree : Tree} {rest : Text} (h : tree.IsWritable)
    (hr : rest.Breaks) : Text.lexemes (tree.render ++ rest) = tree.written ++ rest.lexemes := by
  obtain ⟨hs, hx⟩ := settled_render h
  rw [hs rest hr, hx]

theorem spells_enclose {tree : Tree} (h : Group.Spells tree.items tree.written) :
    Group.Spells (tree.encloseItems tree.items) (tree.encloseLexemes tree.written) := by
  cases tree with
  | operand clause => exact h
  | operator word left right => exact .group rfl rfl h .nil

/-- **The lexemes of a writable tree spell its items.** -/
theorem spells_items {tree : Tree} (h : tree.IsWritable) :
    Group.Spells tree.items tree.written := by
  induction h with
  | operand hc => exact Group.spells_ofLexemes hc.not_isParen
  | @operator word left right hw _ _ ihl ihr =>
    exact (spells_enclose ihl).append (.token (Lexeme.isParen_wordKind word) (spells_enclose ihr))

/-! ## Reading the items of a tree -/

/-- **A keyword in a clause always splits it**: what stands before the keyword is shorter than the
clause, so it cannot build the clause. -/
theorem not_builds_of_isKeyword {clause : Text} {x : Lexeme} {rest : Group} {word : Text}
    {right : Tree} (hm : x ∈ clause.lexemes) (hk : x.isKeyword) :
    ¬(Item.group (Group.ofLexemes clause.lexemes ++ rest)).Builds
      (operator word (operand clause) right) := by
  intro hb
  have hx : ∀ y ∈ clause.lexemes, y.WellFormed := fun _ => Text.wellFormed_of_mem_lexemes
  obtain ⟨⟨before, w, after⟩, hs⟩ := Option.ne_none_iff_exists'.1 fun hnone =>
    absurd ((Group.split?_ofLexemes hx).1 hnone x hm) (by simp [hk])
  obtain ⟨he, hw, hbefore⟩ := Group.split?_eq_some_iff.1 hs
  have hs' : Group.split? (Group.ofLexemes clause.lexemes ++ rest) =
      some (before, w, after ++ rest) :=
    Group.split?_eq_some_iff.2 ⟨by rw [he, List.append_assoc, List.cons_append], hw, hbefore⟩
  obtain ⟨l, r, hl, -, heq⟩ := (Item.builds_iff_of_split hs').1 hb
  obtain ⟨-, rfl, -⟩ := Tree.operator.inj heq
  obtain ⟨us, vs, hclause, rfl, hvs⟩ := List.map_eq_append_iff.1 he
  have hus : ∀ y ∈ us, y.WellFormed := fun y hy => hx y (by simp [hclause, hy])
  have hplain : ∀ y ∈ us, y.isKeyword = false :=
    (Group.split?_ofLexemes hus).1 (Group.split?_eq_none_iff.2 hbefore)
  obtain ⟨-, hl⟩ := (Group.builds_ofLexemes_iff hus hplain).1 hl
  have hlen : clause.lexemes.length = us.length := by
    rw [Tree.operand.inj hl, Text.lexemes_unwords hus]
  rw [hclause, List.length_append] at hlen
  obtain rfl := List.length_eq_zero_iff.1 (show vs.length = 0 by omega)
  exact absurd hvs (by simp)

/-- The parentheses around an operand of a node make no difference to what its items build. -/
theorem builds_encloseItems_iff (tree : Tree) :
    (Item.group (tree.encloseItems tree.items)).Builds tree ↔
      (Item.group tree.items).Builds tree := by
  cases tree with
  | operand clause => exact Iff.rfl
  | operator word left right => exact Item.builds_singleton_iff

/-- A joined clause is built from its lexemes iff they are two or more, and no keywords. -/
theorem builds_operand_iff {clause : Text} (hc : clause.IsJoined) :
    (Item.group (Group.ofLexemes clause.lexemes)).Builds (operand clause) ↔
      2 ≤ clause.lexemes.length ∧ ∀ x ∈ clause.lexemes, x.isKeyword = false := by
  have hx : ∀ x ∈ clause.lexemes, x.WellFormed := fun _ => Text.wellFormed_of_mem_lexemes
  by_cases hk : ∀ x ∈ clause.lexemes, x.isKeyword = false
  · rw [Group.builds_ofLexemes_iff hx hk, ← hc.eq_unwords]
    simpa using fun _ => hk
  · refine iff_of_false (fun hb => ?_) fun h => hk h.2
    obtain ⟨⟨before, w, after⟩, hs⟩ := Option.ne_none_iff_exists'.1 fun hnone =>
      hk ((Group.split?_ofLexemes hx).1 hnone)
    obtain ⟨l, r, -, -, heq⟩ := (Item.builds_iff_of_split hs).1 hb
    exact absurd heq (by simp)

/-- **A written tree is built from its own items** iff no clause holds a keyword or a lone
lexeme. -/
theorem builds_items_iff {tree : Tree} (h : tree.IsWritable) :
    (Item.group tree.items).Builds tree ↔
      ∀ c ∈ tree.clauses, 2 ≤ c.lexemes.length ∧ ∀ x ∈ c.lexemes, x.isKeyword = false := by
  induction h with
  | operand hc =>
    rw [clauses_operand, List.forall_mem_singleton]
    exact builds_operand_iff hc
  | @operator word left right hw hl hr ihl ihr =>
    rw [forall_mem_clauses_operator, items]
    by_cases hk : ∀ v, Item.token v ∈ left.encloseItems left.items → isConnective v = false
    · rw [Item.builds_iff_of_split (Group.split?_eq_some_iff.2 ⟨rfl, hw, hk⟩), ← ihl, ← ihr,
        ← builds_encloseItems_iff left, ← builds_encloseItems_iff right]
      constructor
      · rintro ⟨l, r, hbl, hbr, heq⟩
        obtain ⟨-, rfl, rfl⟩ := Tree.operator.inj heq
        exact ⟨hbl, hbr⟩
      · rintro ⟨hbl, hbr⟩
        exact ⟨left, right, hbl, hbr, rfl⟩
    · cases left with
      | operator => exact absurd (fun v hm => by simp [encloseItems] at hm) hk
      | operand clause =>
        have hx : ∀ x ∈ clause.lexemes, x.WellFormed := fun _ => Text.wellFormed_of_mem_lexemes
        obtain ⟨x, hm, hkey⟩ : ∃ x ∈ clause.lexemes, x.isKeyword := by
          by_contra hnone
          push Not at hnone
          refine hk (Group.split?_eq_none_iff.1 ((Group.split?_ofLexemes hx).2 fun x hm => ?_))
          simpa using hnone x hm
        refine iff_of_false (not_builds_of_isKeyword hm hkey) fun h => ?_
        have := (h.1 clause (by simp)).2 x hm
        simp [hkey] at this

end Tree

/-! ## Every parsed tree can be written -/

/-- **Trees that are built from well-formed lexemes can be written.** -/
theorem Item.Builds.isWritable {item : Item} {tree : Tree} (h : item.Builds tree)
    (hv : ∀ v ∈ item.values, v.IsLexical) : tree.IsWritable := by
  induction h with
  | unwrap _ ih => exact ih fun v hm => hv v (by simpa [values, valuesAll] using hm)
  | @operator items left right word l r hs _ _ ihl ihr =>
    obtain ⟨rfl, hw, -⟩ := Group.split?_eq_some_iff.1 hs
    have hmem : ∀ v, v ∈ values (.group left) ∨ v ∈ values (.group right) →
        v ∈ values (.group (left ++ .token word :: right)) := by
      intro v hm
      simp only [values, Group.valuesAll_append, valuesAll, List.mem_append] at hm ⊢
      tauto
    exact .operator hw (ihl fun v hm => hv v (hmem v (.inl hm)))
      (ihr fun v hm => hv v (hmem v (.inr hm)))
  | @operand items _ _ =>
    obtain ⟨xs, hx, hp, he⟩ := Text.exists_lexemes hv
    rw [values] at he
    rw [← he]
    exact .operand (Text.isJoined_unwords hx hp)

/-- The values of a group are lexemes, so they can be joined and read back. -/
theorem Group.Spells.isLexical {items : Group} {xs : List Lexeme} (h : Group.Spells items xs)
    (hx : ∀ x ∈ xs, x.WellFormed) : ∀ v ∈ Item.valuesAll items, v.IsLexical := by
  rw [h.valuesAll]
  intro v hv
  obtain ⟨x, hm, rfl⟩ := List.mem_map.1 hv
  rw [List.mem_filter] at hm
  exact ⟨x, hx x hm.1, by simpa using hm.2, rfl⟩

namespace Tree

/-- **Which trees are read back from the rule they are written as**: within the limits, those whose
connectives have a meaning and whose clauses are all in normal form. -/
theorem parse_render_eq_ok_iff (limits : Limits) (tree : Tree)
    (hlen : (tree.render.length : Int) ≤ limits.ruleLength)
    (hsize : (tree.size : Int) ≤ limits.nodes) (hdepth : (tree.depth : Int) ≤ limits.depth) :
    parse limits tree.render = .ok tree ↔
      (∀ w ∈ tree.connectives, isConnective w) ∧ ∀ c ∈ tree.clauses, Text.IsNormal c := by
  have hnormal : ((∀ w ∈ tree.connectives, isConnective w) ∧ ∀ c ∈ tree.clauses, Text.IsNormal c) ↔
      tree.IsWritable ∧ (Item.group tree.items).Builds tree := by
    simp only [Text.isNormal_iff]
    constructor
    · rintro ⟨hw, hc⟩
      have h : tree.IsWritable := isWritable_iff.2 ⟨hw, fun c hm => (hc c hm).1⟩
      exact ⟨h, (builds_items_iff h).2 fun c hm => (hc c hm).2⟩
    · rintro ⟨h, hb⟩
      obtain ⟨hw, hj⟩ := isWritable_iff.1 h
      exact ⟨hw, fun c hm => ⟨hj c hm, (builds_items_iff h).1 hb c hm⟩⟩
  have hread : tree.IsWritable → tree.render.lexemes = tree.written := fun h => by
    simpa using lexemes_render_append h Text.breaks_nil
  rw [hnormal, parse_eq_ok_iff]
  constructor
  · rintro ⟨-, ⟨items, hs, hb⟩, -⟩
    have hx : ∀ x ∈ tree.render.lexemes, x.WellFormed := fun _ => Text.wellFormed_of_mem_lexemes
    have h : tree.IsWritable := hb.isWritable (hs.isLexical hx)
    rw [hread h] at hs
    exact ⟨h, hs.unique (spells_items h) ▸ hb⟩
  · rintro ⟨h, hb⟩
    exact ⟨hlen, ⟨_, hread h ▸ spells_items h, hb⟩, hsize, hdepth⟩

/-- Keywords, parentheses and blanks in a quoted literal do not matter. -/
theorem parse_render_quoted :
    let tree := operator andWord (operator orWord (operand "a > 1".toList)
      (operand "b = 'x AND (y'".toList)) (operand "c < 2".toList)
    (tree.render.length : Int) ≤ ({} : Limits).ruleLength ∧
      (tree.size : Int) ≤ ({} : Limits).nodes ∧ (tree.depth : Int) ≤ ({} : Limits).depth ∧
      (parse {} tree.render = .ok tree ↔
        (∀ w ∈ tree.connectives, isConnective w) ∧ ∀ c ∈ tree.clauses, Text.IsNormal c) ∧
      parse {} tree.render = .ok tree :=
  ⟨by decide, by decide, by decide,
    parse_render_eq_ok_iff {} _ (by decide) (by decide) (by decide), by decide +kernel⟩

end Tree

end Criteria
