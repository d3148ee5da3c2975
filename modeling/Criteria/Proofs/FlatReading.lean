import Criteria.Proofs.Reading

/-!
# Proofs/FlatReading — the tree of a rule, read off its flat list of lexemes

`Tree.ofLexemes?` needs neither groups nor limits: it counts parentheses along the list, splits at
the first keyword outside of all of them, and takes off a pair around the whole.  On balanced
lexemes it builds what their group builds (`ofLexemes?_eq_some_iff`), so a rule is parsed to the
tree of its flat list, or not at all (`parse_eq_ok_iff_ofLexemes?`).
-/

namespace Criteria

open Token

namespace Lexeme

/-- How many parentheses are open after a lexeme. -/
def depthAfter (depth : Nat) (x : Lexeme) : Nat :=
  match x.kind with
  | .opening => depth + 1
  | .closing => depth - 1
  | _ => depth

/-- The first keyword outside of all parentheses, `depth` of which are open before the list, with
the lexemes before and after it. -/
def splitOutside? : Nat → List Lexeme → Option (List Lexeme × Lexeme × List Lexeme)
  | _, [] => none
  | depth, x :: xs =>
    if depth = 0 ∧ x.isKeyword then some ([], x, xs)
    else (splitOutside? (x.depthAfter depth) xs).map fun (u, k, v) => (x :: u, k, v)

/-- The lexemes before and after the parenthesis that closes the one around the list, `depth` more
being open inside of it. -/
def closeAt? : Nat → List Lexeme → Option (List Lexeme × List Lexeme)
  | _, [] => none
  | depth, x :: xs =>
    if depth = 0 ∧ x.kind = .closing then some ([], xs)
    else (closeAt? (x.depthAfter depth) xs).map fun (u, v) => (x :: u, v)

/-- What stands between the first lexeme and the last, if those are a pair of parentheses. -/
def inside? : List Lexeme → Option (List Lexeme)
  | [] => none
  | x :: xs =>
    match closeAt? 0 xs with
    | some (inner, []) => if x.kind = .opening then some inner else none
    | _ => none

/-! ## Nothing is lost -/

/-- A split puts nothing out of order and loses only the keyword. -/
theorem append_of_splitOutside? {xs u v : List Lexeme} {k : Lexeme} {depth : Nat}
    (h : splitOutside? depth xs = some (u, k, v)) : xs = u ++ k :: v := by
  induction xs generalizing depth u with
  | nil => simp [splitOutside?] at h
  | cons x xs ih =>
    rw [splitOutside?] at h
    split at h
    · obtain ⟨rfl, rfl, rfl⟩ := by simpa using h
      rfl
    · obtain ⟨⟨u', k', v'⟩, hs, he⟩ := Option.map_eq_some_iff.1 h
      obtain ⟨rfl, rfl, rfl⟩ := by simpa using he
      rw [ih hs, List.cons_append]

/-- What is found to close a group stands right behind what is inside of it. -/
theorem append_of_closeAt? {xs u v : List Lexeme} {depth : Nat}
    (h : closeAt? depth xs = some (u, v)) : ∃ c, xs = u ++ c :: v := by
  induction xs generalizing depth u with
  | nil => simp [closeAt?] at h
  | cons x xs ih =>
    rw [closeAt?] at h
    split at h
    · obtain ⟨rfl, rfl⟩ := by simpa using h
      exact ⟨x, rfl⟩
    · obtain ⟨⟨u', v'⟩, hs, he⟩ := Option.map_eq_some_iff.1 h
      obtain ⟨rfl, rfl⟩ := by simpa using he
      obtain ⟨c, rfl⟩ := ih hs
      exact ⟨c, rfl⟩

theorem append_of_inside? {xs inner : List Lexeme} (h : inside? xs = some inner) :
    ∃ o c, xs = o :: inner ++ [c] := by
  cases xs with
  | nil => simp [inside?] at h
  | cons x xs =>
    rw [inside?] at h
    split at h
    · rename_i inner' hc
      obtain ⟨c, rfl⟩ := append_of_closeAt? hc
      obtain ⟨-, rfl⟩ := by simpa using h
      exact ⟨x, c, rfl⟩
    · exact absurd h (by simp)

end Lexeme

namespace Tree

open Lexeme

/-- **The tree of a list of lexemes.**  It is split at the first keyword outside of all parentheses;
without one, a pair of parentheses around the whole is taken off; without either, two lexemes or
more are a condition, whose text joins those that are no parentheses. -/
def ofLexemes? (xs : List Lexeme) : Option Tree :=
  match _ : splitOutside? 0 xs with
  | some (left, keyword, right) => do
    let l ← ofLexemes? left
    let r ← ofLexemes? right
    pure (operator keyword.text l r)
  | none =>
    match _ : inside? xs with
    | some inner => ofLexemes? inner
    | none =>
      if xs.length ≤ 1 then none
      else some (operand (Text.unwords ((xs.filter (!·.isParen)).map Lexeme.text)))
termination_by xs.length
decreasing_by
  · have := congrArg List.length (append_of_splitOutside? ‹_›)
    simp only [List.length_append, List.length_cons] at this
    omega
  · have := congrArg List.length (append_of_splitOutside? ‹_›)
    simp only [List.length_append, List.length_cons] at this
    omega
  · obtain ⟨o, c, rfl⟩ := append_of_inside? ‹_›
    simp only [List.length_append, List.length_cons, List.length_nil]
    omega

end Tree

/-! ## The flat reading of a group's lexemes -/

namespace Group

open Lexeme

variable {items : Group} {xs : List Lexeme}

theorem Spells.length_le (h : Spells items xs) : items.length ≤ xs.length := by
  induction h with
  | nil => exact Nat.le_refl 0
  | token _ _ ih => simpa using ih
  | group _ _ _ _ _ ih =>
    simp only [List.length_append, List.length_cons]
    omega

/-- **Inside of a parenthesis no keyword is looked for.** -/
theorem Spells.splitOutside?_succ (h : Spells items xs) (depth : Nat) (rest : List Lexeme) :
    splitOutside? (depth + 1) (xs ++ rest) =
      (splitOutside? (depth + 1) rest).map fun p => (xs ++ p.1, p.2) := by
  induction h generalizing depth rest with
  | nil => simp
  | @token x items xs hx _ ih =>
    have hd : x.depthAfter (depth + 1) = depth + 1 := by
      obtain ⟨kind, text⟩ := x
      cases kind <;> simp_all [depthAfter, isParen]
    rw [List.cons_append, splitOutside?, if_neg (by simp), hd, ih, Option.map_map]
    rfl
  | @group o c inner items ys xs ho hc _ _ ihys ihxs =>
    have hdo : o.depthAfter (depth + 1) = depth + 1 + 1 := by simp [depthAfter, ho]
    have hdc : c.depthAfter (depth + 1 + 1) = depth + 1 := by simp [depthAfter, hc]
    rw [List.append_assoc, List.cons_append, List.cons_append, splitOutside?, if_neg (by simp),
      hdo, ihys, splitOutside?, if_neg (by simp), hdc, ihxs]
    simp [Function.comp_def]

/-- The search for a closing parenthesis passes over what a group spells. -/
theorem Spells.closeAt? (h : Spells items xs) (depth : Nat) (rest : List Lexeme) :
    closeAt? depth (xs ++ rest) = (Lexeme.closeAt? depth rest).map fun p => (xs ++ p.1, p.2) := by
  induction h generalizing depth rest with
  | nil => simp
  | @token x items xs hx _ ih =>
    have hd : x.depthAfter depth = depth ∧ x.kind ≠ .closing := by
      obtain ⟨kind, text⟩ := x
      cases kind <;> simp_all [depthAfter, isParen]
    rw [List.cons_append, Lexeme.closeAt?, if_neg (fun h => hd.2 h.2), hd.1, ih, Option.map_map]
    rfl
  | @group o c inner items ys xs ho hc _ _ ihys ihxs =>
    have hdo : o.depthAfter depth = depth + 1 := by simp [depthAfter, ho]
    have hdc : c.depthAfter (depth + 1) = depth := by simp [depthAfter, hc]
    rw [List.append_assoc, List.cons_append, List.cons_append, Lexeme.closeAt?,
      if_neg (by simp [ho]), hdo, ihys, Lexeme.closeAt?, if_neg (by simp), hdc, ihxs]
    simp [Function.comp_def]

/-- No keyword in parentheses is found either. -/
theorem Spells.splitOutside?_group {o c : Lexeme} {ys : List Lexeme} {inner : Group}
    (ho : o.kind = .opening) (hc : c.kind = .closing) (h : Spells inner ys) (xs : List Lexeme) :
    splitOutside? 0 (o :: ys ++ c :: xs) =
      (splitOutside? 0 xs).map fun p => (o :: ys ++ c :: p.1, p.2) := by
  have hdo : o.depthAfter 0 = 1 := by simp [depthAfter, ho]
  have hdc : c.depthAfter 1 = 0 := by simp [depthAfter, hc]
  rw [List.cons_append, splitOutside?, if_neg (by simp [isKeyword, ho]), hdo,
    h.splitOutside?_succ 0, splitOutside?, if_neg (by simp), hdc]
  simp [Function.comp_def]

/-- Neither the group nor the flat list is split, or both are, into parts that spell each other. -/
def SplitsAlike (items : Group) (xs : List Lexeme) : Prop :=
  (split? items = none ∧ splitOutside? 0 xs = none) ∨
    ∃ left right u k v, split? items = some (left, k.text, right) ∧
      splitOutside? 0 xs = some (u, k, v) ∧ Spells left u ∧ Spells right v

/-- An item in front changes nothing, if neither split finds a keyword in it. -/
theorem SplitsAlike.prepend {item : Item} {ys : List Lexeme} (h : SplitsAlike items xs)
    (hs : split? (item :: items) = (split? items).map fun p => (item :: p.1, p.2))
    (hf : splitOutside? 0 (ys ++ xs) = (splitOutside? 0 xs).map fun p => (ys ++ p.1, p.2))
    (hspells : ∀ {left u}, Spells left u → Spells (item :: left) (ys ++ u)) :
    SplitsAlike (item :: items) (ys ++ xs) := by
  rcases h with ⟨h₁, h₂⟩ | ⟨left, right, u, k, v, h₁, h₂, hl, hr⟩
  · refine .inl ⟨?_, ?_⟩
    · rw [hs, h₁, Option.map_none]
    · rw [hf, h₂, Option.map_none]
  · refine .inr ⟨item :: left, right, ys ++ u, k, v, ?_, ?_, hspells hl, hr⟩
    · rw [hs, h₁, Option.map_some]
    · rw [hf, h₂, Option.map_some]

/-- **The flat list is split where its group is split.** -/
theorem Spells.splitsAlike (h : Spells items xs) (hx : ∀ x ∈ xs, x.WellFormed) :
    SplitsAlike items xs := by
  induction h with
  | nil => exact .inl ⟨rfl, rfl⟩
  | @token x items xs hp h ih =>
    obtain ⟨hhead, htail⟩ := List.forall_mem_cons.1 hx
    by_cases hk : x.isKeyword
    · refine .inr ⟨[], items, [], x, xs, ?_, ?_, .nil, h⟩
      · rw [split?, if_pos (by rw [hhead.isConnective_iff, hk])]
      · rw [splitOutside?, if_pos ⟨rfl, hk⟩]
    · have hd : x.depthAfter 0 = 0 := by
        obtain ⟨kind, text⟩ := x
        cases kind <;> simp_all [depthAfter, isParen]
      refine show SplitsAlike _ ([x] ++ xs) from (ih htail).prepend ?_ ?_ (.token hp)
      · rw [split?, if_neg (by rw [hhead.isConnective_iff]; exact hk)]
      · rw [List.singleton_append, splitOutside?, if_neg (fun h => hk h.2), hd]
        rfl
  | @group o c inner items ys xs ho hc hys _ _ ih =>
    have htail : ∀ x ∈ xs, x.WellFormed := fun x h => hx x (by simp [h])
    have hassoc (zs : List Lexeme) : o :: ys ++ c :: zs = o :: ys ++ [c] ++ zs := by simp
    rw [hassoc]
    refine (ih htail).prepend ?_ ?_ fun hl => ?_
    · rw [split?]
    · simp only [← hassoc]
      exact hys.splitOutside?_group ho hc xs
    · rw [← hassoc]
      exact .group ho hc hys hl

/-- A group of one item at most is empty, a lexeme, or a group in parentheses. -/
theorem Spells.of_length_le_one (h : Spells items xs) (hlen : items.length ≤ 1) :
    (items = [] ∧ xs = []) ∨ (∃ x : Lexeme, items = [.token x.text] ∧ xs = [x]) ∨
      ∃ o c ys inner, items = [.group inner] ∧ xs = o :: ys ++ [c] ∧ o.kind = .opening ∧
        c.kind = .closing ∧ Spells inner ys := by
  have hnil {items : Group} {zs : List Lexeme} (h : Spells items zs) (hlen : items.length + 1 ≤ 1) :
      items = [] ∧ zs = [] := by
    cases h with
    | nil => exact ⟨rfl, rfl⟩
    | token => simp at hlen
    | group => simp at hlen
  cases h with
  | nil => exact .inl ⟨rfl, rfl⟩
  | @token x items xs hp h =>
    obtain ⟨rfl, rfl⟩ := hnil h hlen
    exact .inr (.inl ⟨x, rfl, rfl⟩)
  | @group o c inner items ys xs ho hc hys h =>
    obtain ⟨rfl, rfl⟩ := hnil h hlen
    exact .inr (.inr ⟨o, c, ys, inner, rfl, rfl, ho, hc, hys⟩)

/-- Parentheses around the whole are found. -/
theorem Spells.inside?_group {o c : Lexeme} {ys : List Lexeme} {inner : Group}
    (ho : o.kind = .opening) (hc : c.kind = .closing) (h : Spells inner ys) :
    inside? (o :: ys ++ [c]) = some ys := by
  have : Lexeme.closeAt? 0 (ys ++ [c]) = some (ys, []) := by
    rw [h.closeAt? 0, Lexeme.closeAt?, if_pos ⟨rfl, hc⟩, Option.map_some, List.append_nil]
  rw [List.cons_append, inside?, this]
  exact if_pos ho

/-- **Of two items or more, no pair of parentheses is around the whole.** -/
theorem Spells.inside?_eq_none (h : Spells items xs) (hlen : 2 ≤ items.length) :
    inside? xs = none := by
  cases h with
  | nil => exact absurd hlen (by simp)
  | @token x items xs hp _ =>
    have hx : x.kind ≠ .opening := fun h => by simp [isParen, h] at hp
    rw [inside?]
    split
    · exact if_neg hx
    · rfl
  | @group o c inner items ys xs ho hc hys hxs =>
    obtain ⟨z, zs, rfl⟩ : ∃ z zs, xs = z :: zs := by
      refine List.exists_cons_of_ne_nil fun hnil => ?_
      have := hxs.length_le
      simp_all
    have : Lexeme.closeAt? 0 (ys ++ c :: z :: zs) = some (ys, z :: zs) := by
      rw [hys.closeAt? 0, Lexeme.closeAt?, if_pos ⟨rfl, hc⟩, Option.map_some, List.append_nil]
    rw [List.cons_append, inside?, this]

end Group

namespace Tree

open Lexeme

/-- The reading of a list with a keyword outside of parentheses, as an iff. -/
theorem ofLexemes?_of_split {xs u v : List Lexeme} {k : Lexeme} {tree : Tree}
    (h : splitOutside? 0 xs = some (u, k, v)) :
    ofLexemes? xs = some tree ↔
      ∃ l r, ofLexemes? u = some l ∧ ofLexemes? v = some r ∧ tree = .operator k.text l r := by
  rw [ofLexemes?]
  split
  · rename_i u' k' v' h'
    obtain ⟨rfl, rfl, rfl⟩ : u' = u ∧ k' = k ∧ v' = v := by simpa using h'.symm.trans h
    simp [Option.bind_eq_some_iff, eq_comm (b := tree)]
  · rename_i h'
    exact absurd (h'.symm.trans h) (by simp)

/-- The reading of a list without one: its inside if it is in parentheses, else one operand. -/
theorem ofLexemes?_of_not_split {xs : List Lexeme} (h : splitOutside? 0 xs = none) :
    ofLexemes? xs = (inside? xs).elim
      (if xs.length ≤ 1 then none
        else some (.operand (Text.unwords ((xs.filter (!·.isParen)).map Lexeme.text))))
      ofLexemes? := by
  rw [ofLexemes?]
  split
  · rename_i h'
    exact absurd (h.symm.trans h') (by simp)
  · split <;> rename_i h' <;> rw [h'] <;> rfl

/-- **A flat list and the group that spells it build the same tree.** -/
theorem ofLexemes?_eq_some_iff {items : Group} {xs : List Lexeme} {tree : Tree}
    (h : Group.Spells items xs) (hx : ∀ x ∈ xs, x.WellFormed) :
    ofLexemes? xs = some tree ↔ (Item.group items).Builds tree := by
  induction hn : xs.length using Nat.strongRecOn generalizing xs items tree with
  | _ n ih =>
    subst hn
    rcases h.splitsAlike hx with ⟨h₁, h₂⟩ | ⟨left, right, u, k, v, h₁, h₂, hl, hr⟩
    · rw [ofLexemes?_of_not_split h₂]
      by_cases hlen : 2 ≤ items.length
      · have := h.length_le
        rw [h.inside?_eq_none hlen, Item.builds_iff_of_not_split h₁ hlen, h.valuesAll,
          Option.elim_none, if_neg (by omega), Option.some.injEq, eq_comm]
      · rcases h.of_length_le_one (by omega) with ⟨rfl, rfl⟩ | ⟨x, rfl, rfl⟩ |
          ⟨o, c, ys, inner, rfl, rfl, ho, hc, hys⟩
        · simp [inside?]
        · rw [Item.builds_singleton_iff]
          simp [inside?, closeAt?]
        · have hlt : ys.length < (o :: ys ++ [c]).length := by
            simp only [List.length_cons, List.length_append]
            omega
          rw [Group.Spells.inside?_group ho hc hys, Item.builds_singleton_iff]
          exact ih ys.length hlt hys (fun x hm => hx x (by simp [hm])) rfl
    · have hxs := append_of_splitOutside? h₂
      subst hxs
      rw [ofLexemes?_of_split h₂, Item.builds_iff_of_split h₁]
      have hu : ∀ l, ofLexemes? u = some l ↔ (Item.group left).Builds l := fun l =>
        ih u.length (by simp) hl (fun x hm => hx x (by simp [hm])) rfl
      have hv : ∀ r, ofLexemes? v = some r ↔ (Item.group right).Builds r := fun r =>
        ih v.length (by simp; omega) hr (fun x hm => hx x (by simp [hm])) rfl
      simp only [hu, hv]

/-- **A rule is parsed to the tree of its flat list of lexemes, or not at all.**  The limits only
filter: they never change the tree. -/
theorem parse_eq_ok_iff_ofLexemes? (limits : Limits) (source : Text) (tree : Tree) :
    parse limits source = .ok tree ↔
      (source.length : Int) ≤ limits.ruleLength ∧ source.lexemes ≠ [] ∧
        Balanced source.lexemes ∧ ofLexemes? source.lexemes = some tree ∧
        (tree.size : Int) ≤ limits.nodes ∧ (tree.depth : Int) ≤ limits.depth := by
  have hx : ∀ x ∈ source.lexemes, x.WellFormed := fun _ => Text.wellFormed_of_mem_lexemes
  rw [parse_eq_ok_iff]
  constructor
  · rintro ⟨hlen, ⟨items, hs, hb⟩, hn, hd⟩
    refine ⟨hlen, ?_, Group.exists_spells_iff.1 ⟨items, hs⟩,
      (ofLexemes?_eq_some_iff hs hx).2 hb, hn, hd⟩
    intro hnil
    rw [hnil] at hs
    obtain rfl := hs.unique .nil
    exact Item.not_builds_nil hb
  · rintro ⟨hlen, -, hbal, ht, hn, hd⟩
    obtain ⟨items, hs⟩ := Group.exists_spells_iff.2 hbal
    exact ⟨hlen, ⟨items, hs, (ofLexemes?_eq_some_iff hs hx).1 ht⟩, hn, hd⟩

end Tree

end Criteria
