import Criteria.Group
import Criteria.Proofs.Lexeme

/-!
# Proofs/Nesting — a group spells a list of lexemes, and spells it alone

`Group.Spells items xs` says that the items, each nested group in parentheses, are the lexemes `xs`.
A list is spelt iff its parentheses are balanced (`exists_spells_iff`), and what a reading of tokens
makes of them is the group that spells them (`ofTokens_eq_ok_iff`): the stack of pending groups has
disappeared.
-/

namespace Criteria

namespace Lexeme

/-! ## Balance -/

/-- How many parentheses are open after the lexemes if `depth` are open before them; nothing if one
is closed that is not open. -/
def depthAfter? : Nat → List Lexeme → Option Nat
  | depth, [] => some depth
  | depth, x :: xs =>
    match x.kind, depth with
    | .opening, depth => depthAfter? (depth + 1) xs
    | .closing, 0 => none
    | .closing, depth + 1 => depthAfter? depth xs
    | _, depth => depthAfter? depth xs

/-- Every parenthesis has its partner. -/
def Balanced (xs : List Lexeme) : Prop := depthAfter? 0 xs = some 0

instance (xs : List Lexeme) : Decidable (Balanced xs) :=
  inferInstanceAs (Decidable (depthAfter? 0 xs = some 0))

variable {x : Lexeme} {xs ys : List Lexeme} {depth : Nat}

theorem depthAfter?_opening (h : x.kind = .opening) :
    depthAfter? depth (x :: xs) = depthAfter? (depth + 1) xs := by
  simp [depthAfter?, h]

theorem depthAfter?_closing (h : x.kind = .closing) :
    depthAfter? (depth + 1) (x :: xs) = depthAfter? depth xs := by
  simp [depthAfter?, h]

theorem depthAfter?_zero_closing (h : x.kind = .closing) : depthAfter? 0 (x :: xs) = none := by
  simp [depthAfter?, h]

theorem depthAfter?_of_not_isParen (h : x.isParen = false) :
    depthAfter? depth (x :: xs) = depthAfter? depth xs := by
  obtain ⟨kind, text⟩ := x
  cases kind <;> simp_all [depthAfter?, isParen]

theorem isParen_cases (x : Lexeme) : x.isParen = false ∨ x.kind = .opening ∨ x.kind = .closing := by
  obtain ⟨kind, text⟩ := x
  cases kind <;> simp [isParen]

/-- The depth after two lists is that after the second, from the depth after the first. -/
theorem depthAfter?_append (xs ys : List Lexeme) (depth : Nat) :
    depthAfter? depth (xs ++ ys) = (depthAfter? depth xs).bind (depthAfter? · ys) := by
  induction xs generalizing depth with
  | nil => rfl
  | cons x xs ih =>
    rw [List.cons_append]
    rcases isParen_cases x with hp | h | h
    · rw [depthAfter?_of_not_isParen hp, depthAfter?_of_not_isParen hp, ih]
    · rw [depthAfter?_opening h, depthAfter?_opening h, ih]
    · cases depth with
      | zero => rw [depthAfter?_zero_closing h, depthAfter?_zero_closing h, Option.bind_none]
      | succ depth => rw [depthAfter?_closing h, depthAfter?_closing h, ih]

/-- **The parenthesis that closes an open one.**  `k` more are opened inside of it on the way. -/
theorem exists_closing {k depth : Nat} (h : depthAfter? (k + depth + 1) xs = some 0) :
    ∃ ys c zs, xs = ys ++ c :: zs ∧ c.kind = .closing ∧ depthAfter? k ys = some 0 ∧
      depthAfter? depth zs = some 0 := by
  induction xs generalizing k with
  | nil => simp [depthAfter?] at h
  | cons x xs ih =>
    rcases isParen_cases x with hp | hx | hx
    · rw [depthAfter?_of_not_isParen hp] at h
      obtain ⟨ys, c, zs, rfl, hc, hys, hzs⟩ := ih h
      exact ⟨x :: ys, c, zs, rfl, hc, by rw [depthAfter?_of_not_isParen hp, hys], hzs⟩
    · rw [depthAfter?_opening hx, show k + depth + 1 + 1 = (k + 1) + depth + 1 by omega] at h
      obtain ⟨ys, c, zs, rfl, hc, hys, hzs⟩ := ih h
      exact ⟨x :: ys, c, zs, rfl, hc, by rw [depthAfter?_opening hx, hys], hzs⟩
    · rw [depthAfter?_closing hx] at h
      cases k with
      | zero => exact ⟨[], x, xs, rfl, hx, rfl, by simpa using h⟩
      | succ k =>
        obtain ⟨ys, c, zs, rfl, hc, hys, hzs⟩ := ih (by rwa [Nat.add_right_comm] at h)
        exact ⟨x :: ys, c, zs, rfl, hc, by rw [depthAfter?_closing hx, hys], hzs⟩

end Lexeme

namespace Group

open Lexeme

/-! ## Spelling -/

/-- **The lexemes of a group's items**, those of a nested group between parentheses. -/
inductive Spells : Group → List Lexeme → Prop
  | nil : Spells [] []
  | token {x : Lexeme} {items : Group} {xs : List Lexeme} : x.isParen = false → Spells items xs →
      Spells (.token x.text :: items) (x :: xs)
  | group {o c : Lexeme} {inner items : Group} {ys xs : List Lexeme} : o.kind = .opening →
      c.kind = .closing → Spells inner ys → Spells items xs →
      Spells (.group inner :: items) (o :: ys ++ c :: xs)

variable {items more : Group} {xs ys : List Lexeme}

/-- What a group spells is balanced, at any depth. -/
theorem Spells.depthAfter? (h : Spells items xs) (depth : Nat) :
    Lexeme.depthAfter? depth xs = some depth := by
  induction h generalizing depth with
  | nil => rfl
  | token hx _ ih => rw [depthAfter?_of_not_isParen hx, ih]
  | group ho hc _ _ ihys ihxs =>
    rw [List.cons_append, depthAfter?_opening ho, depthAfter?_append, ihys, Option.bind_some,
      depthAfter?_closing hc, ihxs]

theorem Spells.append (h : Spells items xs) (h' : Spells more ys) :
    Spells (items ++ more) (xs ++ ys) := by
  induction h with
  | nil => exact h'
  | token hx _ ih => exact .token hx ih
  | group ho hc hys _ _ ih =>
    rw [List.append_assoc, List.cons_append, List.cons_append]
    exact .group ho hc hys ih

/-- **Balanced lexemes are spelt by a group.** -/
theorem exists_spells_of_balanced {xs : List Lexeme} (h : Balanced xs) :
    ∃ items, Spells items xs := by
  induction hn : xs.length using Nat.strongRecOn generalizing xs with
  | _ n ih =>
    subst hn
    match xs with
    | [] => exact ⟨[], .nil⟩
    | x :: xs =>
      unfold Lexeme.Balanced at h
      rcases isParen_cases x with hp | hx | hx
      · rw [depthAfter?_of_not_isParen hp] at h
        obtain ⟨items, hs⟩ := ih xs.length (by simp) h rfl
        exact ⟨_, .token hp hs⟩
      · rw [depthAfter?_opening hx] at h
        obtain ⟨ys, c, zs, rfl, hc, hys, hzs⟩ : ∃ ys c zs, xs = ys ++ c :: zs ∧
            c.kind = .closing ∧ Balanced ys ∧ Balanced zs := exists_closing h
        simp only [List.length_cons, List.length_append] at ih
        obtain ⟨inner, hi⟩ := ih ys.length (by omega) hys rfl
        obtain ⟨items, hs⟩ := ih zs.length (by omega) hzs rfl
        exact ⟨_, .group hx hc hi hs⟩
      · rw [depthAfter?_zero_closing hx] at h
        exact absurd h (by simp)

theorem exists_spells_iff : (∃ items, Spells items xs) ↔ Balanced xs :=
  ⟨fun ⟨_, h⟩ => h.depthAfter? 0, exists_spells_of_balanced⟩

/-! ## Nesting -/

variable {outer : List Pending} {before : List Item} {ts rest : List Token}

theorem nest_opening {t : Token} (h : t.lexeme.kind = .opening) :
    nest outer before (t :: ts) = nest (⟨t.position, before⟩ :: outer) [] ts := by
  cases outer <;> simp_all [nest, Token.lexeme]

theorem nest_closing {t : Token} {p : Pending} (h : t.lexeme.kind = .closing) :
    nest (p :: outer) before (t :: ts) = nest outer (.group before.reverse :: p.before) ts := by
  simp_all [nest, Token.lexeme]

theorem nest_nil_closing {t : Token} (h : t.lexeme.kind = .closing) :
    nest [] before (t :: ts) = .error (.unopened t.position) := by
  simp_all [nest, Token.lexeme]

theorem nest_of_not_isParen {t : Token} (h : t.lexeme.isParen = false) :
    nest outer before (t :: ts) = nest outer (.token t.lexeme.text :: before) ts := by
  obtain ⟨kind, value, position⟩ := t
  cases outer <;> cases kind <;> simp_all [nest, Token.lexeme, isParen]

/-- **Reading what a group spells puts its items before the rest.** -/
theorem nest_of_spells (h : Spells items xs) (hts : ts.map Token.lexeme = xs) :
    nest outer before (ts ++ rest) = nest outer (items.reverse ++ before) rest := by
  induction h generalizing outer before ts rest with
  | nil =>
    obtain rfl := List.map_eq_nil_iff.1 hts
    rfl
  | token hx _ ih =>
    obtain ⟨t, ts, rfl, rfl, htail⟩ := List.map_eq_cons_iff.1 hts
    rw [List.cons_append, nest_of_not_isParen hx, ih htail, List.reverse_cons, List.append_assoc]
    rfl
  | group ho hc _ _ ihys ihxs =>
    obtain ⟨us, vs, rfl, hus, hvs⟩ := List.map_eq_append_iff.1 hts
    obtain ⟨t, us, rfl, rfl, hinner⟩ := List.map_eq_cons_iff.1 hus
    obtain ⟨u, vs, rfl, rfl, htail⟩ := List.map_eq_cons_iff.1 hvs
    rw [List.append_assoc, List.cons_append, List.cons_append, nest_opening ho, ihys hinner,
      nest_closing hc, ihxs htail, List.append_nil, List.reverse_reverse, List.reverse_cons,
      List.append_assoc]
    rfl

/-- A reading that succeeds has closed every pending group. -/
theorem depthAfter?_of_nest {group : Group} (h : nest outer before ts = .ok group) :
    Lexeme.depthAfter? outer.length (ts.map Token.lexeme) = some 0 := by
  induction ts generalizing outer before with
  | nil =>
    cases outer with
    | nil => rfl
    | cons p outer => simp [nest] at h
  | cons t ts ih =>
    rw [List.map_cons]
    rcases isParen_cases t.lexeme with hp | ht | ht
    · rw [nest_of_not_isParen hp] at h
      rw [depthAfter?_of_not_isParen hp, ih h]
    · rw [nest_opening ht] at h
      rw [depthAfter?_opening ht]
      exact ih h
    · cases outer with
      | nil =>
        rw [nest_nil_closing ht] at h
        exact absurd h (by simp)
      | cons p outer =>
        rw [nest_closing ht] at h
        rw [List.length_cons, depthAfter?_closing ht, ih h]

/-- **Tokens that a group spells are read as that group.** -/
theorem ofTokens_of_spells (h : Spells items (ts.map Token.lexeme)) : ofTokens ts = .ok items := by
  have : nest [] [] (ts ++ []) = nest [] (items.reverse ++ []) [] := nest_of_spells h rfl
  simpa [ofTokens, nest] using this

/-- **The group that is made of tokens is the one that spells them.** -/
theorem ofTokens_eq_ok_iff : ofTokens ts = .ok items ↔ Spells items (ts.map Token.lexeme) := by
  refine ⟨fun h => ?_, ofTokens_of_spells⟩
  obtain ⟨items', hs⟩ := exists_spells_of_balanced (depthAfter?_of_nest h)
  rw [ofTokens_of_spells hs] at h
  exact Except.ok.inj h ▸ hs

/-- **Lexemes are spelt by one group only.** -/
theorem Spells.unique {items' : Group} (h : Spells items xs) (h' : Spells items' xs) :
    items = items' := by
  have hts : (xs.map fun x => (⟨x.kind, x.text, 0⟩ : Token)).map Token.lexeme = xs := by
    simp [Function.comp_def, Token.lexeme]
  rw [← hts] at h h'
  exact Except.ok.inj ((ofTokens_of_spells h).symm.trans (ofTokens_of_spells h'))

/-! ## Texts of a group -/

@[simp] theorem valuesAll_append (items more : Group) :
    Item.valuesAll (items ++ more) = Item.valuesAll items ++ Item.valuesAll more := by
  induction items with
  | nil => rfl
  | cons item items ih =>
    rw [List.cons_append, Item.valuesAll, Item.valuesAll, ih, List.append_assoc]

/-- **Flattening with a list of items still to read is flattening by recursion.** -/
theorem flatten_eq_valuesAll (items : Group) : flatten items = Item.valuesAll items := by
  fun_induction flatten items with
  | case1 => rfl
  | case2 value pending ih => rw [ih, Item.valuesAll, Item.values, List.singleton_append]
  | case3 inner pending ih => rw [ih, valuesAll_append, Item.valuesAll, Item.values]

/-- **The texts of a group are those of its lexemes that are no parentheses.** -/
theorem Spells.valuesAll (h : Spells items xs) :
    Item.valuesAll items = (xs.filter (!·.isParen)).map Lexeme.text := by
  induction h with
  | nil => rfl
  | token hx _ ih => simp [Item.valuesAll, Item.values, hx, ih]
  | @group o c inner items ys xs ho hc _ _ ihys ihxs =>
    have ho : o.isParen := by simp [isParen, ho]
    have hc : c.isParen := by simp [isParen, hc]
    simp [Item.valuesAll, Item.values, ho, hc, ihys, ihxs]

end Group

end Criteria
