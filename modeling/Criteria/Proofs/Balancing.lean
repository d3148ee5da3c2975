import Criteria.Proofs.Scanning

/-!
# Proofs/Balancing — which parenthesis of a rule is without its partner

Tokens are nested iff their parentheses are balanced by count (`exists_ofTokens_iff`), and the group
they make has their texts, each nested group between parentheses (`Spells.textsAll`).  Otherwise the
failure is about the first parenthesis that closes one too many, or else the last that is never
closed (`blames_of_ofTokens`): how many groups are pending is how many parentheses are open
(`exists_nest_append`), so both are found by counting.  Two separate stacks, which might be found
empty, never are (`Stacks.read_eq`).  All of it for a rule: `ofTokens_scan_ok_or_blames`.
-/

namespace Criteria

open Lexeme

namespace Token

variable {t : Token} {ts us vs : List Token} {depth n : Nat}

/-! ## Counting -/

/-- How many parentheses are opened. -/
def openings (ts : List Token) : Nat := ts.countP (·.kind = .opening)

/-- How many parentheses are closed. -/
def closings (ts : List Token) : Nat := ts.countP (·.kind = .closing)

/-- **The parentheses are balanced**: on the way no more are closed than opened, and in the end as
many. -/
structure Balanced (ts : List Token) : Prop where
  closings_le : ∀ us, us <+: ts → closings us ≤ openings us
  closings_eq : closings ts = openings ts

/-- The token closes one parenthesis more than there are opened up to it. -/
def Overcloses (before : List Token) (t : Token) : Prop :=
  t.kind = .closing ∧ openings (before ++ [t]) < closings (before ++ [t])

/-- The token opens a parenthesis, and no later one closes it: what stands between it and one that
closes is never balanced. -/
def IsUnclosed (t : Token) (after : List Token) : Prop :=
  t.kind = .opening ∧ ∀ inner c rest, after = inner ++ c :: rest → c.kind = .closing →
    ¬Balanced inner

/-- Some parenthesis closes one too many. -/
def HasUnopened (ts : List Token) : Prop :=
  ∃ before t after, ts = before ++ t :: after ∧ Overcloses before t

/-- The first parenthesis that closes one too many. -/
def IsFirstUnopened (ts : List Token) (t : Token) : Prop :=
  ∃ before after, ts = before ++ t :: after ∧ Overcloses before t ∧ ¬HasUnopened before

/-- The last parenthesis that no later one closes. -/
def IsLastUnclosed (ts : List Token) (t : Token) : Prop :=
  ∃ before after, ts = before ++ t :: after ∧ IsUnclosed t after ∧
    ∀ b u a, after = b ++ u :: a → ¬IsUnclosed u a

@[simp] theorem openings_append (us vs : List Token) :
    openings (us ++ vs) = openings us + openings vs := List.countP_append

@[simp] theorem closings_append (us vs : List Token) :
    closings (us ++ vs) = closings us + closings vs := List.countP_append

theorem openings_cons (t : Token) (ts : List Token) :
    openings (t :: ts) = openings [t] + openings ts := openings_append [t] ts

theorem closings_cons (t : Token) (ts : List Token) :
    closings (t :: ts) = closings [t] + closings ts := closings_append [t] ts

@[simp] theorem openings_singleton (t : Token) :
    openings [t] = if t.kind = .opening then 1 else 0 := by
  simp [openings, List.countP_cons]

@[simp] theorem closings_singleton (t : Token) :
    closings [t] = if t.kind = .closing then 1 else 0 := by
  simp [closings, List.countP_cons]

/-- A last parenthesis that closes is one more of these, and none of the others. -/
theorem counts_concat_closing (us : List Token) (ht : t.kind = .closing) :
    closings (us ++ [t]) = closings us + 1 ∧ openings (us ++ [t]) = openings us := by
  simp [ht]

/-- The beginnings of a list are the empty one and those that go on after its first token. -/
theorem forall_prefix_cons_iff {P : List Token → Prop} :
    (∀ us, us <+: t :: ts → P us) ↔ P [] ∧ ∀ us, us <+: ts → P (t :: us) := by
  simp only [List.prefix_cons_iff]
  constructor
  · exact fun h => ⟨h [] (.inl rfl), fun us hus => h _ (.inr ⟨us, rfl, hus⟩)⟩
  · rintro ⟨hnil, hcons⟩ us (rfl | ⟨us, rfl, hus⟩)
    · exact hnil
    · exact hcons us hus

/-- One token changes how many are open by what it opens and closes. -/
theorem depthAfter?_singleton_eq_some_iff :
    depthAfter? depth [t.lexeme] = some n ↔ n + closings [t] = depth + openings [t] := by
  obtain ⟨kind, value, position⟩ := t
  rw [openings_singleton, closings_singleton]
  cases kind <;> cases depth <;> simp [depthAfter?, lexeme] <;> omega

/-- Only a parenthesis that closes, where none is open, has no depth after it. -/
theorem depthAfter?_singleton_eq_none_iff :
    depthAfter? depth [t.lexeme] = none ↔ depth = 0 ∧ t.kind = .closing := by
  obtain ⟨kind, value, position⟩ := t
  cases kind <;> cases depth <;> simp [depthAfter?, lexeme]

theorem depthAfter?_map_cons (depth : Nat) (t : Token) (ts : List Token) :
    depthAfter? depth ((t :: ts).map lexeme) =
      (depthAfter? depth [t.lexeme]).bind (depthAfter? · (ts.map lexeme)) :=
  depthAfter?_append [t.lexeme] (ts.map lexeme) depth

/-- The step of the count: the rest starts from what one token opens and closes. -/
theorem depthAfter?_map_cons_of_count (h : n + closings [t] = depth + openings [t]) :
    depthAfter? depth ((t :: ts).map lexeme) = depthAfter? n (ts.map lexeme) := by
  rw [depthAfter?_map_cons, depthAfter?_singleton_eq_some_iff.2 h, Option.bind_some]

/-- After a first token, a beginning is within its bound iff the rest is within the new one. -/
theorem closings_cons_le_iff (h : n + closings [t] = depth + openings [t]) :
    closings (t :: us) ≤ depth + openings (t :: us) ↔ closings us ≤ n + openings us := by
  rw [openings_cons, closings_cons]
  omega

/-- **How many are open, by count**: as many as are opened and not closed, if no more were closed on
the way than could be. -/
theorem depthAfter?_eq_some_iff :
    depthAfter? depth (ts.map lexeme) = some n ↔
      (∀ us, us <+: ts → closings us ≤ depth + openings us) ∧
        n + closings ts = depth + openings ts := by
  induction ts generalizing depth with
  | nil => simp [depthAfter?, closings, openings, eq_comm]
  | cons t ts ih =>
    have hopen := openings_cons t ts
    have hclose := closings_cons t ts
    simp only [depthAfter?_map_cons, Option.bind_eq_some_iff, depthAfter?_singleton_eq_some_iff, ih,
      forall_prefix_cons_iff]
    constructor
    · rintro ⟨m, hm, hus, hn⟩
      exact ⟨⟨Nat.zero_le _, fun us h => (closings_cons_le_iff hm).2 (hus us h)⟩, by omega⟩
    · rintro ⟨⟨-, hus⟩, hn⟩
      have hfirst : closings [t] ≤ depth + openings [t] := hus [] List.nil_prefix
      obtain ⟨m, hm⟩ : ∃ m, m + closings [t] = depth + openings [t] :=
        ⟨_, Nat.sub_add_cancel hfirst⟩
      exact ⟨m, hm, fun us h => (closings_cons_le_iff hm).1 (hus us h), by omega⟩

/-- **Parentheses are balanced iff none is open in the end.** -/
theorem balanced_iff : Balanced ts ↔ Lexeme.Balanced (ts.map lexeme) := by
  rw [Lexeme.Balanced, depthAfter?_eq_some_iff]
  simp only [Nat.zero_add]
  exact ⟨fun h => ⟨h.closings_le, h.closings_eq⟩, fun h => ⟨h.1, h.2⟩⟩

/-! ## One too many -/

/-- Where counting succeeds, no parenthesis closes one too many. -/
theorem not_hasUnopened (h : depthAfter? 0 (ts.map lexeme) = some n) : ¬HasUnopened ts := by
  rintro ⟨before, t, after, rfl, -, hlt⟩
  have := (depthAfter?_eq_some_iff.1 h).1 (before ++ [t]) ⟨after, by simp⟩
  omega

/-- **Where counting fails, it fails at a parenthesis** that closes when nothing is open. -/
theorem exists_closing_of_depthAfter?_eq_none (h : depthAfter? depth (ts.map lexeme) = none) :
    ∃ us t vs, ts = us ++ t :: vs ∧ t.kind = .closing ∧
      depthAfter? depth (us.map lexeme) = some 0 := by
  induction ts generalizing depth with
  | nil => exact absurd h (by simp [depthAfter?])
  | cons t ts ih =>
    rw [depthAfter?_map_cons] at h
    cases ht : depthAfter? depth [t.lexeme] with
    | none =>
      obtain ⟨rfl, hclose⟩ := depthAfter?_singleton_eq_none_iff.1 ht
      exact ⟨[], t, ts, rfl, hclose, rfl⟩
    | some m =>
      obtain ⟨us, u, vs, rfl, hu, hus⟩ := ih (by simpa [ht] using h)
      exact ⟨t :: us, u, vs, rfl, hu, by rw [depthAfter?_map_cons, ht]; exact hus⟩

/-- That parenthesis is the first to close one too many. -/
theorem isFirstUnopened (ht : t.kind = .closing) (hus : depthAfter? 0 (us.map lexeme) = some 0) :
    IsFirstUnopened (us ++ t :: vs) t := by
  have hcount := (depthAfter?_eq_some_iff.1 hus).2
  obtain ⟨hclose, hopen⟩ := counts_concat_closing us ht
  exact ⟨us, vs, rfl, ⟨ht, by omega⟩, not_hasUnopened hus⟩

/-! ## One too few -/

/-- **Where something stays open**, counting from `depth`: either it was open before, or there is a
last parenthesis that opens it, and what follows is balanced. -/
theorem exists_opening_of_depthAfter?_eq_succ
    (h : depthAfter? depth (ts.map lexeme) = some (n + 1)) :
    (∃ k, depth = n + 1 + k ∧ depthAfter? k (ts.map lexeme) = some 0) ∨
      ∃ us t vs, ts = us ++ t :: vs ∧ t.kind = .opening ∧ Lexeme.Balanced (vs.map lexeme) ∧
        depthAfter? depth (us.map lexeme) = some n := by
  induction ts generalizing depth with
  | nil => exact .inl ⟨0, by simpa [depthAfter?] using h, rfl⟩
  | cons t ts ih =>
    rw [depthAfter?_map_cons] at h
    obtain ⟨m, hm, h⟩ := Option.bind_eq_some_iff.1 h
    obtain ⟨k, rfl, hk⟩ | ⟨us, u, vs, rfl, hu, hvs, hus⟩ := ih h
    · rw [depthAfter?_singleton_eq_some_iff] at hm
      by_cases hlt : n < depth
      · refine .inl ⟨depth - (n + 1), by omega, ?_⟩
        rwa [depthAfter?_map_cons_of_count (n := k) (by omega)]
      · have hone := openings_singleton t
        split_ifs at hone with ht
        · obtain ⟨rfl, rfl⟩ : depth = n ∧ k = 0 := by omega
          exact .inr ⟨[], t, ts, rfl, ht, hk, rfl⟩
        · omega
    · exact .inr ⟨t :: us, u, vs, rfl, hu, hvs, by rw [depthAfter?_map_cons, hm]; exact hus⟩

/-- What a balanced list opens, it closes. -/
theorem not_isUnclosed (h : Balanced (us ++ t :: vs)) : ¬IsUnclosed t vs := by
  rintro ⟨ht, hno⟩
  rw [balanced_iff, Lexeme.Balanced, List.map_append, depthAfter?_append] at h
  obtain ⟨m, -, h⟩ := Option.bind_eq_some_iff.1 h
  rw [List.map_cons, depthAfter?_opening ht] at h
  obtain ⟨ys, c, zs, he, hc, hys, -⟩ := exists_closing (k := 0) (by rwa [Nat.zero_add])
  obtain ⟨inner, rest, rfl, rfl, hrest⟩ := List.map_eq_append_iff.1 he
  obtain ⟨u, rest, rfl, rfl, -⟩ := List.map_eq_cons_iff.1 hrest
  exact hno inner u rest rfl hc (balanced_iff.2 hys)

/-- **Before a balanced rest, an opening parenthesis is the last that is never closed.** -/
theorem isLastUnclosed (ht : t.kind = .opening) (hvs : Balanced vs) :
    IsLastUnclosed (us ++ t :: vs) t := by
  refine ⟨us, vs, rfl, ⟨ht, fun inner c rest he hc hinner => ?_⟩, fun b u a he => ?_⟩
  · have hle := hvs.closings_le (inner ++ [c]) ⟨rest, by simp [he]⟩
    have heq := hinner.closings_eq
    obtain ⟨hclose, hopen⟩ := counts_concat_closing inner hc
    omega
  · exact not_isUnclosed (he ▸ hvs)

end Token

/-! ## Texts of a group, with its parentheses -/

namespace Item

mutual

/-- The texts of an item, those of a group between parentheses. -/
def texts : Item → List Text
  | token value => [value]
  | group items => ['('] :: textsAll items ++ [[')']]

/-- The texts of a list of items, those of a nested group between parentheses. -/
def textsAll : List Item → List Text
  | [] => []
  | item :: items => texts item ++ textsAll items

end

end Item

/-- The character of the parenthesis that has no partner. -/
def Imbalance.mark : Imbalance → Char
  | unopened _ => ')'
  | unclosed _ => '('

/-- A parenthesis is one character long. -/
theorem Lexeme.WellFormed.exists_mark {x : Lexeme} (hx : x.WellFormed) (h : x.isParen) :
    ∃ c, Token.markKind? c = some x.kind ∧ x.text = [c] := by
  cases hx with
  | @word w hne hw => exact absurd h (by simp)
  | quoted hne hb => exact absurd h (by simp [isParen])
  | @mark c kind hk => exact ⟨c, hk, rfl⟩

theorem Lexeme.WellFormed.text_of_opening {x : Lexeme} (hx : x.WellFormed)
    (h : x.kind = .opening) : x.text = ['('] := by
  obtain ⟨c, hk, hc⟩ := hx.exists_mark (by simp [isParen, h])
  obtain rfl : c = '(' := by simpa [h, markKind?_eq_some_iff] using hk
  exact hc

theorem Lexeme.WellFormed.text_of_closing {x : Lexeme} (hx : x.WellFormed)
    (h : x.kind = .closing) : x.text = [')'] := by
  obtain ⟨c, hk, hc⟩ := hx.exists_mark (by simp [isParen, h])
  obtain rfl : c = ')' := by simpa [h, markKind?_eq_some_iff] using hk
  exact hc

/-- A token of one character is that character of the rule. -/
theorem Token.getElem?_of_mem_scan {source : Text} {t : Token} {c : Char} (ht : t ∈ scan source)
    (hc : t.lexeme.WellFormed → t.value = [c]) : source[t.position]? = some c := by
  obtain ⟨hwf, before, after, rfl, hpos, -⟩ := (isScanFrom_scanFrom 0 source).fits t ht
  rw [hpos, hc hwf]
  simp

namespace Group

open Token

variable {outer : List Pending} {before items : List Item} {ts us vs : List Token} {n : Nat}
  {xs : List Lexeme} {e : Imbalance}

/-- **A group has the texts of the lexemes that it spells**, its parentheses included. -/
theorem Spells.textsAll (h : Spells items xs) (hx : ∀ x ∈ xs, x.WellFormed) :
    Item.textsAll items = xs.map Lexeme.text := by
  induction h with
  | nil => rfl
  | @token x items xs _ _ ih =>
    obtain ⟨-, htail⟩ := List.forall_mem_cons.1 hx
    rw [Item.textsAll, Item.texts, ih htail]
    rfl
  | @group o c inner items ys xs ho hc _ _ ihys ihxs =>
    simp only [List.forall_mem_append, List.forall_mem_cons] at hx
    obtain ⟨⟨hxo, hys⟩, hxc, hxs⟩ := hx
    rw [Item.textsAll, Item.texts, ihys hys, ihxs hxs, List.map_append, List.map_cons,
      List.map_cons, hxo.text_of_opening ho, hxc.text_of_closing hc, List.append_assoc]
    rfl

/-! ## Runs -/

/-- **A run goes on with as many pending groups as parentheses are open.** -/
theorem exists_nest_append (outer : List Pending) (before : List Item)
    (h : Lexeme.depthAfter? outer.length (us.map lexeme) = some n) :
    ∃ outer' before', outer'.length = n ∧
      ∀ ts, nest outer before (us ++ ts) = nest outer' before' ts := by
  induction us generalizing outer before with
  | nil => exact ⟨outer, before, by simpa [Lexeme.depthAfter?] using h, fun _ => rfl⟩
  | cons t us ih =>
    rcases isParen_cases t.lexeme with hp | ht | ht
    · rw [List.map_cons, depthAfter?_of_not_isParen hp] at h
      simpa only [List.cons_append, nest_of_not_isParen hp] using ih outer _ h
    · rw [List.map_cons, depthAfter?_opening ht] at h
      simpa only [List.cons_append, nest_opening ht] using
        ih (⟨t.position, before⟩ :: outer) [] h
    · cases outer with
      | nil =>
        rw [List.length_nil, List.map_cons, depthAfter?_zero_closing ht] at h
        exact absurd h (by simp)
      | cons p outer =>
        rw [List.length_cons, List.map_cons, depthAfter?_closing ht] at h
        simpa only [List.cons_append, nest_closing ht] using ih outer _ h

/-- Tokens are nested iff their parentheses are balanced. -/
theorem exists_ofTokens_iff : (∃ items, ofTokens ts = .ok items) ↔ Balanced ts := by
  simp only [ofTokens_eq_ok_iff]
  rw [exists_spells_iff, balanced_iff]

/-- A parenthesis that closes where none is open ends the reading, whatever follows it. -/
theorem ofTokens_eq_unopened (ht : t.kind = .closing)
    (hus : Lexeme.depthAfter? 0 (us.map lexeme) = some 0) :
    ofTokens (us ++ t :: vs) = .error (.unopened t.position) := by
  obtain ⟨outer, before, hlen, hrun⟩ := exists_nest_append [] [] hus
  obtain rfl := List.length_eq_zero_iff.1 hlen
  rw [ofTokens, hrun, nest_nil_closing ht]

/-- The last open parenthesis is the one on top of the stack when the tokens end. -/
theorem ofTokens_eq_unclosed (ht : t.kind = .opening)
    (hus : Lexeme.depthAfter? 0 (us.map lexeme) = some n) (hvs : Balanced vs) :
    ofTokens (us ++ t :: vs) = .error (.unclosed t.position) := by
  obtain ⟨outer, before, -, hrun⟩ := exists_nest_append [] [] hus
  obtain ⟨items, hs⟩ := exists_spells_of_balanced (balanced_iff.1 hvs)
  have hrest : nest (⟨t.position, before⟩ :: outer) [] (vs ++ []) =
      nest (⟨t.position, before⟩ :: outer) (items.reverse ++ []) [] := nest_of_spells hs rfl
  rw [ofTokens, hrun, nest_opening ht, ← List.append_nil vs, hrest]
  rfl

/-- **The parenthesis that an imbalance is about**: the first that closes one too many, or if there
is none, the last that is never closed. -/
inductive Blames (ts : List Token) : Imbalance → Prop
  | unopened {t : Token} : IsFirstUnopened ts t → Blames ts (.unopened t.position)
  | unclosed {t : Token} : ¬HasUnopened ts → IsLastUnclosed ts t → Blames ts (.unclosed t.position)

/-- The parenthesis stands in the rule where the imbalance points. -/
theorem Blames.getElem?_position {source : Text} (h : Blames (scan source) e) :
    source[e.position]? = some e.mark := by
  cases h with
  | @unopened t ht =>
    obtain ⟨us, vs, hs, ⟨hk, -⟩, -⟩ := ht
    exact getElem?_of_mem_scan (by simp [hs]) fun hx => hx.text_of_closing hk
  | @unclosed t _ ht =>
    obtain ⟨us, vs, hs, ⟨hk, -⟩, -⟩ := ht
    exact getElem?_of_mem_scan (by simp [hs]) fun hx => hx.text_of_opening hk

/-- Where the count has no depth, the failure is about the first parenthesis too many. -/
theorem exists_blames_of_none (h : Lexeme.depthAfter? 0 (ts.map lexeme) = none) :
    ∃ e, ofTokens ts = .error e ∧ Blames ts e := by
  obtain ⟨us, t, vs, rfl, ht, hus⟩ := exists_closing_of_depthAfter?_eq_none h
  exact ⟨_, ofTokens_eq_unopened ht hus, .unopened (isFirstUnopened ht hus)⟩

/-- Where the count ends above zero, the failure is about the last parenthesis left open. -/
theorem exists_blames_of_succ (h : Lexeme.depthAfter? 0 (ts.map lexeme) = some (n + 1)) :
    ∃ e, ofTokens ts = .error e ∧ Blames ts e := by
  obtain ⟨k, hk, -⟩ | ⟨us, t, vs, rfl, ht, hvs, hus⟩ := exists_opening_of_depthAfter?_eq_succ h
  · omega
  · have hvs : Balanced vs := balanced_iff.2 hvs
    exact ⟨_, ofTokens_eq_unclosed ht hus hvs,
      .unclosed (not_hasUnopened h) (isLastUnclosed ht hvs)⟩

/-- **Tokens that are not nested are to blame for it**, the right one of them. -/
theorem blames_of_ofTokens (h : ofTokens ts = .error e) : Blames ts e := by
  obtain ⟨e', he, hblames⟩ : ∃ e', ofTokens ts = .error e' ∧ Blames ts e' := by
    match hd : Lexeme.depthAfter? 0 (ts.map lexeme) with
    | none => exact exists_blames_of_none hd
    | some (n + 1) => exact exists_blames_of_succ hd
    | some 0 =>
      obtain ⟨items, hok⟩ := exists_ofTokens_iff.2 (balanced_iff.2 hd)
      exact absurd (hok.symm.trans h) (by simp)
  obtain rfl := Except.error.inj (h.symm.trans he)
  exact hblames

/-! ## Two stacks

The pending groups of `nest` hold two things each.  Kept apart, they are two stacks, and a reader of
tokens takes from both as if it could not be that nothing is there. -/

/-- The items of the open groups, and where they were opened, the innermost first. -/
structure Stacks where
  groups : List (List Item)
  positions : List Nat

/-- Why a reading ends with two stacks. -/
inductive Breakdown
  | imbalance (e : Imbalance)
  | emptyStack
  deriving DecidableEq, Repr

namespace Stacks

/-- The stacks after a token. -/
def step (s : Stacks) (t : Token) : Except Breakdown Stacks :=
  match t.kind with
  | .opening => .ok ⟨[] :: s.groups, t.position :: s.positions⟩
  | .closing =>
    if s.groups.length = 1 then .error (.imbalance (.unopened t.position))
    else
      match s.groups, s.positions with
      | closed :: enclosing :: groups, _ :: positions =>
        .ok ⟨(.group closed.reverse :: enclosing) :: groups, positions⟩
      | _, _ => .error .emptyStack
  | _ =>
    match s.groups with
    | items :: groups => .ok ⟨(.token t.value :: items) :: groups, s.positions⟩
    | [] => .error .emptyStack

/-- What is read when no token is left. -/
def finish (s : Stacks) : Except Breakdown Group :=
  if 1 < s.groups.length then
    match s.positions with
    | p :: _ => .error (.imbalance (.unclosed p))
    | [] => .error .emptyStack
  else
    match s.groups with
    | items :: _ => .ok items.reverse
    | [] => .error .emptyStack

/-- The group of tokens, read with two stacks. -/
def read (ts : List Token) : Except Breakdown Group := do
  let s ← ts.foldlM step ⟨[[]], []⟩
  s.finish

/-- The stacks that stand for pending groups. -/
def ofPending (outer : List Pending) (before : List Item) : Stacks :=
  ⟨before :: outer.map Pending.before, outer.map Pending.openedAt⟩

theorem step_of_not_isParen (h : t.lexeme.isParen = false) :
    step (ofPending outer before) t = .ok (ofPending outer (.token t.value :: before)) := by
  obtain ⟨kind, value, position⟩ := t
  cases kind <;> simp_all [step, ofPending, isParen, lexeme]

theorem step_opening (h : t.kind = .opening) :
    step (ofPending outer before) t = .ok (ofPending (⟨t.position, before⟩ :: outer) []) := by
  simp [step, ofPending, h]

theorem step_closing {p : Pending} (h : t.kind = .closing) :
    step (ofPending (p :: outer) before) t =
      .ok (ofPending outer (.group before.reverse :: p.before)) := by
  simp [step, ofPending, h]

/-- The one step that fails: there is no position to take from the second stack. -/
theorem step_nil_closing (h : t.kind = .closing) :
    step (ofPending [] before) t = .error (.imbalance (.unopened t.position)) := by
  simp [step, ofPending, h]

/-- At the end both stacks are looked at, and the positions decide first. -/
theorem finish_ofPending (outer : List Pending) (before : List Item) :
    finish (ofPending outer before) = (nest outer before []).mapError .imbalance := by
  cases outer <;> simp [finish, ofPending, nest, Except.mapError]

/-- **The stacks stand for the pending groups all along**, so neither is ever found empty. -/
theorem foldlM_step_ofPending (outer : List Pending) (before : List Item) (ts : List Token) :
    (ts.foldlM step (ofPending outer before) >>= finish) =
      (nest outer before ts).mapError .imbalance := by
  induction ts generalizing outer before with
  | nil => rw [List.foldlM_nil, pure_bind, finish_ofPending]
  | cons t ts ih =>
    rw [List.foldlM_cons, bind_assoc]
    rcases isParen_cases t.lexeme with hp | ht | ht
    · rw [step_of_not_isParen hp, nest_of_not_isParen hp]
      exact ih outer _
    · rw [step_opening ht, nest_opening ht]
      exact ih _ []
    · cases outer with
      | nil =>
        rw [step_nil_closing ht, nest_nil_closing ht]
        rfl
      | cons p outer =>
        rw [step_closing ht, nest_closing ht]
        exact ih outer _

theorem read_eq (ts : List Token) : read ts = (ofTokens ts).mapError .imbalance :=
  foldlM_step_ofPending [] [] ts

end Stacks

/-! ## As a rule is read -/

/-- **A rule is nested iff its parentheses are balanced.**  Its group then has the texts of its
tokens in order, each nested group between parentheses.  Otherwise the failure is about the first
parenthesis that closes one too many, or if there is none, the last that is never closed, and points
at it.  Nothing else goes wrong: with two separate stacks, which might be found empty, the result is
the same. -/
theorem ofTokens_scan_ok_or_blames (source : Text) :
    ((∃ group, ofTokens (scan source) = .ok group) ↔ Balanced (scan source)) ∧
    (∀ group, ofTokens (scan source) = .ok group →
      Item.textsAll group = (scan source).map Token.value) ∧
    (∀ e, ofTokens (scan source) = .error e →
      Blames (scan source) e ∧ source[e.position]? = some e.mark) ∧
    Stacks.read (scan source) = (ofTokens (scan source)).mapError .imbalance := by
  refine ⟨exists_ofTokens_iff, fun group h => ?_, fun e h => ?_, Stacks.read_eq _⟩
  · rw [(ofTokens_eq_ok_iff.1 h).textsAll fun _ => Text.wellFormed_of_mem_lexemes, List.map_map]
    rfl
  · have hb := blames_of_ofTokens h
    exact ⟨hb, hb.getElem?_position⟩

/-- Of three parentheses that are opened, the last one is closed. -/
theorem ofTokens_scan_blames_unclosed :
    let source : Text := "(a ((b)".toList
    ofTokens (scan source) = .error (.unclosed 3) ∧ Blames (scan source) (.unclosed 3) ∧
      source[3]? = some '(' := by
  intro source
  have hscan : scan source = [⟨.opening, ['('], 0⟩, ⟨.word, ['a'], 1⟩, ⟨.opening, ['('], 3⟩,
      ⟨.opening, ['('], 4⟩, ⟨.word, ['b'], 5⟩, ⟨.closing, [')'], 6⟩] := by decide +kernel
  have h : ofTokens (scan source) = .error (.unclosed 3) := by
    rw [hscan]
    rfl
  exact ⟨h, (ofTokens_scan_ok_or_blames source).2.2.1 _ h⟩

end Group

end Criteria
