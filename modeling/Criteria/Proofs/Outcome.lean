import Criteria.Outcome
import Mathlib.Data.List.Forall2

/-!
# Proofs/Outcome — errors of computations, and computations on lists

Renaming its error leaves a computation as it is otherwise, and computations that fail alike succeed
alike.  On a list a computation succeeds iff it does on every item, and fails where it fails first.
-/

namespace Criteria.Outcome

variable {ε ε' α β : Type}

@[simp] theorem mapError_eq_ok_iff {x : Except ε α} {f : ε → ε'} {a : α} :
    x.mapError f = .ok a ↔ x = .ok a := by
  cases x <;> simp [Except.mapError]

@[simp] theorem mapError_eq_error_iff {x : Except ε α} {f : ε → ε'} {e' : ε'} :
    x.mapError f = .error e' ↔ ∃ e, x = .error e ∧ f e = e' := by
  cases x <;> simp [Except.mapError]

@[simp] theorem toOption_eq_some_iff {x : Except ε α} {a : α} :
    x.toOption = some a ↔ x = .ok a := by
  cases x <;> simp [Except.toOption]

/-- A computation fails iff it does not succeed. -/
theorem exists_error_iff {x : Except ε α} : (∃ e, x = .error e) ↔ ¬∃ a, x = .ok a := by
  cases x <;> simp

/-- A computation with at most one failure succeeds iff there is none. -/
theorem exists_ok_iff_eq_none {x : Except ε α} {failure? : Option ε}
    (h : ∀ e, x = .error e ↔ failure? = some e) : (∃ a, x = .ok a) ↔ failure? = none := by
  rw [Option.eq_none_iff_forall_ne_some, ← not_iff_not, ← exists_error_iff]
  simp [h]

/-- Computations that fail alike succeed alike. -/
theorem exists_ok_iff_of_error_iff {x : Except ε α} {y : Except ε β}
    (h : ∀ e, x = .error e ↔ y = .error e) : (∃ a, x = .ok a) ↔ ∃ b, y = .ok b := by
  rw [← not_iff_not, ← exists_error_iff, ← exists_error_iff, exists_congr h]

/-- Everything in a list has a counterpart iff a list of counterparts is there. -/
theorem exists_forall₂_iff {R : α → β → Prop} {xs : List α} :
    (∃ ys, List.Forall₂ R xs ys) ↔ ∀ x ∈ xs, ∃ y, R x y := by
  induction xs with
  | nil => simp
  | cons x xs ih =>
    rw [List.forall_mem_cons, ← ih]
    constructor
    · rintro ⟨_, _ | ⟨hy, hys⟩⟩
      exact ⟨⟨_, hy⟩, _, hys⟩
    · rintro ⟨⟨y, hy⟩, ys, hys⟩
      exact ⟨y :: ys, .cons hy hys⟩

/-- Counterparts made by a function of others are the images of a list of these. -/
theorem forall₂_exists_map_iff {γ : Type} {R : α → β → Prop} {f : β → γ} {xs : List α}
    {zs : List γ} :
    List.Forall₂ (fun x z => ∃ y, R x y ∧ z = f y) xs zs ↔
      ∃ ys, List.Forall₂ R xs ys ∧ zs = ys.map f := by
  constructor
  · intro h
    induction h with
    | nil => exact ⟨[], .nil, rfl⟩
    | cons hy _ ih =>
      obtain ⟨y, hy, rfl⟩ := hy
      obtain ⟨ys, hys, rfl⟩ := ih
      exact ⟨y :: ys, .cons hy hys, rfl⟩
  · rintro ⟨ys, hys, rfl⟩
    exact List.forall₂_map_right_iff.2 (hys.imp fun _ y hy => ⟨y, hy, rfl⟩)

/-- **Results come in the order of what they are made of.** -/
theorem mapM_eq_ok_iff {f : α → Except ε β} {xs : List α} {ys : List β} :
    xs.mapM f = .ok ys ↔ List.Forall₂ (fun x y => f x = .ok y) xs ys := by
  induction xs generalizing ys with
  | nil => rw [List.mapM_nil, pure_eq_ok_iff, List.forall₂_nil_left_iff, eq_comm]
  | cons x xs ih =>
    rw [List.mapM_cons, bind_eq_ok_iff]
    constructor
    · rintro ⟨y, hy, h⟩
      obtain ⟨ys', hys, h⟩ := bind_eq_ok_iff.1 h
      obtain rfl := pure_eq_ok_iff.1 h
      exact .cons hy (ih.1 hys)
    · rintro (_ | ⟨hy, hys⟩)
      exact ⟨_, hy, bind_eq_ok_iff.2 ⟨_, ih.2 hys, rfl⟩⟩

/-- What stands somewhere in a list with a first member is that member, or stands behind it. -/
theorem exists_split_cons_iff {P : List α → α → List α → Prop} {x : α} {xs : List α} :
    (∃ before y after, x :: xs = before ++ y :: after ∧ P before y after) ↔
      P [] x xs ∨ ∃ before y after, xs = before ++ y :: after ∧ P (x :: before) y after := by
  constructor
  · rintro ⟨_ | ⟨first, before⟩, y, after, hsplit, hp⟩
    · obtain ⟨rfl, rfl⟩ := List.cons_eq_cons.1 hsplit
      exact .inl hp
    · obtain ⟨rfl, rfl⟩ := List.cons_eq_cons.1 hsplit
      exact .inr ⟨before, y, after, rfl, hp⟩
  · rintro (hp | ⟨before, y, after, rfl, hp⟩)
    exacts [⟨[], x, xs, rfl, hp⟩, ⟨x :: before, y, after, rfl, hp⟩]

/-- **The first failure is the one that counts.** -/
theorem mapM_eq_error_iff {f : α → Except ε β} {xs : List α} {e : ε} :
    xs.mapM f = .error e ↔ ∃ before x after, xs = before ++ x :: after ∧
      (∀ y ∈ before, ∃ b, f y = .ok b) ∧ f x = .error e := by
  induction xs with
  | nil => simp [List.mapM_nil]
  | cons x xs ih =>
    rw [List.mapM_cons, bind_eq_error_iff, exists_split_cons_iff]
    simp only [bind_eq_error_iff, ih, pure_ne_error, and_false, exists_false, or_false,
      List.forall_mem_cons, List.not_mem_nil, false_implies, implies_true, true_and]
    constructor
    · rintro (h | ⟨b, hb, before, y, after, rfl, hbefore, hy⟩)
      exacts [.inl h, .inr ⟨before, y, after, rfl, ⟨⟨b, hb⟩, hbefore⟩, hy⟩]
    · rintro (h | ⟨before, y, after, rfl, ⟨⟨b, hb⟩, hbefore⟩, hy⟩)
      exacts [.inl h, .inr ⟨b, hb, before, y, after, rfl, hbefore, hy⟩]

theorem mapM_eq_some_iff {f : α → Option β} {xs : List α} {ys : List β} :
    xs.mapM f = some ys ↔ List.Forall₂ (fun x y => f x = some y) xs ys := by
  induction xs generalizing ys with
  | nil =>
    rw [List.mapM_nil, List.forall₂_nil_left_iff, Option.pure_def, Option.some.injEq, eq_comm]
  | cons x xs ih =>
    rw [List.mapM_cons, Option.bind_eq_bind, Option.bind_eq_some_iff]
    constructor
    · rintro ⟨y, hy, h⟩
      obtain ⟨ys', hys, h⟩ := Option.bind_eq_some_iff.1 h
      obtain rfl := Option.some.inj h
      exact .cons hy (ih.1 hys)
    · rintro (_ | ⟨hy, hys⟩)
      exact ⟨_, hy, Option.bind_eq_some_iff.2 ⟨_, ih.2 hys, rfl⟩⟩

end Criteria.Outcome
