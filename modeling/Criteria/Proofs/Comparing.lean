import Criteria.Proofs.Dropping
import Mathlib.Data.EReal.Basic
import Mathlib.Data.List.Lex

/-!
# Proofs/Comparing — the three comparators divide all pairs alike

Numbers compare by their values among the reals and the two infinities, whatever their formats
(`Number.compare?_eq`): a whole number of any size is not rounded to be compared, and no literal is
nan.  Texts compare by code points.  Both orders leave exactly one of `<`, `=` and `>` true
(`Comparator.Divides`), and any other pair is unequal and has no order: `holds_divides`.
-/

namespace Criteria

/-! ## Comparators -/

namespace Comparator

/-- The character that writes the comparator. -/
def text : Comparator → Text
  | greater => ['>']
  | less => ['<']
  | equal => ['=']

theorem ofText?_eq_some_iff {s : Text} {c : Comparator} : ofText? s = some c ↔ s = c.text := by
  unfold ofText?
  split_ifs with h₁ h₂ h₃
  · subst h₁
    cases c <;> simp [text]
  · subst h₂
    cases c <;> simp [text]
  · subst h₃
    cases c <;> simp [text]
  · cases c <;> simp [text, h₁, h₂, h₃]

@[simp] theorem ofText?_text (c : Comparator) : ofText? c.text = some c := ofText?_eq_some_iff.2 rfl

theorem text_ne_nil (c : Comparator) : c.text ≠ [] := by cases c <;> exact List.cons_ne_nil _ _

theorem not_isBlank_of_mem_text (c : Comparator) : ∀ d ∈ c.text, !Text.isBlank d := by
  cases c <;> exact List.all_eq_true.1 rfl

variable {α : Type} {lt : α → α → Prop} {a b : α}

/-- What the comparator says of two things in an order. -/
def Relates (lt : α → α → Prop) (a b : α) : Comparator → Prop
  | greater => lt b a
  | less => lt a b
  | equal => a = b

/-- **Exactly one comparator relates two things** in a linear order. -/
theorem existsUnique_relates [Std.Trichotomous lt] [Std.Asymm lt] (a b : α) :
    ∃! c, Relates lt a b c := by
  have hirrefl : ∀ a, ¬lt a a := fun a h => Std.Asymm.asymm a a h h
  rcases trichotomous_of lt a b with h | rfl | h
  · have hba : ¬lt b a := Std.Asymm.asymm a b h
    have hne : a ≠ b := by
      rintro rfl
      exact hba h
    refine ⟨less, h, ?_⟩
    rintro (_ | _ | _) hc
    exacts [absurd hc hba, rfl, absurd hc hne]
  · refine ⟨equal, rfl, ?_⟩
    rintro (_ | _ | _) hc
    exacts [absurd hc (hirrefl a), absurd hc (hirrefl a), rfl]
  · have hab : ¬lt a b := Std.Asymm.asymm b a h
    have hne : a ≠ b := by
      rintro rfl
      exact hab h
    refine ⟨greater, h, ?_⟩
    rintro (_ | _ | _) hc
    exacts [rfl, absurd hc hab, absurd hc hne]

/-- **The three outcomes divide a pair**: each says what its comparator does, and exactly one is
true. -/
structure Divides (lt : α → α → Prop) (a b : α)
    (outcome : Comparator → Except EvaluationError Bool) : Prop where
  outcome_eq : ∀ c, ∃ t, outcome c = .ok t ∧ (t = true ↔ c.Relates lt a b)
  existsUnique : ∃! c, outcome c = .ok true

/-- How a comparator decides by an ordering, as what it decides of a strict order. -/
theorem divides_of_accepts [Std.Trichotomous lt] [Std.Asymm lt] {order : Ordering}
    {outcome : Comparator → Except EvaluationError Bool}
    (ho : ∀ c, outcome c = .ok (accepts c order)) (h : ∀ c, accepts c order ↔ Relates lt a b c) :
    Divides lt a b outcome where
  outcome_eq c := ⟨_, ho c, h c⟩
  existsUnique := by
    simp only [ho, Except.ok.injEq, h]
    exact existsUnique_relates a b

/-- Numbers: the comparators mean what they mean in the order. -/
theorem accepts_compare_iff [LinearOrder α] (a b : α) (c : Comparator) :
    c.accepts (compare a b) ↔ c.Relates (· < ·) a b := by
  rcases lt_trichotomy a b with h | rfl | h
  · rw [compare_lt_iff_lt.2 h]
    cases c <;> simp [accepts, Relates, h, h.le, h.ne]
  · rw [compare_eq_iff_eq.2 rfl]
    cases c <;> simp [accepts, Relates]
  · rw [compare_gt_iff_gt.2 h]
    cases c <;> simp [accepts, Relates, h, h.le, h.ne']

end Comparator

/-! ## Numbers -/

/-- The value of a binary64 number: a real number, or an infinity beyond all of them. -/
noncomputable def Binary64.value? : Binary64 → Option EReal
  | nan => none
  | infinite negative => some (if negative then ⊥ else ⊤)
  | finite negative quanta => some ((signed negative quanta / 2 ^ 1074 : ℝ) : EReal)

/-- The value of a number. -/
noncomputable def Number.value? : Number → Option EReal
  | int n => some ((n : ℝ) : EReal)
  | float x => x.value?

namespace Number

/-- The value at a place on the line. -/
noncomputable def Place.value : Place → EReal
  | below => ⊥
  | within quanta => ((quanta / Binary64.unit : ℝ) : EReal)
  | above => ⊤

theorem cast_unit : (Binary64.unit : ℝ) = 2 ^ 1074 := by
  unfold Binary64.unit
  generalize 1074 = k
  rw [Nat.pow_eq, Nat.cast_pow, Nat.cast_ofNat]

theorem unit_pos : (0 : ℝ) < Binary64.unit := by
  rw [cast_unit]
  exact pow_pos two_pos _

/-- **A number lies where its value is.** -/
theorem value?_eq_map_place? (n : Number) : n.value? = n.place?.map Place.value := by
  match n with
  | int n =>
    simp only [value?, place?, Option.map_some, Place.value, Int.cast_mul, Int.cast_natCast]
    rw [mul_div_cancel_right₀ _ unit_pos.ne']
  | float .nan => rfl
  | float (.infinite negative) => cases negative <;> rfl
  | float (.finite negative quanta) =>
    simp only [value?, Binary64.value?, place?, Option.map_some, Place.value, cast_unit]

/-- The order of places is that of their values. -/
theorem Place.compare_eq (p q : Place) : p.compare q = Ord.compare p.value q.value := by
  match p, q with
  | below, below | above, above => exact (compare_eq_iff_eq.2 rfl).symm
  | below, within n => exact (compare_lt_iff_lt.2 (EReal.bot_lt_coe _)).symm
  | below, above => exact (compare_lt_iff_lt.2 bot_lt_top).symm
  | within m, below => exact (compare_gt_iff_gt.2 (EReal.bot_lt_coe _)).symm
  | within m, above => exact (compare_lt_iff_lt.2 (EReal.coe_lt_top _)).symm
  | above, below => exact (compare_gt_iff_gt.2 bot_lt_top).symm
  | above, within n => exact (compare_gt_iff_gt.2 (EReal.coe_lt_top _)).symm
  | within m, within n =>
    have hlt {m n : Int} (h : m < n) : (within m).value < (within n).value :=
      EReal.coe_lt_coe_iff.2 (div_lt_div_of_pos_right (Int.cast_lt.2 h) unit_pos)
    rw [Place.compare]
    rcases lt_trichotomy m n with h | rfl | h
    · rw [Int.compare_eq_lt.2 h, compare_lt_iff_lt.2 (hlt h)]
    · rw [Int.compare_eq_eq.2 rfl, compare_eq_iff_eq.2 rfl]
    · rw [Int.compare_eq_gt.2 h, compare_gt_iff_gt.2 (hlt h)]

/-- **Numbers compare as their values do**, of whatever formats they are. -/
theorem compare?_eq {m n : Number} {x y : EReal} (hx : m.value? = some x) (hy : n.value? = some y) :
    m.compare? n = some (compare x y) := by
  rw [value?_eq_map_place?] at hx hy
  obtain ⟨p, hp, rfl⟩ := Option.map_eq_some_iff.1 hx
  obtain ⟨q, hq, rfl⟩ := Option.map_eq_some_iff.1 hy
  rw [compare?, hp, hq, ← Place.compare_eq]
  rfl

end Number

/-- A decimal is rounded to a number that has a value. -/
theorem Binary64.exists_value?_ofDecimal (negative : Bool) (digits : Nat) (exponent : Int) :
    ∃ y, (ofDecimal negative digits exponent).value? = some y := by
  unfold ofDecimal ofQuanta
  split_ifs <;> exact ⟨_, rfl⟩

/-- **No literal is nan.** -/
theorem Literal.exists_value?_of_read {raw : Text} {n : Number}
    (h : Literal.read raw = .ok (.number n)) : ∃ y, n.value? = some y := by
  unfold Literal.read at h
  split at h
  · simp at h
  · split_ifs at h
    · obtain rfl : Number.int _ = n := by simpa using h
      exact ⟨_, rfl⟩
    · obtain rfl : Number.float _ = n := by simpa using h
      exact Binary64.exists_value?_ofDecimal _ _ _

/-! ## Texts -/

namespace Text

/-- The text comes before the other by code points: at the first place where they differ, or
because it ends there. -/
def Precedes (s t : Text) : Prop := List.Lex (fun c d : Char => c.toNat < d.toNat) s t

instance : Std.Trichotomous fun c d : Char => c.toNat < d.toNat where
  trichotomous c d hcd hdc := Char.toNat_inj.1 (by omega)

instance : Std.Asymm fun c d : Char => c.toNat < d.toNat where
  asymm _ _ := Nat.lt_asymm

instance : Std.Trichotomous Precedes := List.Lex.trichotomous _

instance : Std.Asymm Precedes := List.Lex.asymm _

variable {s t : Text}

theorem Precedes.asymm (h : s.Precedes t) : ¬t.Precedes s := Std.Asymm.asymm s t h

@[simp] theorem not_precedes_self (s : Text) : ¬s.Precedes s := fun h => h.asymm h

theorem Precedes.ne (h : s.Precedes t) : s ≠ t := by
  rintro rfl
  exact not_precedes_self s h

theorem compare_of_precedes (h : s.Precedes t) : s.compare t = .lt := if_pos h

theorem compare_of_follows (h : t.Precedes s) : s.compare t = .gt :=
  (if_neg h.asymm).trans (if_pos h)

@[simp] theorem compare_self (s : Text) : s.compare s = .eq :=
  (if_neg (not_precedes_self s)).trans (if_neg (not_precedes_self s))

/-- Texts: the comparators mean what they mean in the order of code points. -/
theorem accepts_compare_iff (s t : Text) (c : Comparator) :
    c.accepts (s.compare t) ↔ c.Relates Precedes s t := by
  rcases trichotomous_of Precedes s t with h | rfl | h
  · rw [compare_of_precedes h]
    cases c <;> simp [Comparator.accepts, Comparator.Relates, h, h.asymm, h.ne]
  · rw [compare_self]
    cases c <;> simp [Comparator.accepts, Comparator.Relates]
  · rw [compare_of_follows h]
    cases c <;> simp [Comparator.accepts, Comparator.Relates, h, h.asymm, h.ne.symm]

end Text

/-! ## Conditions -/

namespace Condition

variable {record : Record} {name raw : Text} {value : Value} {literal : Literal}

/-- What the record gives is compared with the literal. -/
theorem holds_of_compareWith? {order : Option Ordering}
    (hvalue : record.find? name = some value) (h : literal.compareWith? value = some order)
    (c : Comparator) (source : Text) :
    holds record ⟨name, c.text, literal, source⟩ = .ok (order.any c.accepts) := by
  unfold holds
  simp only [hvalue, Comparator.ofText?_text, h]

/-- What cannot be compared is unequal, and has no order. -/
theorem holds_of_compareWith?_eq_none (hvalue : record.find? name = some value)
    (h : literal.compareWith? value = none) (c : Comparator) (source : Text) :
    holds record ⟨name, c.text, literal, source⟩ = if c = .equal then .ok false
      else .error (.incomparable value.kindName literal.kindName c.text source) := by
  unfold holds
  simp only [hvalue, Comparator.ofText?_text, h]

/-- Only numbers compare with numbers, and only texts with texts. -/
theorem compareWith?_eq_none (hnumber : ∀ m n, value.number? = some m → literal ≠ .number n)
    (htext : ∀ s t, value = .text s → literal ≠ .text t) : literal.compareWith? value = none := by
  cases literal with
  | number n =>
    refine Option.map_eq_none_iff.2 (Option.eq_none_iff_forall_ne_some.2 fun m hm => ?_)
    exact hnumber m n hm rfl
  | text t =>
    cases value with
    | text s => exact absurd rfl (htext s t rfl)
    | _ => rfl

/-- **A clause is a condition** iff it is three words, and the last one writes a literal. -/
theorem read_eq_ok_iff {source : Text} {c : Condition} : Condition.read source = .ok c ↔
    ∃ raw, Text.words source = [c.name, c.operator, raw] ∧ Literal.read raw = .ok c.literal ∧
      c.source = source := by
  unfold Condition.read
  split
  · rename_i name operator raw hwords
    rw [Outcome.bind_eq_ok_iff]
    constructor
    · rintro ⟨literal, hliteral, h⟩
      obtain rfl := Outcome.pure_eq_ok_iff.1 h
      exact ⟨raw, hwords, hliteral, rfl⟩
    · rintro ⟨raw', hraw, hliteral, rfl⟩
      obtain ⟨rfl, rfl, rfl⟩ := by simpa using hwords.symm.trans hraw
      exact ⟨c.literal, hliteral, rfl⟩
  · rename_i hne
    refine iff_of_false nofun ?_
    rintro ⟨raw, hraw, -⟩
    exact hne _ _ _ hraw

/-- The truth of a clause is that of the condition it writes. -/
theorem evaluateClause_of_read {source : Text} {c : Condition}
    (h : Condition.read source = .ok c) :
    Tree.evaluateClause record source = (c.holds record).mapError .error := by
  rw [Tree.evaluateClause, h]
  rfl

/-- **The three comparators divide all pairs alike.**  Of a number and a number literal, exactly one
of `<`, `=` and `>` holds, the one that holds of their values; the literal always has one, and of
nan none holds.  Of two texts exactly one holds, by code points.  Any other pair is unequal, and has
no order.  If the name and the literal are words, this is the outcome of the clause that they
write. -/
theorem holds_divides (hvalue : record.find? name = some value)
    (hliteral : Literal.read raw = .ok literal) (source : Text) :
    let outcome (c : Comparator) := holds record ⟨name, c.text, literal, source⟩
    (∀ m n, value.number? = some m → literal = .number n → ∃ y, n.value? = some y ∧
      (∀ x, m.value? = some x → Comparator.Divides (· < ·) x y outcome) ∧
      (m = .float .nan → ∀ c, outcome c = .ok false)) ∧
    (∀ s t, value = .text s → literal = .text t → Comparator.Divides Text.Precedes s t outcome) ∧
    ((∀ m n, value.number? = some m → literal ≠ .number n) →
      (∀ s t, value = .text s → literal ≠ .text t) →
      outcome .equal = .ok false ∧ ∀ c ≠ .equal, outcome c =
        .error (.incomparable value.kindName literal.kindName c.text source)) ∧
    ((name ≠ [] ∧ ∀ c ∈ name, !Text.isBlank c) → (raw ≠ [] ∧ ∀ c ∈ raw, !Text.isBlank c) →
      ∀ c : Comparator, source = Text.unwords [name, c.text, raw] →
        (Tree.operand source).evaluate record = (outcome c).mapError .error) := by
  intro outcome
  refine ⟨fun m n hm hn => ?_, fun s t hs ht => ?_, fun hnumber htext => ?_,
    fun hname hraw c hsource => ?_⟩
  · subst hn
    have hcompare : Literal.compareWith? value (.number n) = some (m.compare? n) := by
      rw [Literal.compareWith?, hm, Option.map_some]
    have houtcome (c) : outcome c = .ok ((m.compare? n).any c.accepts) :=
      holds_of_compareWith? hvalue hcompare c source
    obtain ⟨y, hy⟩ := Literal.exists_value?_of_read hliteral
    refine ⟨y, hy, fun x hx => ?_, ?_⟩
    · refine Comparator.divides_of_accepts (fun c => ?_) (Comparator.accepts_compare_iff x y)
      rw [houtcome, Number.compare?_eq hx hy, Option.any_some]
    · rintro rfl c
      exact houtcome c
  · subst hs ht
    have houtcome (c) : outcome c = .ok (c.accepts (s.compare t)) :=
      (holds_of_compareWith? hvalue rfl c source).trans (by rw [Option.any_some])
    exact Comparator.divides_of_accepts houtcome (Text.accepts_compare_iff s t)
  · have houtcome (c) := holds_of_compareWith?_eq_none hvalue
      (compareWith?_eq_none hnumber htext) c source
    exact ⟨houtcome .equal, fun c hc => (houtcome c).trans (if_neg hc)⟩
  · have hwords : Text.words source = [name, c.text, raw] := by
      rw [hsource]
      exact Text.words_unwords (List.forall_mem_cons.2 ⟨hname, List.forall_mem_cons.2
        ⟨⟨c.text_ne_nil, c.not_isBlank_of_mem_text⟩, List.forall_mem_singleton.2 hraw⟩⟩)
    exact evaluateClause_of_read (read_eq_ok_iff.2 ⟨raw, hwords, hliteral, rfl⟩)

/-- Just above `2 ^ 53`, where a rounded whole number would be equal. -/
theorem holds_divides_above_precision :
    let record : Record := [("a".toList, .int 9007199254740993)]
    let literal : Literal := .number (.float (.finite false (9007199254740992 * Binary64.unit)))
    let outcome (c : Comparator) := holds record ⟨"a".toList, c.text, literal, []⟩
    Literal.read "9007199254740992.0".toList = .ok literal ∧
      (∃! c, outcome c = .ok true) ∧ outcome .greater = .ok true := by
  intro record literal outcome
  have hliteral : Literal.read "9007199254740992.0".toList = .ok literal := by decide +kernel
  have hvalue : record.find? "a".toList = some (.int 9007199254740993) := rfl
  obtain ⟨hnumber, -⟩ := holds_divides hvalue hliteral []
  obtain ⟨y, -, hdivides, -⟩ := hnumber _ _ rfl rfl
  exact ⟨hliteral, (hdivides _ rfl).existsUnique, by decide +kernel⟩

end Condition

end Criteria
