import Criteria.Number.Numeral
import Mathlib.Data.List.Forall2
import Mathlib.Data.Nat.Digits.Defs

/-!
# Proofs/Numeral — the grammar of numerals

    sign? (digit+ ('.' digit*)? | '.' digit+) (('e' | 'E') sign? digit+)?

`Numeral.IsWrittenAs` is this grammar, with the numeral that a text writes.  Nothing stands between
the parts of a numeral, but each one ends where its characters do: no exponent begins with a digit
or a point, and no mantissa with a sign.  So every part is taken off as it was written, and a text
is read as a numeral iff the grammar derives it: `Numeral.read?_eq_some_iff`.
-/

namespace Criteria

/-! ## Digits -/

namespace Text

/-- The character is a decimal digit of this value: it is as far behind the zero of its script. -/
def IsDigit (c : Char) (d : Nat) : Prop := d < 10 ∧ ∃ z ∈ zeros, c.toNat = z + d

/-- The characters are digits of these values, one by one. -/
def AreDigits : Text → List Nat → Prop := List.Forall₂ IsDigit

/-- No two scripts share a digit. -/
theorem pairwise_zeros : zeros.Pairwise fun z z' => z + 10 ≤ z' := by decide

theorem digit?_eq_some_iff {c : Char} {d : Nat} : digit? c = some d ↔ IsDigit c d := by
  rw [digit?, Option.map_eq_some_iff]
  constructor
  · rintro ⟨z, hfind, rfl⟩
    have hrange := List.find?_some hfind
    simp only [Bool.and_eq_true, decide_eq_true_eq] at hrange
    exact ⟨by omega, z, List.mem_of_find?_eq_some hfind, by omega⟩
  · rintro ⟨hd, z, hmem, hc⟩
    refine ⟨z, ?_, by omega⟩
    -- The zeros before this one are too far from `c`.
    obtain ⟨before, after, hsplit⟩ := List.append_of_mem hmem
    have hfar : ∀ y ∈ before, y + 10 ≤ z := fun y hy =>
      (List.pairwise_append.1 (hsplit ▸ pairwise_zeros)).2.2 y hy z List.mem_cons_self
    refine List.find?_eq_some_iff_append.2 ⟨by simp; omega, before, after, hsplit, fun y hy => ?_⟩
    have := hfar y hy
    simp only [Bool.not_eq_true', Bool.and_eq_false_iff, decide_eq_false_iff_not]
    omega

/-- What numerals are made of besides digits, and what stands around them, is no digit. -/
theorem not_isSome_digit? {c : Char} (h : c ∈ ['+', '-', '.', 'e', 'E', '\n', '\'']) :
    ¬(digit? c).isSome := by
  have hall : ['+', '-', '.', 'e', 'E', '\n', '\''].all fun c => !(digit? c).isSome := by decide
  simpa using List.all_eq_true.1 hall c h

theorem exists_areDigits_iff {s : Text} :
    (∃ ds, AreDigits s ds) ↔ ∀ c ∈ s, (digit? c).isSome := by
  simp only [AreDigits, Option.isSome_iff_exists, digit?_eq_some_iff]
  induction s with
  | nil => simp
  | cons c s ih => simp [← ih, List.forall₂_cons_left_iff]

variable {s rest : Text} {ds : List Nat}

theorem AreDigits.isSome_digit? (h : s.AreDigits ds) : ∀ c ∈ s, (digit? c).isSome :=
  exists_areDigits_iff.1 ⟨ds, h⟩

theorem AreDigits.ne_nil (h : s.AreDigits ds) (hne : ds ≠ []) : s ≠ [] := by
  rintro rfl
  exact hne (List.forall₂_nil_left_iff.1 h)

/-- Digits are taken off a text up to the first character that is none. -/
theorem spanDigits_append (h : s.AreDigits ds) (hrest : ∀ c ∈ rest.head?, ¬(digit? c).isSome) :
    spanDigits digit? (s ++ rest) = (ds, rest) := by
  induction h with
  | nil =>
    cases rest with
    | nil => rfl
    | cons c rest => rw [List.nil_append, spanDigits, Option.not_isSome_iff_eq_none.1 (hrest c rfl)]
  | cons hc _ ih => simp only [List.cons_append, spanDigits, digit?_eq_some_iff.2 hc, ih]

/-- The longest run of digits at the head, and what it leaves. -/
theorem exists_areDigits_append (s : Text) : ∃ digits ds rest, AreDigits digits ds ∧
    s = digits ++ rest ∧ spanDigits digit? s = (ds, rest) := by
  induction s with
  | nil => exact ⟨[], [], [], .nil, rfl, rfl⟩
  | cons c s ih =>
    cases hc : digit? c with
    | none => exact ⟨[], [], c :: s, .nil, rfl, by rw [spanDigits, hc]⟩
    | some d =>
      obtain ⟨digits, ds, rest, hds, rfl, hspan⟩ := ih
      refine ⟨c :: digits, d :: ds, rest, .cons (digit?_eq_some_iff.1 hc) hds, rfl, ?_⟩
      simp only [spanDigits, hc, hspan]

/-- Positional notation, the most significant digit first. -/
theorem ofDigits_eq (base : Nat) (ds : List Nat) :
    ofDigits base ds = Nat.ofDigits base ds.reverse := by
  rw [Nat.ofDigits_eq_foldr, List.foldr_reverse, ofDigits]
  congr 1
  funext n d
  exact Nat.add_comm _ _

/-- A sign, or none. -/
def IsSign (s : Text) : Prop := s = [] ∨ s = ['+'] ∨ s = ['-']

end Text

open Text

theorem signed_eq (negative : Bool) (n : Nat) :
    signed negative n = (if negative then -1 else 1) * (n : Int) := by
  cases negative with
  | false => exact (Int.one_mul _).symm
  | true => exact Int.neg_eq_neg_one_mul _

namespace Numeral

/-! ## The grammar -/

/-- The digits of a numeral, with a point or without; there is one digit at least. -/
inductive IsMantissa : List Nat → Option (List Nat) → Text → Prop
  | whole {digits : Text} {ds : List Nat} : digits.AreDigits ds → ds ≠ [] →
      IsMantissa ds none digits
  | pointed {digits digits' : Text} {ds ds' : List Nat} : digits.AreDigits ds → ds ≠ [] →
      digits'.AreDigits ds' → IsMantissa ds (some ds') (digits ++ '.' :: digits')
  | fraction {digits : Text} {ds : List Nat} : digits.AreDigits ds → ds ≠ [] →
      IsMantissa [] (some ds) ('.' :: digits)

/-- An exponent after its mark, or nothing. -/
inductive IsExponent : Option Int → Text → Prop
  | absent : IsExponent none []
  | present {mark : Char} {sign digits : Text} {ds : List Nat} : mark = 'e' ∨ mark = 'E' →
      sign.IsSign → digits.AreDigits ds → ds ≠ [] →
      IsExponent (some (signed (sign = ['-']) (ofDigits 10 ds))) (mark :: (sign ++ digits))

/-- **The text writes the numeral.** -/
inductive IsWrittenAs : Numeral → Text → Prop
  | mk {sign mantissa power : Text} {whole : List Nat} {fraction : Option (List Nat)}
      {exponent : Option Int} : sign.IsSign → IsMantissa whole fraction mantissa →
      IsExponent exponent power →
      IsWrittenAs ⟨sign = ['-'], whole, fraction, exponent⟩ (sign ++ (mantissa ++ power))

/-! ## Signs -/

/-- What follows a sign begins with none. -/
theorem takeSign_append {sign rest : Text} (hs : sign.IsSign)
    (hrest : ∀ c ∈ rest.head?, c ≠ '+' ∧ c ≠ '-') :
    takeSign (sign ++ rest) = (decide (sign = ['-']), rest) := by
  rcases hs with rfl | rfl | rfl
  · rw [List.nil_append, takeSign.eq_def]
    split
    · exact absurd rfl (hrest _ rfl).2
    · exact absurd rfl (hrest _ rfl).1
    · rfl
  · rfl
  · rfl

theorem exists_isSign_append (s : Text) : ∃ sign rest, sign.IsSign ∧ s = sign ++ rest ∧
    takeSign s = (decide (sign = ['-']), rest) := by
  unfold takeSign
  split
  · exact ⟨['-'], _, .inr (.inr rfl), rfl, rfl⟩
  · exact ⟨['+'], _, .inr (.inl rfl), rfl, rfl⟩
  · exact ⟨[], _, .inl rfl, rfl, rfl⟩

/-! ## Mantissas -/

/-- A point and the digits behind it, or nothing. -/
inductive IsFraction : Option (List Nat) → Text → Prop
  | absent : IsFraction none []
  | present {digits : Text} {ds : List Nat} : digits.AreDigits ds →
      IsFraction (some ds) ('.' :: digits)

/-- A mantissa is digits and a fraction, not both empty. -/
theorem isMantissa_iff {whole : List Nat} {fraction : Option (List Nat)} {s : Text} :
    IsMantissa whole fraction s ↔ ∃ digits tail, s = digits ++ tail ∧ digits.AreDigits whole ∧
      IsFraction fraction tail ∧ ¬(whole = [] ∧ fraction.getD [] = []) := by
  constructor
  · rintro (⟨hds, hne⟩ | ⟨hds, hne, hds'⟩ | ⟨hds, hne⟩)
    · exact ⟨_, [], (List.append_nil _).symm, hds, .absent, fun h => hne h.1⟩
    · exact ⟨_, _, rfl, hds, .present hds', fun h => hne h.1⟩
    · exact ⟨[], _, rfl, .nil, .present hds, fun h => hne h.2⟩
  · rintro ⟨digits, _, rfl, hds, _ | hds', hne⟩
    · rw [List.append_nil]
      exact .whole hds fun h => hne ⟨h, rfl⟩
    · rcases eq_or_ne whole [] with rfl | hwhole
      · obtain rfl := List.forall₂_nil_right_iff.1 hds
        exact .fraction hds' fun h => hne ⟨rfl, h⟩
      · exact .pointed hds hwhole hds'

/-- The digits behind the point that a text begins with, if it does, and what follows. -/
def takeFraction : Text → Option (List Nat) × Text
  | '.' :: s => let (ds, s) := spanDigits digit? s; (some ds, s)
  | s => (none, s)

/-- A fraction is taken whole, if neither a point nor a digit follows it. -/
theorem takeFraction_append {fraction : Option (List Nat)} {tail rest : Text}
    (h : IsFraction fraction tail)
    (hrest : ∀ c ∈ rest.head?, c ≠ '.' ∧ ¬(digit? c).isSome) :
    takeFraction (tail ++ rest) = (fraction, rest) := by
  cases h with
  | absent =>
    rw [List.nil_append, takeFraction.eq_def]
    split
    · exact absurd rfl (hrest _ rfl).1
    · rfl
  | present hds =>
    rw [List.cons_append, takeFraction, spanDigits_append hds fun c hc => (hrest c hc).2]

/-- A fraction begins with no digit. -/
theorem IsFraction.head?_append {fraction : Option (List Nat)} {tail rest : Text}
    (h : IsFraction fraction tail) (hrest : ∀ c ∈ rest.head?, ¬(digit? c).isSome) :
    ∀ c ∈ (tail ++ rest).head?, ¬(digit? c).isSome := by
  cases h with
  | absent => exact hrest
  | present =>
    rintro c ⟨⟩
    exact Text.not_isSome_digit? (by simp)

/-- The fraction at the head, if there is one, and what it leaves. -/
theorem exists_isFraction_append (s : Text) : ∃ fraction tail rest, IsFraction fraction tail ∧
    s = tail ++ rest ∧ takeFraction s = (fraction, rest) := by
  unfold takeFraction
  split
  · rename_i s
    obtain ⟨digits, ds, rest, hds, rfl, hspan⟩ := exists_areDigits_append s
    exact ⟨some ds, '.' :: digits, rest, .present hds, rfl, by rw [hspan]⟩
  · exact ⟨none, [], _, .absent, rfl, rfl⟩

/-- A mantissa begins with no sign. -/
theorem IsMantissa.head?_ne {whole : List Nat} {fraction : Option (List Nat)} {mantissa : Text}
    (h : IsMantissa whole fraction mantissa) (rest : Text) :
    ∀ c ∈ (mantissa ++ rest).head?, c ≠ '+' ∧ c ≠ '-' := by
  have hdigit {digits : Text} {ds : List Nat} (hds : digits.AreDigits ds) (hne : ds ≠ [])
      (rest : Text) : ∀ c ∈ (digits ++ rest).head?, c ≠ '+' ∧ c ≠ '-' := by
    intro c hc
    rw [List.head?_append_of_ne_nil _ (hds.ne_nil hne)] at hc
    have hsome := hds.isSome_digit? c (List.mem_of_mem_head? hc)
    constructor <;> rintro rfl <;> exact absurd hsome (not_isSome_digit? (by simp))
  cases h with
  | whole hds hne => exact hdigit hds hne rest
  | pointed hds hne =>
    rw [List.append_assoc]
    exact hdigit hds hne _
  | fraction => simp

/-! ## Exponents -/

/-- An exponent begins with neither a point nor a digit. -/
theorem IsExponent.head?_ne {exponent : Option Int} {power : Text} (h : IsExponent exponent power) :
    ∀ c ∈ power.head?, c ≠ '.' ∧ ¬(digit? c).isSome := by
  cases h with
  | absent => simp
  | present hmark =>
    rintro c ⟨⟩
    rcases hmark with rfl | rfl <;> exact ⟨by decide, not_isSome_digit? (by simp)⟩

/-- **What follows the digits is read as an exponent** iff it is one. -/
theorem readExponent?_eq_some_iff {s : Text} {exponent : Option Int} :
    readExponent? digit? s = some exponent ↔ IsExponent exponent s := by
  constructor
  · intro h
    cases s with
    | nil =>
      obtain rfl := Option.some.inj h
      exact .absent
    | cons mark s =>
      rw [readExponent?] at h
      split_ifs at h with hmark
      obtain ⟨sign, rest, hsign, rfl, htake⟩ := exists_isSign_append s
      obtain ⟨digits, ds, rest, hds, rfl, hspan⟩ := exists_areDigits_append rest
      simp only [htake, hspan] at h
      split at h
      · rename_i d ds heq
        obtain ⟨rfl, rfl⟩ := Prod.mk.inj heq
        obtain rfl := Option.some.inj h
        rw [List.append_nil]
        exact .present hmark hsign hds (List.cons_ne_nil d ds)
      · exact absurd h (by simp)
  · rintro (_ | @⟨mark, sign, digits, ds, hmark, hsign, hds, hne⟩)
    · rfl
    · have hhead := (IsMantissa.whole hds hne).head?_ne []
      have hspan : spanDigits digit? (digits ++ []) = (ds, []) := spanDigits_append hds (by simp)
      rw [List.append_nil] at hhead hspan
      rw [readExponent?, if_pos hmark]
      simp only [takeSign_append hsign hhead, hspan]
      cases ds with
      | nil => exact absurd rfl hne
      | cons d ds => rfl

/-! ## Numerals -/

/-- The parts of a numeral are taken off one by one. -/
theorem read?_eq {s rest rest' rest'' : Text} {negative : Bool} {whole : List Nat}
    {fraction : Option (List Nat)} (hsign : takeSign s = (negative, rest))
    (hspan : spanDigits digit? rest = (whole, rest'))
    (hfraction : takeFraction rest' = (fraction, rest'')) :
    read? s = if whole = [] ∧ fraction.getD [] = [] then none
      else (readExponent? digit? rest'').map fun exponent =>
        ⟨negative, whole, fraction, exponent⟩ := by
  have hdef : read? s = if (spanDigits digit? (takeSign s).2).1 = [] ∧
        (takeFraction (spanDigits digit? (takeSign s).2).2).1.getD [] = [] then none
      else (readExponent? digit? (takeFraction (spanDigits digit? (takeSign s).2).2).2) >>=
        fun exponent => pure ⟨(takeSign s).1, (spanDigits digit? (takeSign s).2).1,
          (takeFraction (spanDigits digit? (takeSign s).2).2).1, exponent⟩ := rfl
  rw [hdef, hsign]
  simp only [hspan, hfraction, bind_pure_comp, Option.map_eq_map]

/-- **A text is read as a numeral iff the grammar derives it.** -/
theorem read?_eq_some_iff {s : Text} {n : Numeral} : read? s = some n ↔ n.IsWrittenAs s := by
  constructor
  · intro h
    obtain ⟨sign, rest, hsign, rfl, htake⟩ := exists_isSign_append s
    obtain ⟨digits, whole, rest, hds, rfl, hspan⟩ := exists_areDigits_append rest
    obtain ⟨fraction, tail, power, hfraction, rfl, htail⟩ := exists_isFraction_append rest
    rw [read?_eq htake hspan htail] at h
    split_ifs at h with hne
    obtain ⟨exponent, hexponent, rfl⟩ := Option.map_eq_some_iff.1 h
    rw [← List.append_assoc digits]
    exact .mk hsign (isMantissa_iff.2 ⟨digits, tail, rfl, hds, hfraction, hne⟩)
      (readExponent?_eq_some_iff.1 hexponent)
  · rintro @⟨sign, mantissa, power, whole, fraction, exponent, hsign, hmantissa, hexponent⟩
    have htake := takeSign_append hsign (hmantissa.head?_ne power)
    obtain ⟨digits, tail, rfl, hds, hfraction, hne⟩ := isMantissa_iff.1 hmantissa
    rw [List.append_assoc] at htake ⊢
    have hspan := spanDigits_append hds
      (hfraction.head?_append fun c hc => (hexponent.head?_ne c hc).2)
    have htail := takeFraction_append hfraction hexponent.head?_ne
    rw [read?_eq htake hspan htail, if_neg hne, readExponent?_eq_some_iff.2 hexponent,
      Option.map_some]

/-- **A numeral with neither point nor exponent is a sign and digits.** -/
theorem isWrittenAs_isWhole_iff {s : Text} {n : Numeral} : n.IsWrittenAs s ∧ n.isWhole ↔
    ∃ sign digits ds, s = sign ++ digits ∧ sign.IsSign ∧ digits.AreDigits ds ∧ ds ≠ [] ∧
      n = ⟨sign = ['-'], ds, none, none⟩ := by
  constructor
  · rintro ⟨⟨hsign, hmantissa, hexponent⟩, hwhole⟩
    simp only [isWhole, Bool.and_eq_true, Option.isNone_iff_eq_none] at hwhole
    obtain ⟨rfl, rfl⟩ := hwhole
    cases hexponent
    obtain ⟨hds, hne⟩ := hmantissa
    exact ⟨_, _, _, by rw [List.append_nil], hsign, hds, hne, rfl⟩
  · rintro ⟨sign, digits, ds, rfl, hsign, hds, hne, rfl⟩
    refine ⟨?_, rfl⟩
    simpa using IsWrittenAs.mk hsign (.whole hds hne) .absent

end Numeral

end Criteria
