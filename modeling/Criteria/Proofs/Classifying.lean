import Criteria.Proofs.Deciding

/-!
# Proofs/Classifying — which literal a word is

A word is a number iff it is a numeral by the grammar of `Numeral.IsWrittenAs`, with at most one
line feed behind it: a whole number if it is digits after a sign, unless these are too many to be
read, and a float otherwise.  Every other word is a text, without a quote at either end.  So each
outcome of `Literal.read` is known from the word alone: `Literal.read_iff`.
-/

namespace Criteria

namespace Literal

variable {raw : Text}

/-! ## The forms of a literal -/

/-- The word writes the numeral, with at most one line feed behind it. -/
def IsNumeral (raw : Text) (n : Numeral) : Prop :=
  ∃ s, (raw = s ∨ raw = s ++ ['\n']) ∧ n.IsWrittenAs s

/-- **The word is a whole number**: digits of these values after a sign, with at most one line feed
behind them.  Leading zeros count among the digits. -/
inductive IsWhole (raw : Text) (count : Nat) (value : Int) : Prop
  | mk {sign digits : Text} {ds : List Nat} :
      raw = sign ++ digits ∨ raw = sign ++ digits ++ ['\n'] → sign.IsSign →
      digits.AreDigits ds → ds ≠ [] → digits.length = count →
      (if sign = ['-'] then -1 else 1) * ((Nat.ofDigits 10 ds.reverse : Nat) : Int) = value →
      IsWhole raw count value

/-- **The text is the word without a quote at its start, and then without one at its end.** -/
def IsUnquoted (raw s : Text) : Prop :=
  ∃ t, (raw = '\'' :: t ∨ raw = t ∧ t.head? ≠ some '\'') ∧
    (t = s ++ ['\''] ∨ t = s ∧ s.getLast? ≠ some '\'')

/-! ## Numbers -/

/-- A numeral has no line feed at its end. -/
theorem isNumeral_iff {n : Numeral} : IsNumeral raw n ↔ n.IsWrittenAs (dropFinalNewline raw) := by
  have hlast {s : Text} (h : n.IsWrittenAs s) : s.getLast? ≠ some '\n' := fun hs => by
    have hpart := Numeral.isPart_of_read? (Numeral.read?_eq_some_iff.2 h) _
      (List.mem_of_getLast? hs)
    exact absurd hpart (by decide)
  rw [dropFinalNewline]
  constructor
  · rintro ⟨s, rfl | rfl, h⟩
    · rwa [if_neg (hlast h)]
    · rwa [if_pos List.getLast?_concat, List.dropLast_concat]
  · intro h
    split_ifs at h with hraw
    · exact ⟨_, .inr (List.dropLast_append_getLast? _ hraw).symm, h⟩
    · exact ⟨raw, .inl rfl, h⟩

/-- A word is one numeral at most. -/
theorem eq_or_forall_not_isNumeral (raw : Text) :
    (∃ n, ∀ m, IsNumeral raw m ↔ m = n) ∨ ∀ n, ¬IsNumeral raw n := by
  simp only [isNumeral_iff, ← Numeral.read?_eq_some_iff]
  cases Numeral.read? (dropFinalNewline raw) with
  | none => exact .inr fun n => nofun
  | some n => exact .inl ⟨n, fun m => by rw [Option.some.injEq, eq_comm]⟩

/-- What is read of a word that is a numeral. -/
theorem read_of_isNumeral {n : Numeral} (h : IsNumeral raw n) :
    read raw = if n.isWhole then
        if n.whole.length ≤ Text.maxDigits then .ok (number (.int n.toInt))
        else .error .tooManyDigits
      else .ok (number (.float n.toBinary64)) := by
  rw [read, Numeral.read?_eq_some_iff.2 (isNumeral_iff.1 h)]

theorem read_of_not_isNumeral (h : ∀ n, ¬IsNumeral raw n) :
    read raw = .ok (text (unquote raw)) := by
  have hnone : Numeral.read? (dropFinalNewline raw) = none :=
    Option.eq_none_iff_forall_ne_some.2 fun n hn =>
      h n (isNumeral_iff.2 (Numeral.read?_eq_some_iff.1 hn))
  rw [read, hnone]

/-- **Whole numbers are the numerals with neither point nor exponent.** -/
theorem isWhole_iff {count : Nat} {value : Int} : IsWhole raw count value ↔
    ∃ n, IsNumeral raw n ∧ n.isWhole ∧ n.whole.length = count ∧ n.toInt = value := by
  have hvalue (sign : Text) (ds : List Nat) :
      Numeral.toInt ⟨sign = ['-'], ds, none, none⟩ =
        (if sign = ['-'] then -1 else 1) * ((Nat.ofDigits 10 ds.reverse : Nat) : Int) := by
    simp only [Numeral.toInt, signed_eq, Text.ofDigits_eq, decide_eq_true_eq]
  constructor
  · rintro ⟨hraw, hsign, hds, hne, hcount, rfl⟩
    obtain ⟨hwritten, hwhole⟩ := Numeral.isWrittenAs_isWhole_iff.2
      ⟨_, _, _, rfl, hsign, hds, hne, rfl⟩
    exact ⟨_, ⟨_, hraw, hwritten⟩, hwhole, hds.length_eq ▸ hcount, hvalue _ _⟩
  · rintro ⟨n, ⟨s, hraw, hwritten⟩, hwhole, hcount, rfl⟩
    obtain ⟨sign, digits, ds, rfl, hsign, hds, hne, rfl⟩ :=
      Numeral.isWrittenAs_isWhole_iff.1 ⟨hwritten, hwhole⟩
    exact ⟨hraw, hsign, hds, hne, hds.length_eq ▸ hcount, (hvalue _ _).symm⟩

/-! ## Texts -/

theorem isUnquoted_iff {s : Text} : IsUnquoted raw s ↔ unquote raw = s := by
  rw [unquote]
  constructor
  · rintro ⟨t, hstart, hend⟩
    have ht : (if raw.head? = some '\'' then raw.tail else raw) = t := by
      rcases hstart with rfl | ⟨rfl, hhead⟩
      · exact if_pos rfl
      · exact if_neg hhead
    rw [ht]
    rcases hend with rfl | ⟨rfl, hlast⟩
    · exact (if_pos List.getLast?_concat).trans List.dropLast_concat
    · exact if_neg hlast
  · rintro rfl
    refine ⟨if raw.head? = some '\'' then raw.tail else raw, ?_, ?_⟩
    · split_ifs with hhead
      · exact .inl (List.eq_cons_of_mem_head? hhead)
      · exact .inr ⟨rfl, hhead⟩
    · generalize (if raw.head? = some '\'' then raw.tail else raw) = t
      split_ifs with hlast
      · exact .inl (List.dropLast_append_getLast? _ hlast).symm
      · exact .inr ⟨rfl, hlast⟩

/-- A numeral begins with no quote. -/
theorem not_isNumeral_quote (rest : Text) (n : Numeral) : ¬IsNumeral ('\'' :: rest) n := by
  rintro ⟨s, hraw, h⟩
  have hparts := Numeral.isPart_of_read? (Numeral.read?_eq_some_iff.2 h)
  have hmem : '\'' ∈ s := by
    rcases hraw with rfl | hraw
    · exact List.mem_cons_self
    · have hquote : '\'' ∈ s ++ ['\n'] := hraw ▸ List.mem_cons_self
      simpa using hquote
  exact absurd (hparts _ hmem) (by decide)

/-! ## Literals -/

/-- **Which literal a word is.**  It is a number, or a whole number that cannot be read, iff it is a
numeral.  It is a whole number iff it is a sign and digits, of which there are not too many, and has
the value that these denote; with too many of them, and only then, it is no literal.  Any other
numeral is a float, the one that is nearest to its value, and any other word is a text: the word
without quotes at its ends.  So a word that begins with a quote is never a number. -/
theorem read_iff :
    (∀ raw,
      (((∃ n, read raw = .ok (number n)) ∨ ∃ e, read raw = .error e) ↔ ∃ n, IsNumeral raw n) ∧
      (∀ k, read raw = .ok (number (.int k)) ↔
        ∃ count ≤ Text.maxDigits, IsWhole raw count k) ∧
      (∀ e, read raw = .error e ↔
        e = .tooManyDigits ∧ ∃ count > Text.maxDigits, ∃ k, IsWhole raw count k) ∧
      (∀ x, read raw = .ok (number (.float x)) ↔
        ∃ n, IsNumeral raw n ∧ ¬n.isWhole ∧ n.toBinary64 = x) ∧
      ∀ s, read raw = .ok (text s) ↔ (∀ n, ¬IsNumeral raw n) ∧ IsUnquoted raw s) ∧
    ∀ rest n, read ('\'' :: rest) ≠ .ok (number n) := by
  refine ⟨fun raw => ?_, fun rest n hn => ?_⟩
  · simp only [isWhole_iff]
    rcases eq_or_forall_not_isNumeral raw with ⟨n, hn⟩ | hnone
    · rw [read_of_isNumeral ((hn n).2 rfl)]
      simp only [hn, exists_eq_left]
      split_ifs with hwhole hlen
      · simp [hwhole, hlen]
      · simp [hwhole, hlen, Nat.not_le.1 hlen, eq_comm]
      · simp [hwhole]
    · simp [read_of_not_isNumeral hnone, hnone, isUnquoted_iff]
  · rw [read_of_not_isNumeral (not_isNumeral_quote rest)] at hn
    exact absurd hn (by simp)

example : ["1e", ".", "1_0", "inf", "1.2.3"].all fun s =>
    read s.toList = .ok (text s.toList) := by decide +kernel

example : read "+٠4२\n".toList = .ok (number (.int 42)) := by decide +kernel

end Literal

end Criteria
