import Criteria.Evaluate
import Criteria.Proofs.Numeral
import Criteria.Proofs.Rendering

/-!
# Proofs/Dropping — what a condition means once characters are dropped

A condition is an attribute, an operator and a literal, as they are written.  Of the operator only
the comparators are read, of the literal only the runs of word characters; everything else is
dropped.  The condition is true or false iff one comparator and one word are left
(`decides_condition_iff`), and the truth is that of the comparison these two write: dropping can
change it (`not_forall_compares`), but not if there is nothing to drop.
-/

namespace Criteria

open Token

/-! ## Words of joined words -/

namespace Text

theorem words_append {w rest : Text} (hne : w ≠ []) (hw : ∀ c ∈ w, !isBlank c)
    (hr : ∀ c ∈ rest.head?, (!isBlank c) = false) : words (w ++ rest) = w :: words rest := by
  cases w with
  | nil => exact absurd rfl hne
  | cons c cs =>
    have hcs : ∀ d ∈ cs, !isBlank d := fun d hd => hw d (List.mem_cons_of_mem _ hd)
    rw [List.cons_append, words, if_neg (by simpa using hw c List.mem_cons_self),
      takeWhile_append_of_head? hcs hr, dropWhile_append_of_head? hcs hr]

/-- **Words joined by single spaces are read back.** -/
theorem words_unwords {ws : List Text} (h : ∀ w ∈ ws, w ≠ [] ∧ ∀ c ∈ w, !isBlank c) :
    words (unwords ws) = ws := by
  induction ws with
  | nil => rw [unwords, words]
  | cons w ws ih =>
    obtain ⟨⟨hne, hw⟩, hws⟩ := List.forall_mem_cons.1 h
    cases ws with
    | nil =>
      have : words (w ++ []) = w :: words [] := words_append hne hw (by simp)
      rwa [List.append_nil, words] at this
    | cons v vs =>
      rw [unwords, words_append hne hw (by simp [show isBlank ' ' from rfl]), words,
        if_pos (by rfl), ih hws]
      exact List.cons_ne_nil _ _

end Text

/-! ## Conditions of words and comparators -/

theorem not_isBlank_of_isWordChar {c : Char} (h : isWordChar c) : !Text.isBlank c := by
  change (decide (65 ≤ c.val ∧ c.val ≤ 90) || decide (97 ≤ c.val) && decide (c.val ≤ 122) ||
    decide (48 ≤ c.val) && decide (c.val ≤ 57) || decide (c = '_')) = true at h
  simp only [Bool.or_eq_true, Bool.and_eq_true, decide_eq_true_eq, UInt32.le_iff_toNat_le] at h
  change (((65 ≤ c.toNat ∧ c.toNat ≤ 90) ∨ 97 ≤ c.toNat ∧ c.toNat ≤ 122) ∨
    48 ≤ c.toNat ∧ c.toNat ≤ 57) ∨ c = '_' at h
  rcases h with h | rfl
  · simp only [Text.isBlank, Bool.not_eq_true', Bool.or_eq_false_iff, Bool.and_eq_false_iff,
      decide_eq_false_iff_not, beq_eq_false_iff_ne]
    omega
  · rfl

/-- Only quoted literals hold blanks. -/
theorem Lexeme.WellFormed.not_isBlank {x : Lexeme} (hx : x.WellFormed) (hq : x.kind ≠ .quoted) :
    ∀ c ∈ x.text, !Text.isBlank c := by
  cases hx with
  | @word w hne hw => exact fun c hc => not_isBlank_of_isWordChar (hw c hc)
  | quoted => exact absurd rfl hq
  | @mark c kind h =>
    refine List.forall_mem_singleton.2 ?_
    rcases markKind?_eq_some_iff.1 h with ⟨rfl | rfl | rfl, -⟩ | ⟨rfl, -⟩ | ⟨rfl, -⟩ <;> rfl

/-- What a comparator says of a value and a literal, if it says anything: only equality has an
answer for two things that are not compared. -/
def Comparator.verdict? (comparator : Comparator) (value : Value) (literal : Literal) :
    Option Bool :=
  match literal.compareWith? value with
  | some order => some (order.any comparator.accepts)
  | none => if comparator = .equal then some false else none

/-- The value of the attribute `w` compares so with the literal that `m` writes, under the
comparator that `c` writes. -/
def Record.Compares (record : Record) (w c m : Text) (b : Bool) : Prop :=
  ∃ comparator literal value, Comparator.ofText? c = some comparator ∧
    Literal.read m = .ok literal ∧ record.find? w = some value ∧
      comparator.verdict? value literal = some b

/-- What compares is a comparator, and these have one character. -/
theorem Record.Compares.length_operator {record : Record} {w c m : Text} {b : Bool}
    (h : record.Compares w c m b) : c.length = 1 := by
  obtain ⟨comparator, -, -, hc, -⟩ := h
  unfold Comparator.ofText? at hc
  split_ifs at hc with h₁ h₂ h₃
  · rw [h₁, List.length_singleton]
  · rw [h₂, List.length_singleton]
  · rw [h₃, List.length_singleton]

/-- **When a condition has a truth value**: its attribute is there, its operator is a comparator,
and that has an answer. -/
theorem Condition.holds_eq_ok_iff {record : Record} {c : Condition} {b : Bool} :
    c.holds record = .ok b ↔ ∃ comparator value, Comparator.ofText? c.operator = some comparator ∧
      record.find? c.name = some value ∧ comparator.verdict? value c.literal = some b := by
  unfold holds
  cases record.find? c.name with
  | none => simp
  | some value =>
    cases Comparator.ofText? c.operator with
    | none => simp
    | some comparator =>
      simp only [Comparator.verdict?, Option.some.injEq, exists_eq_left', exists_and_left]
      cases c.literal.compareWith? value with
      | some order => simp
      | none => by_cases he : comparator = .equal <;> simp [he]

namespace Tree

/-- A rule is parsed under the limits, and has this truth for a record. -/
def Decides (limits : Limits) (record : Record) (rule : Text) (b : Bool) : Prop :=
  ∃ tree, parse limits rule = .ok tree ∧ tree.evaluate record = .ok b

/-- **A clause of plain words is decided iff it has three**, by the comparison they write. -/
theorem evaluate_unwords_eq_ok_iff {record : Record} {ws : List Text} {b : Bool}
    (h : ∀ w ∈ ws, w ≠ [] ∧ ∀ c ∈ w, !Text.isBlank c) :
    (operand (Text.unwords ws)).evaluate record = .ok b ↔
      ∃ w c m, ws = [w, c, m] ∧ record.Compares w c m b := by
  rw [evaluate, evaluateClause, Outcome.bind_eq_ok_iff, Condition.read, Text.words_unwords h]
  simp only [Outcome.mapError_eq_ok_iff, Condition.holds_eq_ok_iff]
  split
  · rename_i w c m
    simp only [Outcome.bind_eq_ok_iff, Outcome.pure_eq_ok_iff]
    constructor
    · rintro ⟨_, ⟨literal, hl, rfl⟩, comparator, value, hc, hv, hb⟩
      exact ⟨w, c, m, rfl, comparator, literal, value, hc, hl, hv, hb⟩
    · rintro ⟨_, _, _, he, comparator, literal, value, hc, hl, hv, hb⟩
      obtain ⟨rfl, rfl, rfl⟩ := by simpa using he
      exact ⟨_, ⟨literal, hl, rfl⟩, comparator, value, hc, hv, hb⟩
  · rename_i hne
    refine iff_of_false (by simp) ?_
    rintro ⟨w, c, m, rfl, -⟩
    exact hne w c m rfl

/-- **A rule of words and comparators** is a single condition. -/
theorem decides_iff_of_plain {limits : Limits} {record : Record} {rule : Text} {b : Bool}
    (h : ∀ x ∈ rule.lexemes, x.kind = .word ∨ x.kind = .comparator) :
    Decides limits record rule b ↔
      (rule.length : Int) ≤ limits.ruleLength ∧ 1 ≤ limits.nodes ∧ 1 ≤ limits.depth ∧
        ∃ w c m, rule.lexemes.map Lexeme.text = [w, c, m] ∧ record.Compares w c m b := by
  have hx : ∀ x ∈ rule.lexemes, x.WellFormed := fun _ => Text.wellFormed_of_mem_lexemes
  have hp : ∀ x ∈ rule.lexemes, x.isParen = false := fun x hm => by
    rcases h x hm with hk | hk <;> simp [Lexeme.isParen, hk]
  have hk : ∀ x ∈ rule.lexemes, x.isKeyword = false := fun x hm => by
    rcases h x hm with hk | hk <;> simp [Lexeme.isKeyword, hk]
  have hwords : ∀ v ∈ rule.lexemes.map Lexeme.text, v ≠ [] ∧ ∀ c ∈ v, !Text.isBlank c := by
    intro v hv
    obtain ⟨x, hm, rfl⟩ := List.mem_map.1 hv
    have hq : x.kind ≠ .quoted := by rcases h x hm with hk | hk <;> simp [hk]
    exact ⟨(hx x hm).text_ne_nil, (hx x hm).not_isBlank hq⟩
  rw [← evaluate_unwords_eq_ok_iff hwords]
  simp only [Decides, parse_eq_ok_iff, Group.exists_builds_iff_of_plain hx hp hk]
  constructor
  · rintro ⟨_, ⟨hlen, ⟨-, rfl⟩, hsize, hdepth⟩, he⟩
    exact ⟨hlen, hsize, hdepth, he⟩
  · rintro ⟨hlen, hsize, hdepth, he⟩
    obtain ⟨w, c, m, heq, -⟩ := (evaluate_unwords_eq_ok_iff hwords).1 he
    have h3 : rule.lexemes.length = 3 := by simpa using congrArg List.length heq
    exact ⟨_, ⟨hlen, ⟨by omega, rfl⟩, hsize, hdepth⟩, he⟩

end Tree

/-! ## What is kept -/

namespace Text

/-- The comparators in a text, each by itself. -/
def comparators (o : Text) : List Text :=
  (o.filter fun c => markKind? c = some .comparator).map ([·])

/-- The maximal runs of word characters, in order. -/
def wordRuns (l : Text) : List Text := (l.splitOnP (!isWordChar ·)).filter (· ≠ [])

/-- A character that is in no word separates the runs of what stands before it from those after. -/
theorem wordRuns_append_cons {c : Char} (hc : isWordChar c = false) (s t : Text) :
    wordRuns (s ++ c :: t) = wordRuns s ++ wordRuns t := by
  rw [wordRuns, List.splitOnP_append_cons s t (by simp [hc]), List.filter_append]
  rfl

@[simp] theorem wordRuns_nil : wordRuns [] = [] := by
  rw [wordRuns, List.splitOnP_nil]
  rfl

theorem wordRuns_cons {c : Char} (hc : isWordChar c = false) (s : Text) :
    wordRuns (c :: s) = wordRuns s := by
  have := wordRuns_append_cons hc [] s
  rwa [wordRuns_nil] at this

theorem wordRuns_word {w : Text} (hne : w ≠ []) (hw : ∀ c ∈ w, isWordChar c) :
    wordRuns w = [w] := by
  rw [wordRuns, List.splitOnP_eq_singleton fun c hc => by simp [hw c hc]]
  simp [hne]

/-- A run of word characters that is not continued is the first one. -/
theorem wordRuns_word_append {w rest : Text} (hne : w ≠ []) (hw : ∀ c ∈ w, isWordChar c)
    (hr : rest.Breaks) : wordRuns (w ++ rest) = w :: wordRuns rest := by
  cases rest with
  | nil => rw [List.append_nil, wordRuns_nil, wordRuns_word hne hw]
  | cons c rest =>
    have hc : isWordChar c = false := hr c rfl
    rw [wordRuns_append_cons hc, wordRuns_cons hc, wordRuns_word hne hw, List.singleton_append]

/-- **Of a text without quotes and marks, the runs of word characters are read.** -/
theorem lexemes_of_unmarked {l : Text} (h : ∀ c ∈ l, isQuote c = false ∧ markKind? c = none) :
    l.lexemes = l.wordRuns.map fun w => ⟨wordKind w, w⟩ := by
  induction l using scan_induction with
  | nil => rw [lexemes_nil, wordRuns_nil, List.map_nil]
  | word w rest hne hw hr ih =>
    rw [lexemes_word hne hw hr, wordRuns_word_append hne hw hr, List.map_cons,
      ih fun c hc => h c (List.mem_append_right _ hc)]
  | quoted => exact absurd (h '\'' List.mem_cons_self).1 (by decide)
  | mark c kind rest hm => exact absurd (h c List.mem_cons_self).2 (by simp [hm])
  | dropped c rest hw hm hq ih =>
    rw [lexemes_dropped hw hm hq, wordRuns_cons hw, ih fun d hd => h d (List.mem_cons_of_mem _ hd)]

end Text

/-! ## Characters of numerals -/

namespace Numeral

/-- A character that numerals are made of. -/
def isPart (c : Char) : Bool := (Text.digit? c).isSome || c ∈ ['+', '-', '.', 'e', 'E']

theorem isPart_of_areDigits {digits : Text} {ds : List Nat} (h : digits.AreDigits ds) :
    ∀ c ∈ digits, isPart c := fun c hc => by simp [isPart, h.isSome_digit? c hc]

theorem isPart_of_isSign {sign : Text} (h : sign.IsSign) : ∀ c ∈ sign, isPart c := by
  rcases h with rfl | rfl | rfl <;> simp [isPart]

/-- **Every character of a numeral is a digit, a sign, a point or the mark of an exponent.** -/
theorem isPart_of_read? {s : Text} {n : Numeral} (h : read? s = some n) : ∀ c ∈ s, isPart c := by
  obtain ⟨hsign, hmantissa, hexponent⟩ := read?_eq_some_iff.1 h
  have hpoint : isPart '.' := by simp [isPart]
  refine List.forall_mem_append.2 ⟨isPart_of_isSign hsign, List.forall_mem_append.2 ⟨?_, ?_⟩⟩
  · cases hmantissa with
    | whole hds => exact isPart_of_areDigits hds
    | pointed hds _ hds' =>
      exact List.forall_mem_append.2
        ⟨isPart_of_areDigits hds, List.forall_mem_cons.2 ⟨hpoint, isPart_of_areDigits hds'⟩⟩
    | fraction hds => exact List.forall_mem_cons.2 ⟨hpoint, isPart_of_areDigits hds⟩
  · cases hexponent with
    | absent => exact fun c hc => absurd hc List.not_mem_nil
    | present hmark hsign hds =>
      refine List.forall_mem_cons.2 ⟨by rcases hmark with rfl | rfl <;> simp [isPart], ?_⟩
      exact List.forall_mem_append.2 ⟨isPart_of_isSign hsign, isPart_of_areDigits hds⟩

end Numeral

/-- **Every character of a number is one of a numeral**, a line feed at its end apart. -/
theorem Literal.isPart_of_read {l : Text} {n : Number} (h : Literal.read l = .ok (.number n)) :
    ∀ c ∈ l, Numeral.isPart c ∨ c = '\n' := by
  have hparts : ∀ c ∈ dropFinalNewline l, Numeral.isPart c := by
    unfold Literal.read at h
    split at h
    · exact absurd h (by simp)
    · rename_i numeral hn
      exact Numeral.isPart_of_read? hn
  intro c hc
  unfold dropFinalNewline at hparts
  split_ifs at hparts with hlast
  · rw [← List.dropLast_append_getLast? _ hlast, List.mem_append, List.mem_singleton] at hc
    exact hc.imp_left (hparts c)
  · exact .inl (hparts c hc)

/-! ## Names, operators and literals -/

namespace Text

/-- A word that is no keyword. -/
structure IsName (w : Text) : Prop where
  ne_nil : w ≠ []
  isWordChar_of_mem : ∀ c ∈ w, isWordChar c
  not_isConnective : isConnective w = false

/-- A character that is no blank and stands outside of words, literals and parentheses. -/
def isSymbol (c : Char) : Bool :=
  !isBlank c && !isWordChar c && !isQuote c && c ≠ '(' && c ≠ ')'

/-- What stands between a name and a literal. -/
structure IsOperator (o : Text) : Prop where
  ne_nil : o ≠ []
  isSymbol_of_mem : ∀ c ∈ o, isSymbol c

/-- A name, or a text that is read as a number. -/
def IsLiteral (l : Text) : Prop := l.IsName ∨ ∃ n, Literal.read l = .ok (.number n)

variable {w o l : Text}

/-- A name is one lexeme. -/
theorem IsName.lexemes_append {rest : Text} (h : w.IsName) (hr : rest.Breaks) :
    lexemes (w ++ rest) = ⟨.word, w⟩ :: lexemes rest := by
  rw [lexemes_word h.ne_nil h.isWordChar_of_mem hr, wordKind_eq_word_iff.2 h.not_isConnective]

/-- **Of an operator, the comparators are read.** -/
theorem lexemes_symbols_append (h : ∀ c ∈ o, isSymbol c) (rest : Text) :
    lexemes (o ++ rest) = o.comparators.map (⟨.comparator, ·⟩) ++ lexemes rest := by
  induction o with
  | nil => rfl
  | cons c o ih =>
    obtain ⟨hc, ho⟩ := List.forall_mem_cons.1 h
    simp only [isSymbol, Bool.and_eq_true, Bool.not_eq_true', decide_eq_true_eq] at hc
    obtain ⟨⟨⟨⟨-, hw⟩, hq⟩, h₁⟩, h₂⟩ := hc
    rw [List.cons_append]
    cases hm : markKind? c with
    | none =>
      rw [lexemes_dropped hw hm (by simp [hq]), ih ho]
      simp [comparators, hm]
    | some kind =>
      obtain rfl : kind = .comparator := by
        have := markKind?_eq_some_iff.1 hm
        tauto
      rw [lexemes_mark _ hm, ih ho]
      simp [comparators, hm]

theorem IsLiteral.ne_nil (h : l.IsLiteral) : l ≠ [] := by
  rcases h with h | ⟨n, h⟩
  · exact h.ne_nil
  · rintro rfl
    exact absurd h (by rw [show Literal.read [] = .ok (.text []) from rfl]; simp)

/-- An unquoted literal has no quote, comparator or parenthesis in it. -/
theorem IsLiteral.unmarked (h : l.IsLiteral) : ∀ c ∈ l, isQuote c = false ∧ markKind? c = none := by
  intro c hc
  rcases h with h | ⟨n, h⟩
  · have hw := h.isWordChar_of_mem c hc
    refine ⟨not_isQuote_of_isWordChar hw, Option.eq_none_iff_forall_ne_some.2 fun kind hm => ?_⟩
    simp [not_isWordChar_of_markKind? hm] at hw
  · have hpart := Literal.isPart_of_read h c hc
    constructor
    · by_contra hq
      obtain rfl : c = '\'' := by simpa [isQuote] using hq
      exact absurd hpart (by decide)
    · refine Option.eq_none_iff_forall_ne_some.2 fun kind hm => absurd hpart ?_
      rcases markKind?_eq_some_iff.1 hm with ⟨rfl | rfl | rfl, -⟩ | ⟨rfl, -⟩ | ⟨rfl, -⟩ <;> decide

/-- No run of word characters in a literal is a keyword: numerals have no letters for one. -/
theorem IsLiteral.not_isConnective (h : l.IsLiteral) :
    ∀ m ∈ l.wordRuns, isConnective m = false := by
  intro m hm
  have hmem : ∀ c ∈ m, c ∈ l := fun c hc => by
    have hx : (⟨wordKind m, m⟩ : Lexeme) ∈ l.lexemes :=
      lexemes_of_unmarked h.unmarked ▸ List.mem_map.2 ⟨m, hm, rfl⟩
    exact mem_of_mem_lexemes hx hc
  rcases h with h | ⟨n, h⟩
  · rw [wordRuns_word h.ne_nil h.isWordChar_of_mem] at hm
    obtain rfl := List.mem_singleton.1 hm
    exact h.not_isConnective
  · by_contra hk
    simp only [isConnective, Bool.not_eq_false, Bool.or_eq_true, decide_eq_true_eq] at hk
    rcases hk with rfl | rfl
    · exact absurd (Literal.isPart_of_read h 'A' (hmem 'A' (by decide))) (by decide)
    · exact absurd (Literal.isPart_of_read h 'O' (hmem 'O' (by decide))) (by decide)

/-- **Of a literal, the runs of word characters are read.** -/
theorem IsLiteral.lexemes_eq (h : l.IsLiteral) : l.lexemes = l.wordRuns.map (⟨.word, ·⟩) := by
  rw [lexemes_of_unmarked h.unmarked]
  refine List.map_congr_left fun m hm => ?_
  rw [wordKind_eq_word_iff.2 (h.not_isConnective m hm)]

/-- If nothing is dropped, an operator and a literal are left iff the operator is one character. -/
theorem comparators_append_wordRuns_iff (ho : ∀ c ∈ o, markKind? c = some .comparator)
    (hne : l ≠ []) (hl : ∀ c ∈ l, isWordChar c) {c m : Text} :
    o.comparators ++ l.wordRuns = [c, m] ↔ o.length = 1 ∧ c = o ∧ m = l := by
  have hkept : o.comparators = o.map ([·]) := by
    rw [comparators, List.filter_eq_self.2 fun d hd => by simp [ho d hd]]
  rw [hkept, wordRuns_word hne hl]
  match o with
  | [] => simp
  | [d] => simp [eq_comm]
  | _ :: _ :: _ => simp

/-- **What is read of a condition as it is written.** -/
theorem lexemes_condition (hw : w.IsName) (ho : o.IsOperator) (hl : l.IsLiteral) :
    lexemes (unwords [w, o, l]) =
      ⟨.word, w⟩ :: (o.comparators.map (⟨.comparator, ·⟩) ++ l.wordRuns.map (⟨.word, ·⟩)) := by
  have hspace (s : Text) : Breaks (' ' :: s) := breaks_cons (by decide)
  rw [unwords, unwords, unwords, hw.lexemes_append (hspace _), lexemes_space,
    lexemes_symbols_append ho.isSymbol_of_mem, lexemes_space, hl.lexemes_eq]
  all_goals exact List.cons_ne_nil _ _

/-- A condition has no keyword among its lexemes, so it is read as one operand. -/
theorem kind_of_mem_lexemes_condition (hw : w.IsName) (ho : o.IsOperator) (hl : l.IsLiteral) :
    ∀ x ∈ lexemes (unwords [w, o, l]), x.kind = .word ∨ x.kind = .comparator := by
  rw [lexemes_condition hw ho hl]
  simp only [List.mem_cons, List.mem_append, List.mem_map]
  rintro x (rfl | ⟨c, -, rfl⟩ | ⟨m, -, rfl⟩)
  · exact .inl rfl
  · exact .inr rfl
  · exact .inl rfl

/-- **What is left of a condition**: its name, the comparators of its operator and the runs of word
characters of its literal. -/
theorem map_text_lexemes_condition (hw : w.IsName) (ho : o.IsOperator) (hl : l.IsLiteral) :
    (lexemes (unwords [w, o, l])).map Lexeme.text = w :: (o.comparators ++ l.wordRuns) := by
  simp [lexemes_condition hw ho hl, Function.comp_def]

end Text

namespace Tree

/-- **What a condition means once characters are dropped.**  It is decided iff one comparator and
one word are left of its operator and its literal, by the comparison these two write.  If the
operator has comparators alone and the literal word characters alone, nothing is dropped, and the
condition is decided iff its operator is one comparator, by the comparison it writes itself. -/
theorem decides_condition_iff (limits : Limits) (record : Record) {w o l : Text} (hw : w.IsName)
    (ho : o.IsOperator) (hl : l.IsLiteral) (b : Bool) :
    (Decides limits record (Text.unwords [w, o, l]) b ↔
      ((Text.unwords [w, o, l]).length : Int) ≤ limits.ruleLength ∧ 1 ≤ limits.nodes ∧
        1 ≤ limits.depth ∧ ∃ c m, o.comparators ++ l.wordRuns = [c, m] ∧ record.Compares w c m b) ∧
    ((∀ c ∈ o, markKind? c = some .comparator) → (∀ c ∈ l, isWordChar c) →
      (Decides limits record (Text.unwords [w, o, l]) b ↔
        ((Text.unwords [w, o, l]).length : Int) ≤ limits.ruleLength ∧ 1 ≤ limits.nodes ∧
          1 ≤ limits.depth ∧ record.Compares w o l b)) := by
  have hdecides : Decides limits record (Text.unwords [w, o, l]) b ↔
      ((Text.unwords [w, o, l]).length : Int) ≤ limits.ruleLength ∧ 1 ≤ limits.nodes ∧
        1 ≤ limits.depth ∧ ∃ c m, o.comparators ++ l.wordRuns = [c, m] ∧
          record.Compares w c m b := by
    rw [decides_iff_of_plain (Text.kind_of_mem_lexemes_condition hw ho hl),
      Text.map_text_lexemes_condition hw ho hl]
    refine and_congr_right fun _ => and_congr_right fun _ => and_congr_right fun _ => ?_
    constructor
    · rintro ⟨w', c, m, heq, hc⟩
      obtain ⟨rfl, hkept⟩ := List.cons.inj heq
      exact ⟨c, m, hkept, hc⟩
    · rintro ⟨c, m, heq, hc⟩
      exact ⟨w, c, m, by rw [heq], hc⟩
  refine ⟨hdecides, fun hmarks hword => ?_⟩
  rw [hdecides]
  simp only [Text.comparators_append_wordRuns_iff hmarks hl.ne_nil hword]
  constructor
  · rintro ⟨hlen, hsize, hdepth, c, m, ⟨-, rfl, rfl⟩, hc⟩
    exact ⟨hlen, hsize, hdepth, hc⟩
  · rintro ⟨hlen, hsize, hdepth, hc⟩
    exact ⟨hlen, hsize, hdepth, o, l, ⟨hc.length_operator, rfl, rfl⟩, hc⟩

/-- Of `!=` and `5.` the equality and the number are left. -/
theorem decides_condition_not_equal :
    Text.IsName "a".toList ∧ Text.IsOperator "!=".toList ∧ Text.IsLiteral "5.".toList ∧
      Decides {} [("a".toList, .int 5)] (Text.unwords ["a".toList, "!=".toList, "5.".toList])
        true := by
  have hw : Text.IsName "a".toList := ⟨by decide, List.all_eq_true.1 rfl, rfl⟩
  have ho : Text.IsOperator "!=".toList := ⟨by decide, List.all_eq_true.1 rfl⟩
  have hl : Text.IsLiteral "5.".toList :=
    .inr ⟨.float (Numeral.toBinary64 ⟨false, [5], some [], none⟩), rfl⟩
  refine ⟨hw, ho, hl, (decides_condition_iff _ _ hw ho hl _).1.2 ⟨by decide, by decide, by decide,
    ['='], ['5'], by decide, .equal, .number (.int 5), .int 5, rfl, rfl, rfl,
    by decide +kernel⟩⟩

/-- **Dropping can change what a condition means**: of `d > -2` it leaves `d > 2`. -/
theorem not_forall_compares :
    ¬∀ (limits : Limits) (record : Record) (w o l : Text) (b : Bool), w.IsName → o.IsOperator →
      l.IsLiteral → Decides limits record (Text.unwords [w, o, l]) b → record.Compares w o l b := by
  intro h
  have hread : Literal.read "-2".toList = .ok (.number (.int (-2))) := rfl
  obtain ⟨comparator, literal, value, hc, hl, hv, hb⟩ :=
    h {} [("d".toList, .int 0)] "d".toList ">".toList "-2".toList false
      ⟨by decide, List.all_eq_true.1 rfl, rfl⟩ ⟨by decide, List.all_eq_true.1 rfl⟩
      (.inr ⟨_, hread⟩)
      ⟨.operand "d > 2".toList, by decide +kernel, by decide +kernel⟩
  obtain rfl : Comparator.greater = comparator := Option.some.inj hc
  obtain rfl : Literal.number (.int (-2)) = literal := Except.ok.inj (hread.symm.trans hl)
  obtain rfl : Value.int 0 = value := Option.some.inj hv
  exact absurd hb (by decide +kernel)

end Tree

end Criteria
