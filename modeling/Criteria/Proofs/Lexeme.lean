import Criteria.Token
import Mathlib.Data.List.Basic

/-!
# Proofs/Lexeme — the tokens of a rule, and the texts that give them back

A *lexeme* is a token without its position.  Every lexeme of a text is well-formed
(`wellFormed_of_mem_lexemes`), and well-formed lexemes written with single spaces between them are
the lexemes of what was written (`lexemes_unwords`): spaces are a normal form of a rule.
-/

namespace Criteria

/-- A token without its position. -/
structure Lexeme where
  kind : Token.Kind
  text : Text
  deriving DecidableEq, Repr

/-- The token without its position. -/
def Token.lexeme (t : Token) : Lexeme := ⟨t.kind, t.value⟩

/-- The tokens of a text, without their positions. -/
def Text.lexemes (s : Text) : List Lexeme := (Token.scan s).map Token.lexeme

open Token

namespace Lexeme

/-- **The text has the form of the kind**: one case for every way to read a token. -/
inductive WellFormed : Lexeme → Prop
  | word {w : Text} : w ≠ [] → (∀ c ∈ w, isWordChar c) → WellFormed ⟨wordKind w, w⟩
  | quoted {body : Text} : body ≠ [] → (∀ c ∈ body, !isQuote c) →
      WellFormed ⟨.quoted, '\'' :: body ++ ['\'']⟩
  | mark {c : Char} {kind : Kind} : markKind? c = some kind → WellFormed ⟨kind, [c]⟩

/-- One of the two connectives. -/
def isKeyword (x : Lexeme) : Bool := x.kind = .and || x.kind = .or

/-- One of the two parentheses. -/
def isParen (x : Lexeme) : Bool := x.kind = .opening || x.kind = .closing

end Lexeme

/-! ## Characters -/

theorem wordChar_of_mem_connective {w : Text} (h : isConnective w) : ∀ c ∈ w, isWordChar c := by
  have : w = andWord ∨ w = orWord := by simpa [isConnective] using h
  rcases this with rfl | rfl <;> exact List.all_eq_true.1 rfl

theorem not_isQuote_of_isWordChar {c : Char} (h : isWordChar c) : isQuote c = false := by
  by_contra hq
  obtain rfl : c = '\'' := by simpa [isQuote] using hq
  exact absurd h (by decide)

theorem wordKind_eq_word_iff {w : Text} : wordKind w = .word ↔ isConnective w = false := by
  unfold wordKind isConnective
  split_ifs <;> simp_all

/-- The marks are the three comparators and the two parentheses. -/
theorem markKind?_eq_some_iff {c : Char} {kind : Kind} :
    markKind? c = some kind ↔
      ((c = '>' ∨ c = '<' ∨ c = '=') ∧ kind = .comparator) ∨ (c = '(' ∧ kind = .opening) ∨
        (c = ')' ∧ kind = .closing) := by
  unfold markKind?
  split_ifs <;> grind

theorem not_isWordChar_of_markKind? {c : Char} {kind : Kind} (h : markKind? c = some kind) :
    isWordChar c = false := by
  rcases markKind?_eq_some_iff.1 h with ⟨rfl | rfl | rfl, -⟩ | ⟨rfl, -⟩ | ⟨rfl, -⟩ <;> decide

theorem not_isQuote_of_markKind? {c : Char} {kind : Kind} (h : markKind? c = some kind) :
    isQuote c = false := by
  rcases markKind?_eq_some_iff.1 h with ⟨rfl | rfl | rfl, -⟩ | ⟨rfl, -⟩ | ⟨rfl, -⟩ <;> decide

/-! ## One token at a time

What follows a word must not continue it; `Text.Breaks` says so. -/

/-- The text does not begin with a word character. -/
def Text.Breaks (s : Text) : Prop := ∀ c ∈ s.head?, isWordChar c = false

@[simp] theorem Text.breaks_nil : Text.Breaks [] := by simp [Text.Breaks]

theorem Text.breaks_cons {c : Char} {s : Text} (h : isWordChar c = false) :
    Text.Breaks (c :: s) := by
  simpa [Text.Breaks] using h

/-- What is left after the longest run of word characters does not continue it. -/
theorem Text.breaks_dropWhile (s : Text) : Text.Breaks (s.dropWhile isWordChar) := by
  intro c hc
  have := List.head?_dropWhile_not isWordChar s
  simpa [Option.mem_def.1 hc] using this

/-- A run that `p` holds of, before something that does not continue it. -/
theorem takeWhile_append_of_head? {p : Char → Bool} {w rest : Text} (hw : ∀ c ∈ w, p c)
    (hr : ∀ c ∈ rest.head?, p c = false) : (w ++ rest).takeWhile p = w := by
  rw [List.takeWhile_append_of_pos hw]
  cases rest with
  | nil => simp
  | cons c rest => simp [hr c (by simp)]

theorem dropWhile_append_of_head? {p : Char → Bool} {w rest : Text} (hw : ∀ c ∈ w, p c)
    (hr : ∀ c ∈ rest.head?, p c = false) : (w ++ rest).dropWhile p = rest := by
  rw [List.dropWhile_append_of_pos hw]
  cases rest with
  | nil => simp
  | cons c rest => simp [hr c (by simp)]

namespace Token

@[simp] theorem scanFrom_nil (p : Nat) : scanFrom p [] = [] := by rw [scanFrom]

/-- A word that is not continued is one token. -/
theorem scanFrom_word {w rest : Text} (p : Nat) (hne : w ≠ []) (hw : ∀ c ∈ w, isWordChar c)
    (hr : rest.Breaks) :
    scanFrom p (w ++ rest) = ⟨wordKind w, w, p⟩ :: scanFrom (p + w.length) rest := by
  cases w with
  | nil => exact absurd rfl hne
  | cons c cs =>
    have hcs : ∀ d ∈ cs, isWordChar d := fun d hd => hw d (List.mem_cons_of_mem _ hd)
    rw [List.cons_append, scanFrom, if_pos (hw c List.mem_cons_self)]
    simp only [takeWhile_append_of_head? hcs hr, dropWhile_append_of_head? hcs hr]

/-- A quote before this text opens a literal: another quote follows, but not at once. -/
def OpensLiteral (s : Text) : Prop :=
  ∃ body rest, body ≠ [] ∧ (∀ c ∈ body, !isQuote c) ∧ s = body ++ '\'' :: rest

theorem scanFrom_quoted {body : Text} (p : Nat) (rest : Text) (hne : body ≠ [])
    (hb : ∀ c ∈ body, !isQuote c) :
    scanFrom p ('\'' :: body ++ '\'' :: rest) =
      ⟨.quoted, '\'' :: body ++ ['\''], p⟩ :: scanFrom (p + body.length + 2) rest := by
  have hr : ∀ c ∈ ('\'' :: rest).head?, (!isQuote c) = false := by simp [isQuote]
  have ht : (body ++ '\'' :: rest).takeWhile (!isQuote ·) = body :=
    takeWhile_append_of_head? hb hr
  have hd : (body ++ '\'' :: rest).dropWhile (!isQuote ·) = '\'' :: rest :=
    dropWhile_append_of_head? hb hr
  rw [List.cons_append, scanFrom, if_neg (by decide), if_pos (by decide)]
  simp only
  split
  · rename_i close rest' b bs h₁ h₂
    rw [hd] at h₁
    obtain ⟨rfl, rfl⟩ := List.cons.inj h₁
    rw [ht]
  · rename_i h
    obtain ⟨b, bs, rfl⟩ := List.exists_cons_of_ne_nil hne
    exact absurd ht (h '\'' rest b bs hd)

/-- A mark is one token, whatever follows it. -/
theorem scanFrom_mark {c : Char} {kind : Kind} (p : Nat) (rest : Text)
    (h : markKind? c = some kind) :
    scanFrom p (c :: rest) = ⟨kind, [c], p⟩ :: scanFrom (p + 1) rest := by
  rw [scanFrom, if_neg (by simp [not_isWordChar_of_markKind? h]),
    if_neg (by simp [not_isQuote_of_markKind? h]), h]

/-- **A character outside of every token is dropped.** -/
theorem scanFrom_dropped {c : Char} {rest : Text} (p : Nat) (hw : isWordChar c = false)
    (hm : markKind? c = none) (hq : isQuote c → ¬OpensLiteral rest) :
    scanFrom p (c :: rest) = scanFrom (p + 1) rest := by
  rw [scanFrom, if_neg (by simp [hw])]
  by_cases h : isQuote c
  · rw [if_pos h]
    simp only
    split
    · rename_i close rest' b bs hd ht
      have hclose : close = '\'' := by
        have := List.head?_dropWhile_not (!isQuote ·) rest
        rw [hd] at this
        simpa [isQuote] using this
      have hall : ∀ d ∈ rest.takeWhile (!isQuote ·), !isQuote d :=
        List.all_eq_true.1 List.all_takeWhile
      refine absurd ⟨b :: bs, rest', by simp, ht ▸ hall, ?_⟩ (hq h)
      rw [← hclose, ← hd, ← ht, List.takeWhile_append_dropWhile]
    · rfl
  · rw [if_neg h, hm]

/-- **Induction along a scan**: a text is empty, or begins with a word, a quoted literal, a mark or
a character that is dropped. -/
@[elab_as_elim]
theorem scan_induction {motive : Text → Prop} (nil : motive [])
    (word : ∀ w rest, w ≠ [] → (∀ c ∈ w, isWordChar c) → Text.Breaks rest → motive rest →
      motive (w ++ rest))
    (quoted : ∀ body rest, body ≠ [] → (∀ c ∈ body, !isQuote c) → motive rest →
      motive ('\'' :: body ++ '\'' :: rest))
    (mark : ∀ c kind rest, markKind? c = some kind → motive rest → motive (c :: rest))
    (dropped : ∀ c rest, isWordChar c = false → markKind? c = none →
      (isQuote c → ¬OpensLiteral rest) → motive rest → motive (c :: rest))
    (s : Text) : motive s := by
  induction h : s.length using Nat.strongRecOn generalizing s with
  | _ n ih =>
    subst h
    match s with
    | [] => exact nil
    | c :: cs =>
      by_cases hw : isWordChar c
      · have hlen := Text.length_dropWhile_le isWordChar cs
        have hall : ∀ d ∈ c :: cs.takeWhile isWordChar, isWordChar d := by
          have := List.all_eq_true.1 (List.all_takeWhile (p := isWordChar) (l := cs))
          simpa [hw] using this
        have := word _ _ (by simp) hall (Text.breaks_dropWhile cs) (ih _ (by simp; omega) _ rfl)
        rwa [List.cons_append, List.takeWhile_append_dropWhile] at this
      · have hw : isWordChar c = false := by simpa using hw
        have hcs : motive cs := ih _ (by simp) _ rfl
        cases hm : markKind? c with
        | some kind => exact mark c kind cs hm hcs
        | none =>
          by_cases hq : isQuote c ∧ OpensLiteral cs
          · obtain ⟨hq, body, rest, hne, hb, rfl⟩ := hq
            obtain rfl : c = '\'' := by simpa [isQuote] using hq
            exact quoted body rest hne hb (ih _ (by simp; omega) _ rfl)
          · exact dropped c cs hw hm (fun h ho => hq ⟨h, ho⟩) hcs

/-- **Positions do not influence what is read.** -/
theorem map_lexeme_scanFrom (p q : Nat) (s : Text) :
    (scanFrom p s).map lexeme = (scanFrom q s).map lexeme := by
  induction s using scan_induction generalizing p q with
  | nil => simp
  | word w rest hne hw hr ih =>
    simp only [scanFrom_word _ hne hw hr, List.map_cons, lexeme, ih _ (q + w.length)]
  | quoted body rest hne hb ih =>
    simp only [scanFrom_quoted _ rest hne hb, List.map_cons, lexeme, ih _ (q + body.length + 2)]
  | mark c kind rest h ih =>
    simp only [scanFrom_mark _ rest h, List.map_cons, lexeme, ih _ (q + 1)]
  | dropped c rest hw hm hq ih =>
    simp only [scanFrom_dropped _ hw hm hq, ih _ (q + 1)]

end Token

/-! ## Lexemes of a text -/

namespace Text

/-- The lexemes do not depend on where in the rule the text stands. -/
theorem map_lexeme_scanFrom (p : Nat) (s : Text) :
    (scanFrom p s).map lexeme = lexemes s :=
  Token.map_lexeme_scanFrom p 0 s

/-- The texts of the tokens are those of the lexemes. -/
theorem map_value_scan (s : Text) : (scan s).map Token.value = s.lexemes.map Lexeme.text := by
  rw [lexemes, List.map_map]
  rfl

@[simp] theorem lexemes_nil : lexemes [] = [] := by
  rw [lexemes, scan, scanFrom_nil, List.map_nil]

theorem lexemes_word {w rest : Text} (hne : w ≠ []) (hw : ∀ c ∈ w, isWordChar c)
    (hr : rest.Breaks) : lexemes (w ++ rest) = ⟨wordKind w, w⟩ :: lexemes rest := by
  rw [lexemes, scan, scanFrom_word 0 hne hw hr, List.map_cons, map_lexeme_scanFrom]
  rfl

theorem lexemes_quoted {body : Text} (rest : Text) (hne : body ≠ [])
    (hb : ∀ c ∈ body, !isQuote c) :
    lexemes ('\'' :: body ++ '\'' :: rest) =
      ⟨.quoted, '\'' :: body ++ ['\'']⟩ :: lexemes rest := by
  rw [lexemes, scan, scanFrom_quoted 0 rest hne hb, List.map_cons, map_lexeme_scanFrom]
  rfl

theorem lexemes_mark {c : Char} {kind : Kind} (rest : Text) (h : markKind? c = some kind) :
    lexemes (c :: rest) = ⟨kind, [c]⟩ :: lexemes rest := by
  rw [lexemes, scan, scanFrom_mark 0 rest h, List.map_cons, map_lexeme_scanFrom]
  rfl

/-- A character that is in no token leaves no trace. -/
theorem lexemes_dropped {c : Char} {rest : Text} (hw : isWordChar c = false)
    (hm : markKind? c = none) (hq : isQuote c → ¬OpensLiteral rest) :
    lexemes (c :: rest) = lexemes rest := by
  rw [lexemes, scan, scanFrom_dropped 0 hw hm hq, map_lexeme_scanFrom]

@[simp] theorem lexemes_space (rest : Text) : lexemes (' ' :: rest) = lexemes rest :=
  lexemes_dropped (by decide) (by decide) (by simp [isQuote])

/-- **Every lexeme of a text is well-formed.** -/
theorem wellFormed_of_mem_lexemes {s : Text} {x : Lexeme} (hx : x ∈ lexemes s) : x.WellFormed := by
  induction s using scan_induction with
  | nil => simp at hx
  | word w rest hne hw hr ih =>
    rw [lexemes_word hne hw hr, List.mem_cons] at hx
    rcases hx with rfl | hx
    · exact .word hne hw
    · exact ih hx
  | quoted body rest hne hb ih =>
    rw [lexemes_quoted rest hne hb, List.mem_cons] at hx
    rcases hx with rfl | hx
    · exact .quoted hne hb
    · exact ih hx
  | mark c kind rest h ih =>
    rw [lexemes_mark rest h, List.mem_cons] at hx
    rcases hx with rfl | hx
    · exact .mark h
    · exact ih hx
  | dropped c rest hw hm hq ih =>
    rw [lexemes_dropped hw hm hq] at hx
    exact ih hx

/-- **Nothing is read that is not written**: the lexemes of a text, put together, are what is left
of it when characters are dropped. -/
theorem flatMap_text_lexemes_sublist (s : Text) : (s.lexemes.flatMap Lexeme.text).Sublist s := by
  induction s using scan_induction with
  | nil => rw [lexemes_nil, List.flatMap_nil]
  | word w rest hne hw hr ih =>
    rw [lexemes_word hne hw hr, List.flatMap_cons]
    exact ih.append_left w
  | quoted body rest hne hb ih =>
    rw [lexemes_quoted rest hne hb, List.flatMap_cons, List.append_cons ('\'' :: body) '\'' rest]
    exact ih.append_left ('\'' :: body ++ ['\''])
  | mark c kind rest h ih =>
    rw [lexemes_mark rest h, List.flatMap_cons]
    exact ih.append_left [c]
  | dropped c rest hw hm hq ih =>
    rw [lexemes_dropped hw hm hq]
    exact ih.cons c

theorem mem_of_mem_lexemes {s : Text} {x : Lexeme} (hx : x ∈ s.lexemes) {c : Char}
    (hc : c ∈ x.text) : c ∈ s :=
  (flatMap_text_lexemes_sublist s).subset (List.mem_flatMap.2 ⟨x, hx, hc⟩)

/-- **A well-formed lexeme is read back**, before a text that does not continue it. -/
theorem lexemes_append_of_wellFormed {x : Lexeme} {rest : Text} (hx : x.WellFormed)
    (hr : rest.Breaks) : lexemes (x.text ++ rest) = x :: lexemes rest := by
  cases hx with
  | word hne hw => exact lexemes_word hne hw hr
  | @quoted body hne hb =>
    have := lexemes_quoted rest hne hb
    simpa using this
  | mark h => exact lexemes_mark rest h

/-- **Well-formed lexemes joined by single spaces are read back.** -/
theorem lexemes_unwords_append {xs : List Lexeme} {rest : Text} (hx : ∀ x ∈ xs, x.WellFormed)
    (hr : rest.Breaks) :
    lexemes (unwords (xs.map Lexeme.text) ++ rest) = xs ++ lexemes rest := by
  induction xs with
  | nil => rfl
  | cons x xs ih =>
    obtain ⟨hhead, htail⟩ := List.forall_mem_cons.1 hx
    cases xs with
    | nil => exact lexemes_append_of_wellFormed hhead hr
    | cons y ys =>
      have hspace (s : Text) : Breaks (' ' :: s) := breaks_cons (by decide)
      rw [List.map_cons, List.map_cons, unwords, List.append_assoc, List.cons_append,
        lexemes_append_of_wellFormed hhead (hspace _), lexemes_space, ← List.map_cons, ih htail]
      · rfl
      · exact List.cons_ne_nil _ _

/-- Well-formed lexemes are what is read of them when they are joined by single spaces. -/
theorem lexemes_unwords {xs : List Lexeme} (hx : ∀ x ∈ xs, x.WellFormed) :
    lexemes (unwords (xs.map Lexeme.text)) = xs := by
  have := lexemes_unwords_append hx breaks_nil
  simpa using this

/-- What follows the text does not change how it is read, if it does not continue a word. -/
def Settled (s : Text) : Prop :=
  ∀ rest : Text, rest.Breaks → lexemes (s ++ rest) = lexemes s ++ lexemes rest

theorem settled_unwords {xs : List Lexeme} (hx : ∀ x ∈ xs, x.WellFormed) :
    Settled (unwords (xs.map Lexeme.text)) := by
  intro rest hr
  rw [lexemes_unwords_append hx hr, lexemes_unwords hx]

end Text

namespace Lexeme

/-! ## Kinds and texts -/

/-- **Only the keywords have the text of a connective.** -/
theorem WellFormed.isConnective_iff {x : Lexeme} (hx : x.WellFormed) :
    isConnective x.text = x.isKeyword := by
  cases hx with
  | @word w hne hw =>
    have hne' : orWord ≠ andWord := by decide
    by_cases h₁ : w = andWord
    · simp [isConnective, isKeyword, wordKind, h₁]
    · by_cases h₂ : w = orWord <;> simp [isConnective, isKeyword, wordKind, h₁, h₂, hne']
  | @quoted body hne hb => simp [isConnective, isKeyword, andWord, orWord]
  | @mark c kind h =>
    rcases markKind?_eq_some_iff.1 h with ⟨-, rfl⟩ | ⟨-, rfl⟩ | ⟨-, rfl⟩ <;>
      simp [isConnective, isKeyword, andWord, orWord]

/-- A run of word characters is no parenthesis. -/
@[simp] theorem isParen_wordKind (w : Text) : isParen ⟨wordKind w, w⟩ = false := by
  unfold isParen wordKind
  split_ifs <;> rfl

/-- A keyword as a lexeme. -/
theorem wellFormed_connective {w : Text} (h : isConnective w) : WellFormed ⟨wordKind w, w⟩ :=
  .word (by rintro rfl; exact absurd h (by decide)) (wordChar_of_mem_connective h)

theorem WellFormed.text_ne_nil {x : Lexeme} (hx : x.WellFormed) : x.text ≠ [] := by
  cases hx with
  | word hne hw => exact hne
  | quoted hne hb => exact List.cons_ne_nil _ _
  | mark h => exact List.cons_ne_nil _ _

end Lexeme

end Criteria
