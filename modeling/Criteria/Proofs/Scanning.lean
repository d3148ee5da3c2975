import Criteria.Proofs.Reading

/-!
# Proofs/Scanning — a rule has exactly one list of tokens

`Token.IsScanFrom` says what it is to scan a text without scanning it: where tokens may stand, and
which characters may stand outside of them.  Scanning a text meets it (`isScanFrom_scanFrom`), and
nothing else does: the first token is either at the first character or after it, and each decides
what the rest of the text is scanned as (`IsScanFrom.eq_scanFrom`).  So a rule within its length has
the tokens that cut it, and only one list does (`existsUnique_isScan`).
-/

namespace Criteria

/-- A run of word characters, a keyword or not. -/
def Lexeme.isWordRun (x : Lexeme) : Bool := x.kind = .word || x.isKeyword

theorem Lexeme.isWordRun_wordKind (w : Text) : isWordRun ⟨Token.wordKind w, w⟩ := by
  unfold isWordRun isKeyword Token.wordKind
  split_ifs <;> rfl

namespace Token

/-! ## What it is to scan a text -/

/-- The token is the slice at its position of a text whose first character stands at `p`, it has the
form of its kind, and no word goes on after it. -/
def Fits (p : Nat) (s : Text) (t : Token) : Prop :=
  t.lexeme.WellFormed ∧ ∃ before after, s = before ++ (t.value ++ after) ∧
    t.position = p + before.length ∧ (t.lexeme.isWordRun → after.Breaks)

/-- The token has a character at this position. -/
def Covers (t : Token) (i : Nat) : Prop := t.position ≤ i ∧ i < t.position + t.value.length

/-- The character begins no token before this text: it is neither a word character nor a mark, and a
quote is closed at once or never. -/
def IsDropped (c : Char) (after : Text) : Prop :=
  isWordChar c = false ∧ markKind? c = none ∧
    (isQuote c → after.head? = some '\'' ∨ '\'' ∉ after)

/-- **What it is to scan a text** whose first character stands at `p`: tokens fit, stand one after
the other, and leave out only characters that begin no token. -/
structure IsScanFrom (p : Nat) (s : Text) (tokens : List Token) : Prop where
  fits : ∀ t ∈ tokens, t.Fits p s
  ordered : tokens.Pairwise fun t u => t.position + t.value.length ≤ u.position
  dropped : ∀ before c after, s = before ++ c :: after →
    (∀ t ∈ tokens, ¬t.Covers (p + before.length)) → IsDropped c after

/-- What it is to scan a rule. -/
abbrev IsScan (source : Text) (tokens : List Token) : Prop := IsScanFrom 0 source tokens

variable {p : Nat} {c : Char} {s w rest : Text} {t : Token} {ts : List Token}

/-! ## One token, one character -/

/-- A literal is opened iff it is closed, but not at once. -/
theorem opensLiteral_iff : OpensLiteral s ↔ s.head? ≠ some '\'' ∧ '\'' ∈ s := by
  constructor
  · rintro ⟨body, rest, hne, hb, rfl⟩
    obtain ⟨b, bs, rfl⟩ := List.exists_cons_of_ne_nil hne
    have hfirst : b ≠ '\'' := by simpa [isQuote] using hb b List.mem_cons_self
    simpa using hfirst
  · rintro ⟨hhead, hmem⟩
    obtain ⟨body, rest, rfl, hb⟩ := List.eq_append_cons_of_mem hmem
    refine ⟨body, rest, ?_, ?_, rfl⟩
    · rintro rfl
      exact hhead rfl
    · intro c hc
      have : c ≠ '\'' := fun h => hb (h ▸ hc)
      simpa [isQuote] using this

theorem isDropped_iff : IsDropped c rest ↔
    isWordChar c = false ∧ markKind? c = none ∧ (isQuote c → ¬OpensLiteral rest) := by
  rw [opensLiteral_iff, not_and_or, not_not]
  rfl

theorem IsDropped.scanFrom (h : IsDropped c rest) :
    scanFrom p (c :: rest) = scanFrom (p + 1) rest := by
  obtain ⟨hw, hm, hq⟩ := isDropped_iff.1 h
  exact scanFrom_dropped p hw hm hq

/-- **A well-formed token is scanned first**, if it is written first and no word goes on. -/
theorem scanFrom_of_wellFormed (h : t.lexeme.WellFormed)
    (hr : t.lexeme.isWordRun → rest.Breaks) :
    scanFrom t.position (t.value ++ rest) =
      t :: scanFrom (t.position + t.value.length) rest := by
  obtain ⟨kind, value, p⟩ := t
  change Lexeme.WellFormed ⟨kind, value⟩ at h
  cases h with
  | word hne hw => exact scanFrom_word p hne hw (hr (Lexeme.isWordRun_wordKind value))
  | @quoted body hne hb =>
    have := scanFrom_quoted p rest hne hb
    simpa [Nat.add_assoc] using this
  | mark hk => exact scanFrom_mark p rest hk

/-! ## The rest of a scan -/

theorem Fits.le_position (h : t.Fits p s) : p ≤ t.position := by
  obtain ⟨-, before, after, -, hpos, -⟩ := h
  omega

/-- What stands after a first piece is what follows that piece. -/
theorem exists_eq_append_of_length_le {before after : Text} (h : w ++ rest = before ++ after)
    (hlen : w.length ≤ before.length) : ∃ b, before = w ++ b ∧ rest = b ++ after := by
  obtain ⟨b, rfl⟩ := List.prefix_of_prefix_length_le ⟨rest, h⟩ ⟨after, rfl⟩ hlen
  rw [List.append_assoc] at h
  exact ⟨b, rfl, List.append_cancel_left h⟩

/-- A token that stands after a text fits what follows the text, and conversely. -/
theorem fits_append_iff :
    t.Fits p (w ++ rest) ∧ p + w.length ≤ t.position ↔ t.Fits (p + w.length) rest := by
  constructor
  · rintro ⟨⟨hwf, before, after, hs, hpos, hb⟩, hle⟩
    obtain ⟨b, rfl, rfl⟩ := exists_eq_append_of_length_le hs (by omega)
    rw [List.length_append, ← Nat.add_assoc] at hpos
    exact ⟨hwf, b, after, rfl, hpos, hb⟩
  · intro h
    refine ⟨?_, h.le_position⟩
    obtain ⟨hwf, b, after, rfl, hpos, hb⟩ := h
    refine ⟨hwf, w ++ b, after, ?_, ?_, hb⟩
    · rw [List.append_assoc]
    · rw [List.length_append, ← Nat.add_assoc, hpos]

/-- A token fits the text that begins with it iff it is well-formed and not continued. -/
theorem fits_self_iff : t.Fits t.position (t.value ++ rest) ↔
    t.lexeme.WellFormed ∧ (t.lexeme.isWordRun → rest.Breaks) := by
  constructor
  · rintro ⟨hwf, before, after, hs, hpos, hb⟩
    obtain rfl : before = [] := List.eq_nil_of_length_eq_zero (by omega)
    obtain rfl := List.append_cancel_left hs
    exact ⟨hwf, hb⟩
  · rintro ⟨hwf, hb⟩
    exact ⟨hwf, [], rest, rfl, rfl, hb⟩

namespace IsScanFrom

theorem le_position (h : IsScanFrom p s ts) : ∀ t ∈ ts, p ≤ t.position :=
  fun t ht => (h.fits t ht).le_position

theorem nil_iff : IsScanFrom p [] ts ↔ ts = [] := by
  constructor
  · intro h
    rw [List.eq_nil_iff_forall_not_mem]
    intro t ht
    obtain ⟨hwf, before, after, hs, -⟩ := h.fits t ht
    have : t.value = [] := by simp_all
    exact hwf.text_ne_nil this
  · rintro rfl
    exact ⟨by simp, .nil, by simp⟩

/-- **After a first token, the rest of the text is scanned as the rest of the tokens.** -/
theorem cons_iff : IsScanFrom t.position (t.value ++ rest) (t :: ts) ↔
    (t.lexeme.WellFormed ∧ (t.lexeme.isWordRun → rest.Breaks)) ∧
      IsScanFrom (t.position + t.value.length) rest ts := by
  rw [← fits_self_iff]
  constructor
  · rintro ⟨hfits, hord, hdrop⟩
    obtain ⟨hhead, htail⟩ := List.forall_mem_cons.1 hfits
    obtain ⟨hle, hord⟩ := List.pairwise_cons.1 hord
    refine ⟨hhead, fun u hu => fits_append_iff.1 ⟨htail u hu, hle u hu⟩, hord, ?_⟩
    rintro before c after rfl hc
    refine hdrop (t.value ++ before) c after (List.append_assoc _ _ _).symm ?_
    rw [List.length_append, ← Nat.add_assoc, List.forall_mem_cons]
    exact ⟨fun h => absurd h.2 (by omega), hc⟩
  · rintro ⟨hhead, hrest⟩
    refine ⟨List.forall_mem_cons.2 ⟨hhead, fun u hu => (fits_append_iff.2 (hrest.fits u hu)).1⟩,
      List.pairwise_cons.2 ⟨hrest.le_position, hrest.ordered⟩, ?_⟩
    intro before c after hs hc
    obtain ⟨hnot, hc⟩ := List.forall_mem_cons.1 hc
    have hlen : t.value.length ≤ before.length := by
      unfold Covers at hnot
      omega
    obtain ⟨b, rfl, rfl⟩ := exists_eq_append_of_length_le hs hlen
    rw [List.length_append, ← Nat.add_assoc] at hc
    exact hrest.dropped b c after rfl hc

/-- **Before the first token, a character is dropped.** -/
theorem skip_iff (hlt : ∀ t ∈ ts, p < t.position) :
    IsScanFrom p (c :: rest) ts ↔ IsDropped c rest ∧ IsScanFrom (p + 1) rest ts := by
  constructor
  · intro h
    refine ⟨h.dropped [] c rest rfl fun t ht hc => absurd hc.1 (Nat.not_le.2 (hlt t ht)),
      fun t ht => fits_append_iff (w := [c]).1 ⟨h.fits t ht, hlt t ht⟩, h.ordered, ?_⟩
    rintro before d after rfl hd
    refine h.dropped (c :: before) d after rfl ?_
    rwa [List.length_cons, Nat.add_comm before.length, ← Nat.add_assoc]
  · rintro ⟨hdrop, hrest⟩
    refine ⟨fun t ht => (fits_append_iff (w := [c]).2 (hrest.fits t ht)).1, hrest.ordered, ?_⟩
    intro before d after hs hd
    cases before with
    | nil =>
      obtain ⟨rfl, rfl⟩ := List.cons.inj hs
      exact hdrop
    | cons b before =>
      obtain ⟨rfl, rfl⟩ := List.cons.inj hs
      rw [List.length_cons, Nat.add_comm before.length, ← Nat.add_assoc] at hd
      exact hrest.dropped before d after rfl hd

/-- The first token is written first, or every token stands after the first character. -/
theorem first_or_later (h : IsScanFrom p s ts) :
    (∃ t ts' rest, ts = t :: ts' ∧ t.position = p ∧ s = t.value ++ rest) ∨
      ∀ t ∈ ts, p < t.position := by
  cases ts with
  | nil => exact .inr (by simp)
  | cons t ts =>
    obtain ⟨-, before, after, rfl, hpos, -⟩ := h.fits t List.mem_cons_self
    obtain rfl | hne := eq_or_ne before []
    · exact .inl ⟨t, ts, after, rfl, hpos, rfl⟩
    · have hfirst : p < t.position := by
        have := List.length_pos_of_ne_nil hne
        omega
      refine .inr (List.forall_mem_cons.2 ⟨hfirst, fun u hu => ?_⟩)
      have := List.rel_of_pairwise_cons h.ordered hu
      omega

/-- **No other list of tokens is a scan.**  The induction is on the length of the text: a token or a
dropped character comes off its front. -/
theorem eq_scanFrom (h : IsScanFrom p s ts) : ts = scanFrom p s := by
  induction hn : s.length using Nat.strongRecOn generalizing p s ts with
  | _ n ih =>
    subst hn
    obtain ⟨t, ts, rest, rfl, rfl, rfl⟩ | hlt := h.first_or_later
    · obtain ⟨⟨hwf, hb⟩, hrest⟩ := cons_iff.1 h
      have hpos : 0 < t.value.length := List.length_pos_of_ne_nil hwf.text_ne_nil
      rw [scanFrom_of_wellFormed hwf hb, ← ih _ (by simpa using hpos) hrest rfl]
    · cases s with
      | nil => rw [nil_iff.1 h, scanFrom_nil]
      | cons c rest =>
        obtain ⟨hdrop, hrest⟩ := (skip_iff hlt).1 h
        rw [hdrop.scanFrom, ← ih _ (by simp) hrest rfl]

end IsScanFrom

/-- **Scanning meets its specification.** -/
theorem isScanFrom_scanFrom (p : Nat) (s : Text) : IsScanFrom p s (scanFrom p s) := by
  induction s using scan_induction generalizing p with
  | nil => rw [scanFrom_nil, IsScanFrom.nil_iff]
  | word w rest hne hw hr ih =>
    rw [scanFrom_word p hne hw hr]
    exact (IsScanFrom.cons_iff (t := ⟨wordKind w, w, p⟩)).2 ⟨⟨.word hne hw, fun _ => hr⟩, ih _⟩
  | quoted body rest hne hb ih =>
    have hvalue : '\'' :: body ++ '\'' :: rest = ('\'' :: body ++ ['\'']) ++ rest := by simp
    have hlen : p + body.length + 2 = p + ('\'' :: body ++ ['\'']).length := by
      simp [Nat.add_assoc]
    rw [scanFrom_quoted p rest hne hb, hvalue, hlen]
    exact (IsScanFrom.cons_iff (t := ⟨.quoted, '\'' :: body ++ ['\''], p⟩)).2
      ⟨⟨.quoted hne hb, nofun⟩, ih _⟩
  | mark c kind rest hk ih =>
    rw [scanFrom_mark p rest hk]
    have hbreaks : Lexeme.isWordRun ⟨kind, [c]⟩ → rest.Breaks := by
      rcases markKind?_eq_some_iff.1 hk with ⟨-, rfl⟩ | ⟨-, rfl⟩ | ⟨-, rfl⟩ <;> nofun
    exact (IsScanFrom.cons_iff (t := ⟨kind, [c], p⟩)).2 ⟨⟨.mark hk, hbreaks⟩, ih _⟩
  | dropped c rest hw hm hq ih =>
    rw [scanFrom_dropped p hw hm hq, IsScanFrom.skip_iff (ih (p + 1)).le_position]
    exact ⟨isDropped_iff.2 ⟨hw, hm, hq⟩, ih _⟩

/-- **The list of tokens is the only one with the property**, from any position. -/
theorem isScanFrom_iff : IsScanFrom p s ts ↔ ts = scanFrom p s := by
  constructor
  · exact IsScanFrom.eq_scanFrom
  · rintro rfl
    exact isScanFrom_scanFrom p s

/-- **A rule has exactly one list of tokens**, and it is read as them iff it is not too long. -/
theorem existsUnique_isScan (limits : Limits) (source : Text) :
    (∃! tokens, IsScan source tokens) ∧ ∀ tokens, scanWithin limits source = .ok tokens ↔
      (source.length : Int) ≤ limits.ruleLength ∧ IsScan source tokens := by
  refine ⟨⟨scan source, isScanFrom_scanFrom 0 source, fun _ h => h.eq_scanFrom⟩, fun tokens => ?_⟩
  rw [scanWithin_eq_ok_iff, IsScan, isScanFrom_iff]
  rfl

/-- A quote that is dropped shifts how the later ones are paired. -/
example : scan "''a'b'".toList = [⟨.quoted, "'a'".toList, 1⟩, ⟨.word, "b".toList, 4⟩] := by
  decide +kernel

end Token

end Criteria
