import Criteria.Proofs.Comparing
import Criteria.Proofs.Deciding
import Criteria.Proofs.Filling
import Criteria.Proofs.Parenthesizing

/-!
# Proofs/Splitting — a clause is cut into the tokens that it was joined from

A clause joins its tokens by single spaces and is cut at blanks, so its words are those of its
tokens, one after the other (`words_unwords_eq_flatMap`).  Only a quoted literal can hold a blank;
then it is cut into two words or more, which begin and end with a quote, so none at either end is a
comparator.  Hence three words with a comparator in the middle are three tokens
(`flatMap_words_eq_iff`): `read_clause_iff`.  For the same reason a quoted literal is never more
than data: `parse_quoted`.
-/

namespace Criteria

open Token

/-! ## Words -/

namespace Text

variable {s t : Text}

/-- **Words are cut at a blank.** -/
theorem words_append_cons_blank {b : Char} (hb : isBlank b) (s t : Text) :
    words (s ++ b :: t) = words s ++ words t := by
  induction s using words.induct with
  | case1 => rw [List.nil_append, words.eq_2, if_pos hb, words.eq_1, List.nil_append]
  | case2 c cs hc ih => rw [List.cons_append, words, if_pos hc, ih, words, if_pos hc]
  | case3 c cs hc ih =>
    -- The word that `c` begins ends at the first blank, which is in `cs` or is `b`.
    have hrun : ∀ d ∈ cs.takeWhile (!isBlank ·), !isBlank d := List.all_eq_true.1 List.all_takeWhile
    have hhead : ∀ d ∈ (cs.dropWhile (!isBlank ·) ++ b :: t).head?, (!isBlank d) = false := by
      have := List.head?_dropWhile_not (!isBlank ·) cs
      cases hrest : cs.dropWhile (!isBlank ·) with
      | nil => simp [hb]
      | cons d rest => simpa [hrest] using this
    have hcs : cs ++ b :: t =
        cs.takeWhile (!isBlank ·) ++ (cs.dropWhile (!isBlank ·) ++ b :: t) := by
      rw [← List.append_assoc, List.takeWhile_append_dropWhile]
    rw [List.cons_append, words, if_neg hc, words, if_neg hc, List.cons_append, ← ih, hcs,
      takeWhile_append_of_head? hrun hhead, dropWhile_append_of_head? hrun hhead]

/-- **Nothing but blanks is lost** when a text is cut into words. -/
theorem flatten_words (s : Text) : (words s).flatten = s.filter (!isBlank ·) := by
  induction s using words.induct with
  | case1 => rw [words, List.flatten_nil, List.filter_nil]
  | case2 c cs hc ih => rw [words, if_pos hc, ih, List.filter_cons_of_neg (by simpa using hc)]
  | case3 c cs hc ih =>
    have hrun : ∀ d ∈ cs.takeWhile (!isBlank ·), !isBlank d := List.all_eq_true.1 List.all_takeWhile
    have hcs : cs.filter (!isBlank ·) =
        cs.takeWhile (!isBlank ·) ++ (cs.dropWhile (!isBlank ·)).filter (!isBlank ·) := by
      conv_lhs => rw [← List.takeWhile_append_dropWhile (p := (!isBlank ·)) (l := cs)]
      rw [List.filter_append, List.filter_eq_self.2 hrun]
    rw [words, if_neg hc, List.flatten_cons, ih, List.filter_cons_of_pos (by simpa using hc), hcs,
      List.cons_append]

theorem words_ne_nil {c : Char} (hc : c ∈ s) (hb : !isBlank c) : words s ≠ [] := by
  intro h
  have hflat := flatten_words s
  rw [h, List.flatten_nil] at hflat
  exact List.not_mem_nil (hflat ▸ List.mem_filter.2 ⟨hc, hb⟩)

theorem words_of_not_isBlank (hne : s ≠ []) (hs : ∀ c ∈ s, !isBlank c) : words s = [s] := by
  simpa [unwords] using words_unwords (List.forall_mem_singleton.2 ⟨hne, hs⟩)

/-- **The words of texts joined by spaces** are those of the texts. -/
theorem words_unwords_eq_flatMap (ws : List Text) : words (unwords ws) = ws.flatMap words := by
  induction ws with
  | nil => rw [unwords, words, List.flatMap_nil]
  | cons w ws ih =>
    cases ws with
    | nil => rw [unwords, List.flatMap_cons, List.flatMap_nil, List.append_nil]
    | cons v vs =>
      rw [unwords.eq_3 w _ (List.cons_ne_nil v vs), words_append_cons_blank (by rfl), ih]
      rfl

/-! ## Quoted texts -/

/-- A text between two quotes. -/
def quoted (s : Text) : Text := '\'' :: s ++ ['\'']

@[simp] theorem getLast?_quoted (s : Text) : s.quoted.getLast? = some '\'' := List.getLast?_concat

/-- A quoted text without blanks is quoted still. -/
theorem flatten_words_quoted (s : Text) :
    (words s.quoted).flatten = quoted (s.filter (!isBlank ·)) := by
  have hquote : isBlank '\'' = false := rfl
  simp [flatten_words, quoted, hquote]

/-- **The words of a quoted text neither begin nor end with a comparator**, but with a quote. -/
theorem words_quoted_ne (s : Text) (c : Comparator) (ws : List Text) :
    words s.quoted ≠ c.text :: ws ∧ words s.quoted ≠ ws ++ [c.text] := by
  have hflat := flatten_words_quoted s
  constructor
  · intro h
    rw [h] at hflat
    have hhead := congrArg List.head? hflat
    cases c <;> simp [quoted, Comparator.text] at hhead
  · intro h
    rw [h] at hflat
    have hlast := congrArg List.getLast? hflat
    rw [getLast?_quoted] at hlast
    cases c <;> simp [Comparator.text] at hlast

/-- A quoted text with a blank is cut into two words or more: a quote stands on either side. -/
theorem two_le_length_words_quoted {b : Char} (hmem : b ∈ s) (hb : isBlank b) :
    2 ≤ (words s.quoted).length := by
  obtain ⟨u, v, rfl⟩ := List.append_of_mem hmem
  have hcut : quoted (u ++ b :: v) = ('\'' :: u) ++ b :: (v ++ ['\'']) := by simp [quoted]
  have hleft : words ('\'' :: u) ≠ [] := words_ne_nil List.mem_cons_self (by decide)
  have hright : words (v ++ ['\'']) ≠ [] := words_ne_nil List.mem_concat_self (by decide)
  have := List.length_pos_iff.2 hleft
  have := List.length_pos_iff.2 hright
  rw [hcut, words_append_cons_blank hb, List.length_append]
  omega

theorem exists_isBlank_quoted_iff : (∃ c ∈ s.quoted, isBlank c) ↔ ∃ c ∈ s, isBlank c := by
  have hquote : isBlank '\'' = false := rfl
  simp [quoted, hquote]

end Text

/-! ## Words of a token -/

namespace Lexeme

variable {x : Lexeme}

/-- **The comparators are the tokens that are written as one.** -/
theorem WellFormed.kind_eq_comparator_iff (hx : x.WellFormed) :
    x.kind = .comparator ↔ ∃ c : Comparator, x.text = c.text := by
  cases hx with
  | @word w hne hw =>
    refine iff_of_false ?_ ?_
    · unfold wordKind
      split_ifs <;> simp
    · rintro ⟨c, rfl : w = c.text⟩
      cases c <;> exact absurd (hw _ List.mem_cons_self) (by decide)
  | @quoted body hne hb =>
    refine iff_of_false (by simp) ?_
    rintro ⟨c, h⟩
    cases c <;> simp [Comparator.text] at h
  | @mark c kind h =>
    rcases markKind?_eq_some_iff.1 h with ⟨hc, rfl⟩ | ⟨rfl, rfl⟩ | ⟨rfl, rfl⟩
    · refine iff_of_true rfl ?_
      rcases hc with rfl | rfl | rfl
      exacts [⟨.greater, rfl⟩, ⟨.less, rfl⟩, ⟨.equal, rfl⟩]
    all_goals
      refine iff_of_false (by simp) ?_
      rintro ⟨c, h⟩
      cases c <;> simp [Comparator.text] at h

theorem WellFormed.exists_quoted (hx : x.WellFormed) (hq : x.kind = .quoted) :
    ∃ body : Text, x.text = body.quoted := by
  cases hx with
  | quoted => exact ⟨_, rfl⟩
  | @word w =>
    change wordKind w = .quoted at hq
    unfold wordKind at hq
    split_ifs at hq
  | mark h =>
    obtain rfl : _ = Kind.quoted := hq
    simp [markKind?_eq_some_iff] at h

/-- Whether some character of the token is a blank. -/
def HasBlank (x : Lexeme) : Prop := ∃ c ∈ x.text, Text.isBlank c

theorem WellFormed.words_of_not_hasBlank (hx : x.WellFormed) (h : ¬x.HasBlank) :
    Text.words x.text = [x.text] :=
  Text.words_of_not_isBlank hx.text_ne_nil (by simpa [HasBlank] using h)

/-- **Only a quoted literal has a blank.** -/
theorem WellFormed.kind_eq_quoted_of_hasBlank (hx : x.WellFormed) (h : x.HasBlank) :
    x.kind = .quoted := by
  by_contra hq
  obtain ⟨c, hc, hblank⟩ := h
  exact absurd (hx.not_isBlank hq c hc) (by simp [hblank])

theorem WellFormed.exists_quoted_of_hasBlank (hx : x.WellFormed) (h : x.HasBlank) :
    ∃ body : Text, x.text = body.quoted ∧ ∃ c ∈ body, Text.isBlank c := by
  obtain ⟨body, hbody⟩ := hx.exists_quoted (hx.kind_eq_quoted_of_hasBlank h)
  exact ⟨body, hbody, Text.exists_isBlank_quoted_iff.1 (hbody ▸ h)⟩

/-- A blank in a literal breaks it into two words at least: the quotes are on both sides of it. -/
theorem WellFormed.two_le_length_words (hx : x.WellFormed) (h : x.HasBlank) :
    2 ≤ (Text.words x.text).length := by
  obtain ⟨body, hbody, c, hc, hblank⟩ := hx.exists_quoted_of_hasBlank h
  rw [hbody]
  exact Text.two_le_length_words_quoted hc hblank

theorem WellFormed.length_words_pos (hx : x.WellFormed) : 0 < (Text.words x.text).length := by
  by_cases h : x.HasBlank
  · exact Nat.zero_lt_two.trans_le (hx.two_le_length_words h)
  · rw [hx.words_of_not_hasBlank h]
    exact Nat.one_pos

/-! ## Words of tokens -/

variable {xs : List Lexeme}

/-- Splitting at blanks never has fewer parts than there are lexemes. -/
theorem length_le_length_flatMap_words (hx : ∀ x ∈ xs, x.WellFormed) :
    xs.length ≤ (xs.flatMap fun x => Text.words x.text).length := by
  induction xs with
  | nil => exact Nat.le_refl 0
  | cons x xs ih =>
    obtain ⟨hhead, htail⟩ := List.forall_mem_cons.1 hx
    have := hhead.length_words_pos
    have := ih htail
    rw [List.flatMap_cons, List.length_append, List.length_cons]
    omega

/-- Without blanks inside, splitting gives the lexemes back. -/
theorem flatMap_words_of_not_hasBlank (hx : ∀ x ∈ xs, x.WellFormed) (h : ∀ x ∈ xs, ¬x.HasBlank) :
    (xs.flatMap fun x => Text.words x.text) = xs.map Lexeme.text := by
  rw [List.map_eq_flatMap]
  exact List.flatMap_congr fun x hm => (hx x hm).words_of_not_hasBlank (h x hm)

/-- **Of two tokens or more, three words with a comparator between them are three tokens**, none of
which has a blank: a quoted literal with one would have its quote where the comparator is. -/
theorem flatMap_words_eq_iff (hx : ∀ x ∈ xs, x.WellFormed) (hlen : 2 ≤ xs.length) {a m : Text}
    {c : Comparator} : (xs.flatMap fun x => Text.words x.text) = [a, c.text, m] ↔
      xs.map Lexeme.text = [a, c.text, m] ∧ ∀ x ∈ xs, ¬x.HasBlank := by
  constructor
  · intro h
    have hnone : ∀ x ∈ xs, ¬x.HasBlank := by
      intro x hm hblank
      obtain ⟨us, vs, rfl⟩ := List.append_of_mem hm
      have hus := length_le_length_flatMap_words fun y hy => hx y (List.mem_append_left _ hy)
      have hvs := length_le_length_flatMap_words fun y hy =>
        hx y (List.mem_append_right us (List.mem_cons_of_mem x hy))
      have hwords := (hx x hm).two_le_length_words hblank
      obtain ⟨body, hbody, -⟩ := (hx x hm).exists_quoted_of_hasBlank hblank
      rw [List.flatMap_append, List.flatMap_cons] at h
      generalize (us.flatMap fun x => Text.words x.text) = before at h hus
      generalize (vs.flatMap fun x => Text.words x.text) = after at h hvs
      have hsum := congrArg List.length h
      simp only [List.length_append, List.length_cons, List.length_nil] at hsum hlen
      cases before with
      | nil =>
        rw [List.length_nil] at hus hsum
        obtain ⟨w, rfl⟩ := List.length_eq_one_iff.1 (show after.length = 1 by omega)
        have hends : Text.words x.text ++ [w] = [a, c.text] ++ [m] := h
        exact (body.words_quoted_ne c [a]).2 (hbody ▸ List.append_inj_left' hends rfl)
      | cons w before =>
        rw [List.length_cons] at hsum
        obtain rfl := List.length_eq_zero_iff.1 (show after.length = 0 by omega)
        obtain rfl := List.length_eq_zero_iff.1 (show before.length = 0 by omega)
        have hends : w :: (Text.words x.text ++ []) = [a, c.text, m] := h
        rw [List.append_nil] at hends
        exact (body.words_quoted_ne c [m]).1 (hbody ▸ (List.cons.inj hends).2)
    exact ⟨by rw [← h, flatMap_words_of_not_hasBlank hx hnone], hnone⟩
  · rintro ⟨h, hnone⟩
    rw [flatMap_words_of_not_hasBlank hx hnone, h]

/-- A comparator between two tokens, and no blank in any of the three. -/
structure IsComparison (x y z : Lexeme) : Prop where
  kind_eq : y.kind = .comparator
  not_hasBlank : ∀ t ∈ [x, y, z], t.kind = .quoted → ¬t.HasBlank

/-- The three lexemes of a comparison are three words. -/
theorem IsComparison.flatMap_words {x y z : Lexeme} (h : IsComparison x y z)
    (hx : ∀ t ∈ [x, y, z], t.WellFormed) :
    ([x, y, z].flatMap fun t => Text.words t.text) = [x.text, y.text, z.text] := by
  refine flatMap_words_of_not_hasBlank hx fun t hm hblank => h.not_hasBlank t hm ?_ hblank
  exact (hx t hm).kind_eq_quoted_of_hasBlank hblank

end Lexeme

/-! ## Comparisons as they are written -/

namespace Text

variable {w : Text} {z : Lexeme}

theorem IsName.wellFormed (hw : w.IsName) : Lexeme.WellFormed ⟨.word, w⟩ := by
  have := Lexeme.WellFormed.word hw.ne_nil hw.isWordChar_of_mem
  rwa [wordKind_eq_word_iff.2 hw.not_isConnective] at this

theorem wellFormed_comparator (c : Comparator) : Lexeme.WellFormed ⟨.comparator, c.text⟩ := by
  cases c <;> exact .mark (by decide)

/-- A name, a comparator and another token are the tokens of what they write. -/
theorem lexemes_comparison (hw : w.IsName) (c : Comparator) (hz : z.WellFormed) :
    lexemes (unwords [w, c.text, z.text]) = [⟨.word, w⟩, ⟨.comparator, c.text⟩, z] :=
  @lexemes_unwords [⟨.word, w⟩, ⟨.comparator, c.text⟩, z]
    (List.forall_mem_cons.2 ⟨hw.wellFormed, List.forall_mem_cons.2
      ⟨wellFormed_comparator c, List.forall_mem_singleton.2 hz⟩⟩)

/-- A comparison without keywords is a normal clause, so it is read back as written. -/
theorem isNormal_comparison (hw : w.IsName) (c : Comparator) (hz : z.WellFormed)
    (hk : z.kind = .word ∨ z.kind = .quoted) : IsNormal (unwords [w, c.text, z.text]) := by
  have hlexemes := lexemes_comparison hw c hz
  refine ⟨by rw [hlexemes]; rfl, by simp [hlexemes], ?_⟩
  rw [hlexemes]
  simp only [List.forall_mem_cons]
  tauto

theorem length_unwords_triple (a o m : Text) :
    (unwords [a, o, m]).length = a.length + o.length + m.length + 2 := by
  simp only [unwords, List.length_append, List.length_cons]
  omega

end Text

namespace Tree

variable {limits : Limits} {clause : Text}

/-- A clause in normal form is a rule of its own. -/
theorem parse_of_isNormal (h : clause.IsNormal) (hlen : (clause.length : Int) ≤ limits.ruleLength)
    (hsize : 1 ≤ limits.nodes) (hdepth : 1 ≤ limits.depth) :
    parse limits clause = .ok (operand clause) :=
  parse_eq_ok_iff.2 ⟨hlen, h.meansUnsplit.means, hsize, hdepth⟩

end Tree

/-! ## Conditions -/

namespace Condition

/-- Three words are a condition unless the last one has too many digits. -/
theorem exists_read_iff_of_words {source name operator raw : Text}
    (h : Text.words source = [name, operator, raw]) :
    (∃ c, Condition.read source = .ok c) ↔ ¬raw.IsOverlong := by
  rw [← not_iff_not, ← Outcome.exists_error_iff, not_not]
  simp only [Condition.read_eq_error_iff, Text.HasOverlongLiteral, h]
  simp

variable {xs : List Lexeme}

/-- **Joined tokens are a comparison again** iff they are a comparator between two others, none of
the three with a blank, and the last one has not too many digits. -/
theorem exists_read_unwords_iff (hx : ∀ x ∈ xs, x.WellFormed) (hlen : 2 ≤ xs.length) :
    (∃ condition comparator, Condition.read (Text.unwords (xs.map Lexeme.text)) = .ok condition ∧
        Comparator.ofText? condition.operator = some comparator) ↔
      ∃ x y z, xs = [x, y, z] ∧ Lexeme.IsComparison x y z ∧ ¬z.text.IsOverlong := by
  have hwords : Text.words (Text.unwords (xs.map Lexeme.text)) =
      xs.flatMap fun x => Text.words x.text := by
    rw [Text.words_unwords_eq_flatMap, List.flatMap_map]
  constructor
  · rintro ⟨condition, comparator, hread, hoperator⟩
    obtain ⟨raw, hsplit, -⟩ := read_eq_ok_iff.1 hread
    have hraw : ¬raw.IsOverlong := (exists_read_iff_of_words hsplit).1 ⟨_, hread⟩
    rw [Comparator.ofText?_eq_some_iff.1 hoperator, hwords, Lexeme.flatMap_words_eq_iff hx hlen]
      at hsplit
    obtain ⟨htexts, hblank⟩ := hsplit
    obtain ⟨x, ys, rfl, -, hys⟩ := List.map_eq_cons_iff.1 htexts
    obtain ⟨y, zs, rfl, hy, hzs⟩ := List.map_eq_cons_iff.1 hys
    obtain ⟨z, hz, rfl⟩ := List.map_eq_singleton_iff.1 hzs
    have hkind : y.kind = .comparator := (hx y (by simp)).kind_eq_comparator_iff.2 ⟨_, hy⟩
    exact ⟨x, y, z, by rw [hz], ⟨hkind, fun t ht _ => hblank t (by rwa [hz])⟩, hraw⟩
  · rintro ⟨x, y, z, rfl, h, hz⟩
    rw [h.flatMap_words hx] at hwords
    obtain ⟨condition, hread⟩ := (exists_read_iff_of_words hwords).2 hz
    obtain ⟨raw, hsplit, -⟩ := read_eq_ok_iff.1 hread
    obtain ⟨comparator, hy⟩ := (hx y (by simp)).kind_eq_comparator_iff.1 h.kind_eq
    obtain ⟨-, hoperator, -⟩ := by simpa using hwords.symm.trans hsplit
    exact ⟨condition, comparator, hread, Comparator.ofText?_eq_some_iff.2 (hoperator ▸ hy)⟩

end Condition

namespace Tree

open Lexeme

/-- **A condition is cut into the tokens it was joined from.**  If a rule is parsed, each of its
clauses joins the tokens of a segment of the rule, parentheses apart.  If these are two or more, the
clause is a condition with one of the three comparators iff they are three, the second one is a
comparator, no quoted literal among them has a blank, and the third is no whole number with too many
digits.  Then its name, its operator and its literal are what the three tokens write; and too many
digits are the one failure of such a clause. -/
theorem read_clause_iff (limits : Limits) (source : Text) (tree : Tree)
    (h : parse limits source = .ok tree) : ∀ clause ∈ tree.clauses,
      (∃ items xs, xs <:+: source.lexemes ∧ Group.IsClause items xs clause ∧
        clause.lexemes = xs.filter (!·.isParen)) ∧
      (2 ≤ clause.lexemes.length →
        ((∃ condition comparator, Condition.read clause = .ok condition ∧
            Comparator.ofText? condition.operator = some comparator) ↔
          ∃ x y z, clause.lexemes = [x, y, z] ∧ IsComparison x y z ∧ ¬z.text.IsOverlong)) ∧
      ∀ x y z, clause.lexemes = [x, y, z] → IsComparison x y z →
        (∀ literal, Literal.read z.text = .ok literal →
          Condition.read clause = .ok ⟨x.text, y.text, literal, clause⟩) ∧
        (z.text.IsOverlong → Condition.read clause = .error .tooManyDigits) := by
  obtain ⟨-, ⟨group, hs, hb⟩, -⟩ := parse_eq_ok_iff.1 h
  intro clause hm
  obtain ⟨items, xs, hxs, hc⟩ := Group.hasClause_of_builds hb rfl hs clause hm
  have hx : ∀ x ∈ clause.lexemes, x.WellFormed := fun _ => Text.wellFormed_of_mem_lexemes
  have hlexemes : clause.lexemes = xs.filter (!·.isParen) :=
    hc.lexemes_eq fun x hm => Text.wellFormed_of_mem_lexemes (hxs.subset hm)
  have hclause : clause = Text.unwords (clause.lexemes.map Lexeme.text) := by
    rw [hlexemes]
    exact hc.eq_unwords
  refine ⟨⟨items, xs, hxs, hc, hlexemes⟩, fun hlen => ?_, fun x y z htokens hcomparison => ?_⟩
  · have := Condition.exists_read_unwords_iff hx hlen
    rwa [← hclause] at this
  · have hwords : Text.words clause = [x.text, y.text, z.text] := by
      rw [htokens] at hx hclause
      rw [hclause, Text.words_unwords_eq_flatMap, List.flatMap_map, hcomparison.flatMap_words hx]
    refine ⟨fun literal hliteral => ?_, fun hz => ?_⟩
    · exact Condition.read_eq_ok_iff.2 ⟨z.text, hwords, hliteral, rfl⟩
    · exact Condition.read_eq_error_iff.2 (.inl ⟨⟨_, _, _, hwords, hz⟩, rfl⟩)

/-- A blank in a quoted literal, and a nested group in the other clause. -/
theorem read_clause_iff_nested :
    let source := "(a = 'x y') OR b (> 2)".toList
    let tree := operator orWord (operand "a = 'x y'".toList) (operand "b > 2".toList)
    parse {} source = .ok tree ∧
      (¬∃ condition comparator, Condition.read "a = 'x y'".toList = .ok condition ∧
        Comparator.ofText? condition.operator = some comparator) ∧
      Condition.read "b > 2".toList =
        .ok ⟨"b".toList, ['>'], .number (.int 2), "b > 2".toList⟩ := by
  intro source tree
  have h : parse {} source = .ok tree := by decide +kernel
  have hclauses := read_clause_iff {} source tree h
  simp only [tree, forall_mem_clauses_operator, clauses_operand, List.forall_mem_singleton]
    at hclauses
  obtain ⟨⟨-, hiff, -⟩, -, -, hread⟩ := hclauses
  refine ⟨h, fun hexists => ?_, ?_⟩
  · obtain ⟨x, y, z, htokens, hcomparison, -⟩ := (hiff (by decide +kernel)).1 hexists
    have hlexemes : Text.lexemes "a = 'x y'".toList =
        [⟨.word, ['a']⟩, ⟨.comparator, ['=']⟩, ⟨.quoted, "'x y'".toList⟩] := by decide +kernel
    obtain ⟨-, -, rfl⟩ := by simpa using hlexemes.symm.trans htokens
    exact hcomparison.not_hasBlank ⟨.quoted, "'x y'".toList⟩ (by simp) rfl ⟨' ', by decide, rfl⟩
  · have hlexemes : Text.lexemes "b > 2".toList =
        [⟨.word, ['b']⟩, ⟨.comparator, ['>']⟩, ⟨.word, ['2']⟩] := by decide +kernel
    have hcomparison : IsComparison ⟨.word, ['b']⟩ ⟨.comparator, ['>']⟩ ⟨.word, ['2']⟩ :=
      ⟨rfl, by simp⟩
    exact (hread _ _ _ hlexemes hcomparison).1 _ rfl

/-- Of a lone token this does not hold: a quoted literal can be cut into a condition. -/
example : parse {} "() 'a > b'".toList = .ok (operand "'a > b'".toList) ∧
    Condition.read "'a > b'".toList =
      .ok ⟨"'a".toList, ['>'], .text ['b'], "'a > b'".toList⟩ := by decide +kernel

/-- **Not every comparison is a condition**: its number can have too many digits. -/
theorem not_forall_exists_read :
    ¬∀ (limits : Limits) (source : Text) (tree : Tree), parse limits source = .ok tree →
      ∀ clause ∈ tree.clauses, ∀ x y z, clause.lexemes = [x, y, z] →
        Lexeme.IsComparison x y z → ∃ condition, Condition.read clause = .ok condition := by
  intro h
  let limits : Limits := { ruleLength := 5000 }
  let nines : Text := List.replicate (Text.maxDigits + 1) '9'
  let clause := Text.overlongClause "a".toList ['>']
  have hname : Text.IsName "a".toList := ⟨by decide, List.all_eq_true.1 rfl, rfl⟩
  have hword : ∀ c ∈ nines, isWordChar c := fun c hc => List.eq_of_mem_replicate hc ▸ rfl
  have hnines : Lexeme.WellFormed ⟨.word, nines⟩ :=
    Text.IsName.wellFormed ⟨List.cons_ne_nil _ _, hword, rfl⟩
  have hlen : (clause.length : Int) ≤ limits.ruleLength := by
    change ((Text.unwords ["a".toList, ['>'], nines]).length : Int) ≤ _
    rw [Text.length_unwords_triple, List.length_replicate]
    decide
  have hparse : parse limits clause = .ok (operand clause) :=
    parse_of_isNormal (Text.isNormal_comparison hname .greater hnines (.inl rfl)) hlen (by decide)
      (by decide)
  have htokens := Text.lexemes_comparison hname .greater hnines
  have hcomparison : Lexeme.IsComparison ⟨.word, "a".toList⟩ ⟨.comparator, ['>']⟩ ⟨.word, nines⟩ :=
    ⟨rfl, by simp⟩
  obtain ⟨condition, hread⟩ :=
    h limits clause _ hparse clause (List.mem_singleton_self _) _ _ _ htokens hcomparison
  have hlong : clause.HasOverlongLiteral :=
    Text.hasOverlongLiteral_overlongClause (by decide) (by decide)
  rw [Condition.read_eq_error_iff.2 (.inl ⟨hlong, rfl⟩)] at hread
  exact absurd hread (by simp)

end Tree

/-! ## Quoted literals -/

namespace Text

variable {w s : Text}

theorem words_comparison (hw : w.IsName) (c : Comparator) (m : Text) :
    words (unwords [w, c.text, m]) = w :: c.text :: words m := by
  have hname : words w = [w] :=
    words_of_not_isBlank hw.ne_nil fun d hd => not_isBlank_of_isWordChar (hw.isWordChar_of_mem d hd)
  have hcomparator : words c.text = [c.text] :=
    words_of_not_isBlank c.text_ne_nil c.not_isBlank_of_mem_text
  rw [words_unwords_eq_flatMap, List.flatMap_cons, List.flatMap_cons, List.flatMap_singleton, hname,
    hcomparator]
  rfl

theorem words_quoted (hs : ∀ d ∈ s, !isBlank d) : words s.quoted = [s.quoted] := by
  refine words_of_not_isBlank (List.cons_ne_nil _ _) fun d hd => ?_
  by_contra hblank
  obtain ⟨e, he, hb⟩ := exists_isBlank_quoted_iff.1 ⟨d, hd, by simpa using hblank⟩
  exact absurd (hs e he) (by simp [hb])

@[simp] theorem unquote_quoted (s : Text) : Literal.unquote s.quoted = s := by
  simp [Literal.unquote, quoted]

/-- **A quoted text is no number**, whatever it quotes: no numeral has a quote. -/
@[simp] theorem read_quoted (s : Text) : Literal.read s.quoted = .ok (.text s) := by
  have hline : Literal.dropFinalNewline s.quoted = s.quoted :=
    if_neg (by rw [getLast?_quoted]; decide)
  have hnone : Numeral.read? s.quoted = none := by
    refine Option.eq_none_iff_forall_ne_some.2 fun n hn => ?_
    exact absurd (Numeral.isPart_of_read? hn '\'' List.mem_cons_self) (by decide)
  rw [Literal.read, hline, hnone]
  simp only [unquote_quoted]

end Text

namespace Condition

variable {w s : Text}

/-- A quoted literal without a blank is read as the text that it quotes. -/
@[simp] theorem read_quoted (hw : w.IsName) (c : Comparator) (hs : ∀ d ∈ s, !Text.isBlank d) :
    let clause := Text.unwords [w, c.text, s.quoted]
    Condition.read clause = .ok ⟨w, c.text, .text s, clause⟩ := by
  intro clause
  have hwords : Text.words clause = [w, c.text, s.quoted] := by
    rw [Text.words_comparison hw c, Text.words_quoted hs]
  exact read_eq_ok_iff.2 ⟨s.quoted, hwords, Text.read_quoted s, rfl⟩

/-- A quoted literal with a blank makes a fourth word. -/
theorem read_quoted_of_isBlank (hw : w.IsName) (c : Comparator) {d : Char} (hd : d ∈ s)
    (hblank : Text.isBlank d) :
    let clause := Text.unwords [w, c.text, s.quoted]
    Condition.read clause = .error (.error (.malformed clause)) := by
  intro clause
  have htwo := Text.two_le_length_words_quoted hd hblank
  have hthree : (Text.words clause).length ≠ 3 := by
    rw [Text.words_comparison hw c, List.length_cons, List.length_cons]
    omega
  exact read_eq_error_iff.2 (.inr ⟨hthree, rfl⟩)

end Condition

namespace Tree

/-- **A quoted literal is data and nothing else.**  Whatever is quoted, the rule is one condition.
Without a blank in it, the condition compares with the quoted text: for a record that has the
attribute, `=` holds of this text only, and `<` and `>` order texts by code points and refuse any
other value.  With a blank in it, no record makes the condition true or false. -/
theorem parse_quoted (limits : Limits) (c : Comparator) {w s : Text} (hw : w.IsName) (hne : s ≠ [])
    (hs : ∀ d ∈ s, !isQuote d) :
    let clause := Text.unwords [w, c.text, s.quoted]
    (clause.length : Int) ≤ limits.ruleLength → 1 ≤ limits.nodes → 1 ≤ limits.depth →
      parse limits clause = .ok (operand clause) ∧
      ((∀ d ∈ s, !Text.isBlank d) →
        Condition.read clause = .ok ⟨w, c.text, .text s, clause⟩ ∧
        ∀ (record : Record) value, record.find? w = some value →
          (∀ t, value = .text t → ∃ b, (operand clause).evaluate record = .ok b ∧
            (b = true ↔ c.Relates Text.Precedes t s)) ∧
          ((∀ t, value ≠ .text t) → (operand clause).evaluate record =
            if c = .equal then .ok false
            else .error (.error (.incomparable value.kindName "string".toList c.text clause)))) ∧
      ((∃ d ∈ s, Text.isBlank d) → ∀ record : Record,
        (operand clause).evaluate record = .error (.error (.malformed clause))) := by
  intro clause hlen hsize hdepth
  refine ⟨?_, fun hblank => ?_, fun hblank record => ?_⟩
  · exact parse_of_isNormal (Text.isNormal_comparison hw c (.quoted hne hs) (.inr rfl)) hlen hsize
      hdepth
  · have hread := Condition.read_quoted hw c hblank
    refine ⟨hread, fun record value hvalue => ?_⟩
    have hevaluate : (operand clause).evaluate record =
        (Condition.holds record ⟨w, c.text, .text s, clause⟩).mapError .error :=
      Condition.evaluateClause_of_read hread
    rw [hevaluate]
    constructor
    · rintro t rfl
      rw [Condition.holds_of_compareWith? hvalue rfl]
      exact ⟨_, rfl, Text.accepts_compare_iff t s c⟩
    · intro htext
      rw [Condition.holds_of_compareWith?_eq_none hvalue (Condition.compareWith?_eq_none (by simp)
        fun t _ ht => absurd ht (htext t))]
      cases c <;> rfl
  · obtain ⟨d, hd, hdb⟩ := hblank
    rw [evaluate, evaluateClause, Condition.read_quoted_of_isBlank hw c hd hdb]
    rfl

/-- A keyword, parentheses and a comparator in a literal, and a record where it compares. -/
theorem parse_quoted_rule :
    let s : Text := "1)AND(b>2".toList
    let clause := Text.unwords ["a".toList, Comparator.equal.text, Text.quoted s]
    let record : Record := [("a".toList, .text s)]
    Text.IsName "a".toList ∧ s ≠ [] ∧ (∀ d ∈ s, !isQuote d) ∧
      parse {} clause = .ok (operand clause) ∧ (operand clause).evaluate record = .ok true := by
  intro s clause record
  have hw : Text.IsName "a".toList := ⟨by decide, List.all_eq_true.1 rfl, rfl⟩
  have hne : s ≠ [] := by decide
  have hs : ∀ d ∈ s, !isQuote d := List.all_eq_true.1 rfl
  obtain ⟨hparse, hread, -⟩ := parse_quoted {} .equal hw hne hs (by decide) (by decide) (by decide)
  obtain ⟨b, hb, hiff⟩ := ((hread (List.all_eq_true.1 rfl)).2 record (.text s) rfl).1 s rfl
  obtain rfl := hiff.2 rfl
  exact ⟨hw, hne, hs, hparse, hb⟩

end Tree

end Criteria
