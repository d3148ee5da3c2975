import Criteria.Conjunction
import Criteria.Proofs.Editing
import Criteria.Proofs.Rendering
import Criteria.Proofs.Scanning

/-!
# Proofs/Conjoining — rules combined are the conjunction written in the language of rules

Where every quote stands in a literal, what follows a rule does not change how it is read
(`Text.QuotesPairedFrom.settled`), so a rule in parentheses is read as it is alone.  The text of a
conjunction then means the conjunction of the trees (`Text.Means.both`), and what rules are combined
to is what their joined text is parsed to: `combine_eq_parse_conjoined`.
-/

namespace Criteria

open Token

namespace Text

/-! ## Paired quotes -/

/-- Every quote of a text, whose first character stands at `p`, is in a quoted literal. -/
def QuotesPairedFrom (p : Nat) (s : Text) : Prop :=
  ∀ i < s.length, s[i]? = some '\'' → ∃ t ∈ scanFrom p s,
    t.kind = .quoted ∧ t.position ≤ p + i ∧ p + i < t.position + t.value.length

instance (p : Nat) (s : Text) : Decidable (QuotesPairedFrom p s) :=
  inferInstanceAs (Decidable (∀ i < s.length, s[i]? = some '\'' → ∃ t ∈ scanFrom p s,
    t.kind = .quoted ∧ t.position ≤ p + i ∧ p + i < t.position + t.value.length))

/-- Every quote of a rule is in a quoted literal. -/
abbrev QuotesPaired (s : Text) : Prop := QuotesPairedFrom 0 s

/-- Quotes after a first piece are paired without it, if its tokens `ts` end where it ends. -/
theorem QuotesPairedFrom.tail {p : Nat} {w rest : Text} (ts : List Token)
    (h : QuotesPairedFrom p (w ++ rest))
    (hs : scanFrom p (w ++ rest) = ts ++ scanFrom (p + w.length) rest)
    (ht : ∀ t ∈ ts, t.position + t.value.length ≤ p + w.length) :
    QuotesPairedFrom (p + w.length) rest := by
  intro i hi hc
  have hlen : w.length + i < (w ++ rest).length := by simpa using hi
  have hchar : (w ++ rest)[w.length + i]? = some '\'' := by
    rw [List.getElem?_append_right (Nat.le_add_right _ _), Nat.add_sub_cancel_left, hc]
  obtain ⟨t, hm, hk, hle, hlt⟩ := h _ hlen hchar
  rw [hs, List.mem_append] at hm
  rcases hm with hm | hm
  · have := ht t hm
    omega
  · exact ⟨t, hm, hk, by omega, by omega⟩

/-- A quote that opens no literal is not paired. -/
theorem QuotesPairedFrom.not_isQuote {p : Nat} {c : Char} {rest : Text}
    (h : QuotesPairedFrom p (c :: rest)) (hs : scanFrom p (c :: rest) = scanFrom (p + 1) rest) :
    ¬isQuote c := by
  intro hc
  obtain rfl : c = '\'' := by simpa [isQuote] using hc
  obtain ⟨t, hm, -, hle, -⟩ := h 0 (by simp) rfl
  rw [hs] at hm
  have := (isScanFrom_scanFrom _ _).le_position t hm
  omega

/-! ## Texts that nothing that follows can change -/

variable {s r : Text}

theorem Breaks.append {rest : Text} (hs : s.Breaks) (hr : rest.Breaks) : (s ++ rest).Breaks := by
  cases s with
  | nil => exact hr
  | cons c s => exact hs

theorem settled_nil : Settled [] := by
  intro rest _
  rw [lexemes_nil, List.nil_append, List.nil_append]

/-- A word before a settled text that does not continue it. -/
theorem Settled.word {w : Text} (hne : w ≠ []) (hw : ∀ c ∈ w, isWordChar c) (hb : s.Breaks)
    (h : s.Settled) : (w ++ s).Settled := by
  intro rest hrest
  rw [List.append_assoc, lexemes_word hne hw (hb.append hrest), lexemes_word hne hw hb,
    h rest hrest, List.cons_append]

theorem Settled.quoted {body : Text} (hne : body ≠ []) (hb : ∀ c ∈ body, !isQuote c)
    (h : s.Settled) : Settled ('\'' :: body ++ '\'' :: s) := by
  intro rest hrest
  rw [List.append_assoc, show '\'' :: s ++ rest = '\'' :: (s ++ rest) from rfl,
    lexemes_quoted _ hne hb, lexemes_quoted _ hne hb, h rest hrest]
  rfl

/-- A mark is one character, so nothing is asked of what follows it. -/
theorem Settled.mark {c : Char} {kind : Kind} (hk : markKind? c = some kind) (h : s.Settled) :
    Settled (c :: s) := by
  intro rest hrest
  rw [List.cons_append, lexemes_mark _ hk, lexemes_mark _ hk, h rest hrest, List.cons_append]

/-- Of the characters that are dropped, only a quote can open a literal in what follows. -/
theorem Settled.dropped {c : Char} (hw : isWordChar c = false) (hm : markKind? c = none)
    (hq : ¬isQuote c) (h : s.Settled) : Settled (c :: s) := by
  intro rest hrest
  rw [List.cons_append, lexemes_dropped hw hm (absurd · hq), lexemes_dropped hw hm (absurd · hq),
    h rest hrest]

/-- **Where every quote is in a literal, what follows changes nothing.** -/
theorem QuotesPairedFrom.settled {p : Nat} (h : QuotesPairedFrom p s) : s.Settled := by
  induction s using scan_induction generalizing p with
  | nil => exact settled_nil
  | word w s hne hw hb ih =>
    have htail := h.tail [⟨wordKind w, w, p⟩] (scanFrom_word p hne hw hb) (by simp)
    exact .word hne hw hb (ih htail)
  | quoted body s hne hb ih =>
    have hpiece : '\'' :: body ++ '\'' :: s = ('\'' :: body ++ ['\'']) ++ s := by simp
    have hscan := scanFrom_quoted p s hne hb
    rw [hpiece] at h hscan
    have htail := h.tail [⟨.quoted, '\'' :: body ++ ['\''], p⟩]
      (by rw [hscan]; simp [Nat.add_assoc]) (by simp)
    exact .quoted hne hb (ih htail)
  | mark c kind s hk ih =>
    have htail : QuotesPairedFrom (p + 1) s :=
      h.tail (w := [c]) [⟨kind, [c], p⟩] (scanFrom_mark p s hk) (by simp)
    exact .mark hk (ih htail)
  | dropped c s hw hm hq ih =>
    have hscan := scanFrom_dropped p hw hm hq
    have htail : QuotesPairedFrom (p + 1) s := h.tail (w := [c]) [] hscan (by simp)
    exact .dropped hw hm (h.not_isQuote hscan) (ih htail)

/-! ## What texts mean -/

/-- The text is that of a tree, limits aside. -/
def Means (s : Text) (tree : Tree) : Prop :=
  ∃ items, Group.Spells items s.lexemes ∧ (Item.group items).Builds tree

/-- The text is that of a tree, and no connective in it stands outside of all parentheses. -/
def MeansUnsplit (s : Text) (tree : Tree) : Prop :=
  ∃ items, Group.Spells items s.lexemes ∧ (Item.group items).Builds tree ∧
    Group.split? items = none

variable {tree : Tree}

theorem MeansUnsplit.means (h : s.MeansUnsplit tree) : s.Means tree := by
  obtain ⟨items, hs, hb, -⟩ := h
  exact ⟨items, hs, hb⟩

/-- **In parentheses a text means the same**, and shows no connective. -/
theorem Means.parenthesized (hs : s.Settled) (h : s.Means tree) :
    (Tree.parenthesized s).MeansUnsplit tree := by
  obtain ⟨items, hspells, hb⟩ := h
  refine ⟨[.group items], ?_, .unwrap hb, rfl⟩
  rw [lexemes_parenthesized hs]
  exact .group rfl rfl hspells .nil

/-- **Texts joined by a connective mean its tree**, if the first shows no connective of its own. -/
theorem Means.joined {word : Text} {a b : Tree} (hw : isConnective word) (hs : s.Settled)
    (ha : s.MeansUnsplit a) (hb : r.Means b) : (joined word s r).Means (.operator word a b) := by
  obtain ⟨left, hsl, hbl, hnone⟩ := ha
  obtain ⟨right, hsr, hbr⟩ := hb
  have hsplit : Group.split? (left ++ .token word :: right) = some (left, word, right) :=
    Group.split?_eq_some_iff.2 ⟨rfl, hw, Group.split?_eq_none_iff.1 hnone⟩
  refine ⟨_, ?_, .operator hsplit hbl hbr⟩
  rw [lexemes_joined hw hs]
  exact hsl.append (.token (Lexeme.isParen_wordKind word) hsr)

/-! ## Conjunctions written out -/

/-- Two rules in one, each in parentheses: `(s) AND (r)`. -/
def both (s r : Text) : Text :=
  Tree.parenthesized s ++ (' ' :: (andWord ++ ' ' :: Tree.parenthesized r))

/-- A first rule and others in one, written out from the left. -/
def conjoined (first : Text) (rest : List Text) : Text := rest.foldl both first

theorem both_eq_joined (s r : Text) :
    both s r = joined andWord (Tree.parenthesized s) (Tree.parenthesized r) := by
  simp [both, joined]

/-- The text of a conjunction can stand inside of another one. -/
theorem Settled.both (hs : s.Settled) (hr : r.Settled) : (both s r).Settled := by
  rw [both_eq_joined]
  exact .joined (by decide) hs.parenthesized hr.parenthesized

/-- **`(s) AND (r)` means the conjunction**, whatever the shape of the two. -/
theorem Means.both {a b : Tree} (hs : s.Settled) (hr : r.Settled) (ha : s.Means a)
    (hb : r.Means b) : (both s r).Means (a.and b) := by
  rw [both_eq_joined]
  exact .joined (by decide) hs.parenthesized (ha.parenthesized hs) (hb.parenthesized hr).means

/-- **So does the text of rules joined one after another.** -/
theorem Means.conjoined {first : Text} {rest : List Text} {a : Tree} {trees : List Tree}
    (hf : first.Settled) (hrest : ∀ r ∈ rest, r.Settled) (ha : first.Means a)
    (htrees : List.Forall₂ Means rest trees) :
    (conjoined first rest).Means (trees.foldl Tree.and a) := by
  induction htrees generalizing first a with
  | nil => exact ha
  | cons hb _ ih =>
    obtain ⟨hr, hrest⟩ := List.forall_mem_cons.1 hrest
    exact ih (hf.both hr) hrest (ha.both hf hr hb)

end Text

namespace Tree

/-- **Trees are conjoined iff there are some, and not too many.** -/
theorem conjoin_eq_ok_iff {limits : Limits} {trees : List Tree} {tree : Tree} :
    conjoin limits trees = .ok tree ↔
      (trees.length : Int) ≤ limits.combinedRules ∧ conjunction? trees = some tree := by
  cases trees with
  | nil => simp [conjoin, conjunction?]
  | cons first rest =>
    simp only [conjoin, conjoinFrom, conjunction?, Outcome.mapError_eq_ok_iff,
      Outcome.bind_eq_ok_iff, Outcome.pure_eq_ok_iff, Option.some.injEq]
    constructor
    · rintro ⟨⟨⟩, hc, he⟩
      exact ⟨Limits.check_eq_ok_iff.1 hc, he⟩
    · rintro ⟨hl, he⟩
      exact ⟨(), Limits.check_eq_ok_iff.2 hl, he⟩

/-- **Rules are combined iff they are not too many and each is parsed**, to the conjunction of
their trees. -/
theorem combine_eq_ok_iff {limits : Limits} {rules : List Value} {tree : Tree} :
    combine limits rules = .ok tree ↔ (rules.length : Int) ≤ limits.combinedRules ∧
      ∃ trees, List.Forall₂ (fun rule t => parseValue limits rule = .ok t) rules trees ∧
        conjunction? trees = some tree := by
  simp only [combine, Outcome.bind_eq_ok_iff, Outcome.mapError_eq_ok_iff, Limits.guard_eq_ok_iff,
    Outcome.mapM_eq_ok_iff, conjoin_eq_ok_iff]
  constructor
  · rintro ⟨-, hlen, trees, htrees, -, h⟩
    exact ⟨hlen, trees, htrees, h⟩
  · rintro ⟨hlen, trees, htrees, h⟩
    exact ⟨(), hlen, trees, htrees, htrees.length_eq ▸ hlen, h⟩

/-- **Combining rules is parsing the text of their conjunction.**  Rules that are each parsed, with
every quote in a literal, and that are not too many, are combined to a tree; under all limits that
admit it and the length of the text, the text is parsed to that tree. -/
theorem combine_eq_parse_conjoined (limits : Limits) (first : Text) (rest : List Text)
    (hparse : ∀ r ∈ first :: rest, ∃ tree, parse limits r = .ok tree)
    (hquotes : ∀ r ∈ first :: rest, r.QuotesPaired)
    (hcount : ((first :: rest).length : Int) ≤ limits.combinedRules) :
    ∃ tree, combine limits ((first :: rest).map Value.text) = .ok tree ∧
      ∀ limits' : Limits, ((Text.conjoined first rest).length : Int) ≤ limits'.ruleLength →
        (tree.depth : Int) ≤ limits'.depth → (tree.size : Int) ≤ limits'.nodes →
          parse limits' (Text.conjoined first rest) = .ok tree := by
  choose! tree htree using hparse
  have htrees : List.Forall₂ (fun rule t => parseValue limits rule = .ok t)
      ((first :: rest).map Value.text) ((first :: rest).map tree) := by
    rw [List.forall₂_map_left_iff, List.forall₂_map_right_iff, List.forall₂_same]
    exact fun r hr => parseValue_eq_ok_iff.2 ⟨r, rfl, htree r hr⟩
  have hmeans : ∀ r ∈ first :: rest, r.Means (tree r) := fun r hr =>
    (parse_eq_ok_iff.1 (htree r hr)).2.1
  obtain ⟨hfirst, hrest⟩ := List.forall_mem_cons.1 fun r hr => (hquotes r hr).settled
  obtain ⟨hmean, hmeans⟩ := List.forall_mem_cons.1 hmeans
  have hjoined : (Text.conjoined first rest).Means ((rest.map tree).foldl and (tree first)) := by
    refine .conjoined hfirst hrest hmean ?_
    rwa [List.forall₂_map_right_iff, List.forall₂_same]
  refine ⟨_, combine_eq_ok_iff.2 ⟨by rwa [List.length_map], _, htrees, rfl⟩, ?_⟩
  exact fun limits' hlength hdepth hsize => parse_eq_ok_iff.2 ⟨hlength, hjoined, hsize, hdepth⟩

/-- A quoted parenthesis, a rule with two connectives, and redundant parentheses. -/
theorem combine_eq_parse_conjoined_shapes :
    let first := "a = 'x) AND (y'".toList
    let rest := ["b > 1 OR c < 2 AND e = 0".toList, "((d = 3))".toList]
    let joined := "((a = 'x) AND (y') AND (b > 1 OR c < 2 AND e = 0)) AND (((d = 3)))".toList
    Text.conjoined first rest = joined ∧
      ∃ tree, combine {} ((first :: rest).map Value.text) = .ok tree ∧
        parse {} joined = .ok tree := by
  intro first rest joined
  have hparse : ∀ r ∈ first :: rest, ∃ tree, parse {} r = .ok tree := by
    intro r hr
    have hsome : ∀ r ∈ first :: rest, (parse {} r).toOption.isSome := by decide +kernel
    obtain ⟨tree, htree⟩ := Option.isSome_iff_exists.1 (hsome r hr)
    exact ⟨tree, Outcome.toOption_eq_some_iff.1 htree⟩
  have hquotes : ∀ r ∈ first :: rest, Text.QuotesPaired r := by decide +kernel
  have hjoined : Text.conjoined first rest = joined := by decide +kernel
  obtain ⟨tree, hcombine, hjoin⟩ :=
    combine_eq_parse_conjoined {} first rest hparse hquotes (by decide)
  have hsmall : ∀ t ∈ (combine {} ((first :: rest).map Value.text)).toOption,
      (t.depth : Int) ≤ 32 ∧ (t.size : Int) ≤ 256 := by decide +kernel
  obtain ⟨hdepth, hsize⟩ := hsmall tree (Outcome.toOption_eq_some_iff.2 hcombine)
  refine ⟨hjoined, tree, hcombine, ?_⟩
  rw [← hjoined]
  exact hjoin {} (by decide +kernel) hdepth hsize

end Tree

end Criteria
