import Criteria.Proofs.Dropping
import Criteria.Proofs.Explaining
import Criteria.Proofs.Storing
import Mathlib.Data.List.TakeWhile

/-!
# Proofs/Deciding — how the evaluation of a tree can fail

No node skips a clause, so a tree fails like the list of its clauses (`evaluate_eq_error_iff`), and
a clause fails either with an error about its condition or because its literal is a whole number
with more digits than are read (`evaluateClause_eq_tooManyDigits_iff`).  The connectives of a tree
that was parsed or read back have a meaning, so there is no third way: `evaluate_of_isAccepted`.
The second one is no evaluation error: `not_forall_evaluate_ok_or_error`.
-/

namespace Criteria

/-! ## Whole numbers with too many digits -/

namespace Text

theorem not_isBlank_of_mem_words {s w : Text} (h : w ∈ words s) : ∀ c ∈ w, isBlank c = false := by
  induction s using words.induct with
  | case1 => simp [words] at h
  | case2 c cs hc ih =>
    rw [words, if_pos hc] at h
    exact ih h
  | case3 c cs hc ih =>
    rw [words, if_neg hc, List.mem_cons] at h
    rcases h with rfl | h
    · refine List.forall_mem_cons.2 ⟨by simpa using hc, fun d hd => ?_⟩
      simpa using List.mem_takeWhile_imp hd
    · exact ih h

/-- **A whole number with more digits than are read**: decimal digits of any script after a sign,
leading zeros included. -/
def IsOverlong (raw : Text) : Prop :=
  ∃ sign digits, raw = sign ++ digits ∧ sign.IsSign ∧ (∀ c ∈ digits, (digit? c).isSome) ∧
    maxDigits < digits.length

/-- A condition whose literal is such a number. -/
def HasOverlongLiteral (clause : Text) : Prop :=
  ∃ name operator raw, words clause = [name, operator, raw] ∧ raw.IsOverlong

end Text

/-- **Which texts are whole numbers with too many digits.** -/
theorem Numeral.exists_read?_overlong_iff {s : Text} :
    (∃ n, (read? s = some n ∧ n.isWhole) ∧ Text.maxDigits < n.whole.length) ↔ s.IsOverlong := by
  simp only [read?_eq_some_iff, isWrittenAs_isWhole_iff]
  constructor
  · rintro ⟨_, ⟨sign, digits, ds, hs, hsign, hds, -, rfl⟩, hlen⟩
    exact ⟨sign, digits, hs, hsign, hds.isSome_digit?, hds.length_eq ▸ hlen⟩
  · rintro ⟨sign, digits, hs, hsign, hd, hlen⟩
    obtain ⟨ds, hds⟩ := Text.exists_areDigits_iff.2 hd
    rw [hds.length_eq] at hlen
    have hne : ds ≠ [] := List.ne_nil_of_length_pos (Nat.zero_lt_of_lt hlen)
    exact ⟨_, ⟨sign, digits, ds, hs, hsign, hds, hne, rfl⟩, hlen⟩

/-! ## Clauses -/

/-- **Only a whole number with too many digits is no literal.** -/
theorem Literal.read_eq_error_iff {raw : Text} {e : EvaluationFailure} :
    Literal.read raw = .error e ↔ (dropFinalNewline raw).IsOverlong ∧ e = .tooManyDigits := by
  rw [← Numeral.exists_read?_overlong_iff, Literal.read]
  cases Numeral.read? (dropFinalNewline raw) with
  | none => simp
  | some n =>
    simp only [Option.some.injEq, and_assoc, exists_eq_left', ← Nat.not_le]
    split_ifs with hw hl
    · simp only [hl, not_true_eq_false, false_and, and_false]
    · simp only [hw, hl, not_false_eq_true, true_and, Except.error.injEq, eq_comm]
    · simp only [hw, false_and, reduceCtorEq]

/-- A word has no line feed at its end. -/
theorem Literal.dropFinalNewline_of_mem_words {s raw : Text} (h : raw ∈ Text.words s) :
    dropFinalNewline raw = raw := by
  refine if_neg fun hlast => ?_
  have hblank := Text.not_isBlank_of_mem_words h '\n' (List.mem_of_getLast? hlast)
  exact absurd hblank (by decide)

/-- **A condition is taken apart** unless it is not three words, or its literal has too many
digits. -/
theorem Condition.read_eq_error_iff {clause : Text} {e : EvaluationFailure} :
    Condition.read clause = .error e ↔
      clause.HasOverlongLiteral ∧ e = .tooManyDigits ∨
        (Text.words clause).length ≠ 3 ∧ e = .error (.malformed clause) := by
  unfold Condition.read Text.HasOverlongLiteral
  split
  · rename_i name operator raw hwords
    have hraw : raw ∈ Text.words clause := by simp [hwords]
    rw [Outcome.bind_eq_error_iff, Literal.read_eq_error_iff,
      Literal.dropFinalNewline_of_mem_words hraw, hwords]
    constructor
    · rintro (⟨ho, rfl⟩ | ⟨_, -, h⟩)
      · exact .inl ⟨⟨name, operator, raw, rfl, ho⟩, rfl⟩
      · exact absurd h (by simp)
    · rintro (⟨⟨_, _, _, he, ho⟩, rfl⟩ | ⟨h, -⟩)
      · obtain ⟨-, -, rfl⟩ := by simpa using he
        exact .inl ⟨ho, rfl⟩
      · exact absurd rfl h
  · rename_i hne
    have hlen : (Text.words clause).length ≠ 3 := fun h => by
      obtain ⟨name, operator, raw, hwords⟩ := List.length_eq_three.1 h
      exact hne name operator raw hwords
    constructor
    · intro h
      exact .inr ⟨hlen, (Except.error.inj h).symm⟩
    · rintro (⟨⟨name, operator, raw, hwords, -⟩, -⟩ | ⟨-, rfl⟩)
      · exact absurd hwords (hne name operator raw)
      · rfl

/-- Conditions know no connectives, so they never complain of one. -/
theorem Condition.holds_ne_unsupportedConnective {record : Record} (c : Condition) (word : Text) :
    c.holds record ≠ .error (.unsupportedConnective word) := by
  unfold holds
  split
  · simp
  · split
    · simp
    · split
      · simp
      · split_ifs <;> simp

namespace Tree

variable {record : Record}

/-- **A clause fails for too many digits iff its literal has them**, whatever the record. -/
theorem evaluateClause_eq_tooManyDigits_iff {clause : Text} :
    evaluateClause record clause = .error .tooManyDigits ↔ clause.HasOverlongLiteral := by
  rw [evaluateClause, Outcome.bind_eq_error_iff, Condition.read_eq_error_iff]
  simp

/-- No clause fails with an error about a connective. -/
theorem evaluateClause_ne_unsupportedConnective (clause word : Text) :
    evaluateClause record clause ≠ .error (.error (.unsupportedConnective word)) := by
  intro h
  rw [evaluateClause, Outcome.bind_eq_error_iff, Condition.read_eq_error_iff] at h
  rcases h with (⟨-, h⟩ | ⟨-, h⟩) | ⟨condition, -, h⟩
  · exact absurd h (by simp)
  · exact absurd h (by simp)
  · obtain ⟨e, he, h⟩ := Outcome.mapError_eq_error_iff.1 h
    obtain rfl := EvaluationFailure.error.inj h
    exact condition.holds_ne_unsupportedConnective word he

/-! ## Trees -/

/-- Both sides are always evaluated, the left one first: there is no short cut. -/
theorem evaluate_operator {word : Text} (hw : isConnective word) (left right : Tree) :
    (operator word left right).evaluate record = left.evaluate record >>= fun l =>
      (fun r => if word = andWord then l && r else l || r) <$> right.evaluate record := by
  rw [evaluate]
  refine congrArg _ (funext fun l => ?_)
  cases right.evaluate record with
  | error e => rfl
  | ok r =>
    simp only [isConnective, Bool.or_eq_true, decide_eq_true_eq] at hw
    change (if word = andWord then _ else _) = Except.ok (if word = andWord then _ else _)
    split_ifs with hand hor
    · rfl
    · rfl
    · exact absurd (hw.resolve_left hand) hor

/-- **A tree fails like the list of its clauses**, if its connectives have a meaning: no node skips
a clause, so the first failure is that of the tree. -/
theorem evaluate_eq_error_iff {tree : Tree} (h : ∀ w ∈ tree.connectives, isConnective w)
    (e : EvaluationFailure) : tree.evaluate record = .error e ↔
      tree.clauses.mapM (evaluateClause record) = .error e := by
  induction tree generalizing e with
  | operand clause =>
    rw [clauses, evaluate, List.mapM_cons, Outcome.bind_eq_error_iff, List.mapM_nil]
    simp [pure, Except.pure, bind, Except.bind]
  | operator word left right ihl ihr =>
    rw [forall_mem_connectives_operator] at h
    obtain ⟨hleft, hw, hright⟩ := h
    rw [evaluate_operator hw, clauses, List.mapM_append]
    simp only [Outcome.bind_eq_error_iff, Outcome.map_eq_error_iff, ihl hleft, ihr hright,
      exists_and_right, Outcome.exists_ok_iff_of_error_iff (ihl hleft), reduceCtorEq, and_false,
      exists_false, or_false, pure, Except.pure]

variable {tree : Tree}

/-- The first clause without a truth value has a literal with too many digits. -/
def MeetsOverlong (record : Record) (tree : Tree) : Prop :=
  ∃ before clause after, tree.clauses = before ++ clause :: after ∧
    (∀ c ∈ before, ∃ b, evaluateClause record c = .ok b) ∧ clause.HasOverlongLiteral

/-- **The failure to read a number, of a tree**: the first clause to fail in post-order is one with
too long a literal. -/
theorem evaluate_eq_tooManyDigits_iff (h : ∀ w ∈ tree.connectives, isConnective w) :
    tree.evaluate record = .error .tooManyDigits ↔ tree.MeetsOverlong record := by
  rw [evaluate_eq_error_iff h, Outcome.mapM_eq_error_iff]
  simp only [evaluateClause_eq_tooManyDigits_iff, MeetsOverlong]

/-- **A connective is never the reason** why a tree has no truth value, if all have a meaning. -/
theorem evaluate_ne_unsupportedConnective (h : ∀ w ∈ tree.connectives, isConnective w)
    (word : Text) : tree.evaluate record ≠ .error (.error (.unsupportedConnective word)) := by
  rw [Ne, evaluate_eq_error_iff h, Outcome.mapM_eq_error_iff]
  rintro ⟨before, clause, after, -, -, he⟩
  exact evaluateClause_ne_unsupportedConnective clause word he

/-- The variant that raises nothing still lets this one failure through. -/
theorem tryEvaluate_eq_none_iff :
    tree.tryEvaluate record = none ↔ tree.evaluate record = .error .tooManyDigits := by
  unfold tryEvaluate
  split <;> simp_all

end Tree

/-- There is no report on a set iff there is none on one of its rules. -/
theorem RuleSet.explain_eq_none_iff {record : Record} {s : RuleSet} :
    s.explain record = none ↔ ∃ rule ∈ s.rules, rule.tree.tryEvaluate record = none := by
  rw [← not_iff_not, ← Ne, Option.ne_none_iff_exists']
  simp only [explain, Outcome.mapM_eq_some_iff, Outcome.exists_forall₂_iff, not_exists, not_and]
  refine forall₂_congr fun rule _ => ?_
  cases rule.tree.tryEvaluate record <;> simp

/-- A comparison with a number of nines, one more than are read. -/
def Text.overlongClause (name operator : Text) : Text :=
  unwords [name, operator, List.replicate (maxDigits + 1) '9']

theorem Text.hasOverlongLiteral_overlongClause {name operator : Text}
    (hname : name ≠ [] ∧ name.all (!isBlank ·))
    (hoperator : operator ≠ [] ∧ operator.all (!isBlank ·)) :
    (overlongClause name operator).HasOverlongLiteral := by
  have hnines : ∀ c ∈ List.replicate (maxDigits + 1) '9', c = '9' := fun _ =>
    List.eq_of_mem_replicate
  refine ⟨name, operator, _, words_unwords ?_, [], List.replicate (maxDigits + 1) '9', rfl,
    .inl rfl, ?_, ?_⟩
  · rw [List.all_eq_true] at hname hoperator
    refine List.forall_mem_cons.2 ⟨hname, List.forall_mem_cons.2 ⟨hoperator, ?_⟩⟩
    refine List.forall_mem_singleton.2 ⟨List.cons_ne_nil _ _, fun c hc => ?_⟩
    rw [hnines c hc]
    rfl
  · intro c hc
    rw [hnines c hc]
    decide
  · rw [List.length_replicate]
    exact Nat.lt_succ_self _

namespace Tree

/-- The tree was parsed from a rule, or read back from what stores one. -/
def IsAccepted (tree : Tree) : Prop :=
  (∃ limits source, parse limits source = .ok tree) ∨ ∃ limits value, decode limits value = .ok tree

/-- A tree that was accepted has no words but the two connectives. -/
theorem IsAccepted.isConnective {tree : Tree} (h : tree.IsAccepted) :
    ∀ w ∈ tree.connectives, isConnective w := by
  rcases h with ⟨limits, source, h⟩ | ⟨limits, value, h⟩
  · exact isConnective_of_parse h
  · exact isConnective_of_decodeAt Schema.lawful_validate h

/-- **Evaluation fails only with errors of its own, or for too many digits.**  A tree that was
parsed or read back has a truth value or an error about one of its conditions, unless the first
clause without a truth value compares with a whole number of too many digits.  Just then there is no
outcome that reports its own errors, and a set has a report unless one of its rules has none. -/
theorem evaluate_of_isAccepted (record : Record) :
    (∀ tree : Tree, tree.IsAccepted →
      ((∃ b, tree.evaluate record = .ok b) ∨
        (∃ error, tree.evaluate record = .error (.error error) ∧
          ∀ word, error ≠ .unsupportedConnective word) ∨
        tree.evaluate record = .error .tooManyDigits) ∧
      (tree.evaluate record = .error .tooManyDigits ↔ tree.MeetsOverlong record) ∧
      (tree.tryEvaluate record = none ↔ tree.MeetsOverlong record)) ∧
    ∀ s : RuleSet, s.Reachable →
      (s.explain record = none ↔ ∃ rule ∈ s.rules, rule.tree.MeetsOverlong record) := by
  refine ⟨fun tree h => ⟨?_, ?_, ?_⟩, fun s hs => ?_⟩
  · rcases hv : tree.evaluate record with (error | _) | b
    · refine .inr (.inl ⟨error, rfl, ?_⟩)
      rintro word rfl
      exact evaluate_ne_unsupportedConnective h.isConnective word hv
    · exact .inr (.inr rfl)
    · exact .inl ⟨b, rfl⟩
  · exact evaluate_eq_tooManyDigits_iff h.isConnective
  · rw [tryEvaluate_eq_none_iff, evaluate_eq_tooManyDigits_iff h.isConnective]
  · obtain ⟨limits, hsound⟩ := hs.sound
    rw [RuleSet.explain_eq_none_iff]
    refine exists_congr fun rule => and_congr_right fun hm => ?_
    rw [tryEvaluate_eq_none_iff,
      evaluate_eq_tooManyDigits_iff (isConnective_of_parse (hsound.parse_source rule hm))]

/-- The second clause has too many digits: it is met iff the first has a truth value. -/
theorem evaluate_of_isAccepted_overlong :
    let tree := operator andWord (operand "a > 1".toList)
      (operand (Text.overlongClause "b".toList ['<']))
    let record : Record := [("a".toList, .int 5)]
    tree.IsAccepted ∧ tree.MeetsOverlong record ∧
      tree.evaluate record = .error .tooManyDigits ∧ tree.tryEvaluate record = none ∧
      ¬tree.MeetsOverlong [] ∧ ∃ verdict, tree.tryEvaluate [] = some verdict := by
  intro tree record
  have hread : decode {} tree.encode = .ok tree :=
    decodeAt_encode Schema.lawful_validate (by simp [tree, isConnective])
      (by simp [tree, depth]; decide)
  have haccepted : tree.IsAccepted := .inr ⟨{}, tree.encode, hread⟩
  have hlong : Text.HasOverlongLiteral (Text.overlongClause "b".toList ['<']) :=
    Text.hasOverlongLiteral_overlongClause (by decide) (by decide)
  have hmeets : tree.MeetsOverlong record := ⟨["a > 1".toList], _, [], rfl,
    List.forall_mem_singleton.2 ⟨true, by decide +kernel⟩, hlong⟩
  have hmissing : tree.evaluate [] =
      .error (.error (.missingAttribute "a".toList "a > 1".toList)) := by
    have hfirst : (operand "a > 1".toList).evaluate [] =
        .error (.error (.missingAttribute "a".toList "a > 1".toList)) := by decide +kernel
    rw [evaluate, hfirst]
    rfl
  obtain ⟨-, hevaluate, htry⟩ := (evaluate_of_isAccepted record).1 tree haccepted
  obtain ⟨-, hempty, htryEmpty⟩ := (evaluate_of_isAccepted []).1 tree haccepted
  rw [hmissing] at hempty
  have hnot : ¬tree.MeetsOverlong [] := fun h => absurd (hempty.2 h) (by simp)
  exact ⟨haccepted, hmeets, hevaluate.2 hmeets, htry.2 hmeets, hnot,
    Option.ne_none_iff_exists'.1 fun h => hnot (htryEmpty.1 h)⟩

/-- **Evaluation can fail without an error of its own**: for too many digits. -/
theorem not_forall_evaluate_ok_or_error :
    ¬∀ (tree : Tree) (record : Record), tree.IsAccepted →
      (∃ b, tree.evaluate record = .ok b) ∨
        ∃ error, tree.evaluate record = .error (.error error) := by
  intro h
  let clause := Text.overlongClause "a".toList ['>']
  have hread : decode {} (operand clause).encode = .ok (operand clause) :=
    decodeAt_encode_operand Schema.lawful_validate (by decide) clause
  have hclause : (operand clause).evaluate [("a".toList, .int 5)] = .error .tooManyDigits :=
    evaluateClause_eq_tooManyDigits_iff.2
      (Text.hasOverlongLiteral_overlongClause (by decide) (by decide))
  rcases h _ [("a".toList, .int 5)] (.inr ⟨_, _, hread⟩) with ⟨b, hb⟩ | ⟨error, he⟩
  · rw [hclause] at hb
    exact absurd hb (by simp)
  · rw [hclause] at he
    exact absurd he (by simp)

end Tree

end Criteria
