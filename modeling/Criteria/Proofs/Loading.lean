import Criteria.Document
import Criteria.Proofs.Refusing

/-!
# Proofs/Loading — what is reported of a document that makes no rule set

A document is read, checked, its limits are resolved and its rules compiled, and each of these steps
can fail.  On every host a failure is an error of the rule set, or what the host raises, or one of
two others: an infinite limit, and an exceeded limit that cannot be reported, since it or what
exceeds it has too many digits to be written (`Host.report_ruleSet`).
-/

namespace Criteria

open Outcome

/-! ## Limits that are no integers -/

namespace Limits

/-- The entries that set a limit, in order. -/
def settings (entries : List (Text × Value)) : List (Text × Value) :=
  entries.filter fun entry => (Limit.ofKey? entry.1).isSome

theorem update_eq_error_iff {limits : Limits} {entries : List (Text × Value)} {e : IntegerError} :
    limits.update entries = .error e ↔
      (settings entries).mapM (fun entry => entry.2.toInt) = .error e := by
  induction entries generalizing limits with
  | nil => simp [update, settings]
  | cons entry entries ih =>
    obtain ⟨key, value⟩ := entry
    rw [update, settings, List.filter_cons]
    cases Limit.ofKey? key with
    | none => exact ih
    | some limit =>
      simp only [Option.isSome_some, if_true, List.mapM_cons, bind_eq_error_iff, ih, pure_ne_error,
        and_false, exists_false, or_false]
      rfl

/-- **The first limit that is no integer** is an infinite one. -/
def StartsInfinite (entries : List (Text × Value)) : Prop :=
  ∃ before key negative after,
    settings entries = before ++ (key, .float (.infinite negative)) :: after ∧
      ∀ entry ∈ before, ∃ n, entry.2.toInt = .ok n

end Limits

theorem Value.readInteger_ne_infinite (digit? : Char → Option Nat) (s : Text) :
    readInteger digit? s ≠ .error .infinite := by
  simp only [readInteger]
  repeat' split
  all_goals simp

/-- Infinity is the one value that is too large to be a limit. -/
theorem Value.toInt_eq_infinite_iff {value : Value} :
    value.toInt = .error .infinite ↔ ∃ negative, value = .float (.infinite negative) := by
  fun_cases Value.toInt value <;> simp_all [readInteger_ne_infinite]

namespace Limits

/-- **Limits are too large iff the first of them to fail is infinite.** -/
theorem ofEntries_eq_infinite_iff {entries : List (Text × Value)} :
    ofEntries entries = .error .infinite ↔ StartsInfinite entries := by
  rw [ofEntries, update_eq_error_iff, mapM_eq_error_iff]
  simp only [Value.toInt_eq_infinite_iff]
  constructor
  · rintro ⟨before, ⟨key, _⟩, after, hsplit, hbefore, negative, rfl⟩
    exact ⟨before, key, negative, after, hsplit, hbefore⟩
  · rintro ⟨before, key, negative, after, hsplit, hbefore⟩
    exact ⟨before, _, after, hsplit, hbefore, negative, rfl⟩

/-- **Limits are not resolved** iff one of them is no integer. -/
theorem exists_ofEntries_eq_error_iff {entries : List (Text × Value)} :
    (∃ e, ofEntries entries = .error e) ↔
      ∃ entry ∈ settings entries, ∀ n, entry.2.toInt ≠ .ok n := by
  simp only [ofEntries, update_eq_error_iff, exists_error_iff, mapM_eq_ok_iff, exists_forall₂_iff]
  push Not
  rfl

end Limits

/-! ## Errors of documents -/

namespace DocumentError

/-- The library's own error is reported iff its message can be written. -/
theorem report_kind_eq_ruleSet_iff {e : DocumentError} :
    e.report.kind = .ruleSet ↔ ∃ e', e = .set e' ∧ e'.IsWritable := by
  cases e with
  | set e => simpa [report] using e.report_kind_eq_ruleSet_iff
  | tooLarge => simp [report]

theorem report_eq_tooLarge_iff {e : DocumentError} :
    e.report = { kind := .tooLarge } ↔ e = .tooLarge := by
  cases e with
  | tooLarge => simp [report]
  | set e =>
    refine iff_of_false (fun h => ?_) (by simp)
    have hkind : e.report.kind = .tooLarge := congrArg Report.kind h
    by_cases hw : e.IsWritable
    · rw [e.report_kind_eq_ruleSet_iff.2 hw] at hkind
      exact absurd hkind (by decide)
    · rw [e.report_of_not_isWritable hw] at hkind
      exact absurd hkind (by decide)

/-- An error whose message cannot be written is lost in the attempt. -/
theorem report_eq_badNumber_iff {e : DocumentError} :
    e.report = { kind := .badNumber } ↔ ∃ e', e = .set e' ∧ ¬e'.IsWritable := by
  cases e with
  | tooLarge => simp [report]
  | set e =>
    simp only [report, set.injEq, exists_eq_left']
    refine ⟨fun h hw => ?_, RuleSetError.report_of_not_isWritable⟩
    have hkind := e.report_kind_eq_ruleSet_iff.2 hw
    rw [h] at hkind
    exact absurd hkind (by decide)

end DocumentError

namespace RuleSet

variable {d : Definition}

/-- The limits of a definition are too large iff it sets some that are. -/
theorem limitsFor_eq_tooLarge_iff :
    limitsFor none d = .error .tooLarge ↔
      ∃ entries, d.limits = some entries ∧ Limits.StartsInfinite entries := by
  rw [limitsFor, Definition.resolveLimits]
  cases hl : d.limits with
  | none => simp
  | some entries =>
    simp only [Option.some.injEq, exists_eq_left', ← Limits.ofEntries_eq_infinite_iff]
    cases Limits.ofEntries entries with
    | ok limits => simp [Functor.map, Except.map]
    | error e => cases e <;> simp [Functor.map, Except.map]

/-- Limits are an error of the set only as bad limits. -/
theorem limitsFor_eq_set {e : RuleSetError} (h : limitsFor none d = .error (.set e)) :
    e = .badLimits := by
  simp only [limitsFor] at h
  split at h <;> simp_all

/-- Limits with one that is no integer, and no infinite one before it, are bad. -/
theorem limitsFor_eq_badLimits {entries : List (Text × Value)} (hlimits : d.limits = some entries)
    (hbad : ∃ entry ∈ Limits.settings entries, ∀ n, entry.2.toInt ≠ .ok n)
    (hfinite : ¬Limits.StartsInfinite entries) :
    limitsFor none d = .error (.set .badLimits) := by
  obtain ⟨error, herror⟩ := Limits.exists_ofEntries_eq_error_iff.2 hbad
  rw [limitsFor, Definition.resolveLimits, hlimits]
  cases error with
  | infinite => exact absurd (Limits.ofEntries_eq_infinite_iff.1 herror) hfinite
  | malformed | wrongType => simp only [herror, Functor.map, Except.map]

end RuleSet

/-! ## Documents -/

namespace Host

variable {ξ : Type} {host : Host ξ} {label : Option Text} {content : Text}

/-- The reader of the format that a label names. -/
def reader (host : Host ξ) (label : Text) : Text → Except (ReadError ξ) Value :=
  if label = Format.json.label then host.json else host.yaml

/-- **The fields of a document are not read** for what its reader raises, or with an error of the
set that quotes no limit. -/
theorem fieldsOf_eq_error {label : Text} {error : HostError ξ}
    (h : host.fieldsOf label content = .error error) :
    (∃ x, error = .raised x ∧ host.reader label content = .error (.raised x)) ∨
      ∃ e, error = .document (.set e) ∧ e.exceeded? = none := by
  unfold fieldsOf at h
  unfold reader
  split_ifs at h ⊢
  · split at h
    · exact .inr ⟨_, (Except.error.inj h).symm, rfl⟩
    · exact .inl ⟨_, (Except.error.inj h).symm, ‹_›⟩
    · cases h
    · exact .inr ⟨_, (Except.error.inj h).symm, rfl⟩
  · split at h
    · exact .inr ⟨_, (Except.error.inj h).symm, rfl⟩
    · exact .inl ⟨_, (Except.error.inj h).symm, ‹_›⟩
    · cases h
    · cases h
    · exact .inr ⟨_, (Except.error.inj h).symm, rfl⟩

/-- **A document is not read** for what its reader raises, or with an error of the set that quotes
no limit. -/
theorem read_eq_error {error : HostError ξ} (h : host.read label content = .error error) :
    (∃ x, error = .raised x ∧
      host.reader (Format.labelFor label content) content = .error (.raised x)) ∨
      ∃ e, error = .document (.set e) ∧ e.exceeded? = none := by
  obtain h | ⟨fields, -, h⟩ := bind_eq_error_iff.1 h
  · exact fieldsOf_eq_error h
  · obtain ⟨issues, -, rfl⟩ := mapError_eq_error_iff.1 h
    exact .inr ⟨_, rfl, rfl⟩

/-- What the readers raise beyond the failures they document is not caught. -/
theorem read_eq_raised_iff {x : ξ} : host.read label content = .error (.raised x) ↔
    host.reader (Format.labelFor label content) content = .error (.raised x) := by
  constructor
  · intro h
    obtain ⟨y, hy, hreader⟩ | ⟨e, he, -⟩ := read_eq_error h
    · rwa [HostError.raised.inj hy]
    · exact absurd he (by simp)
  · intro h
    refine bind_eq_error_iff.2 (.inl ?_)
    unfold fieldsOf
    unfold reader at h
    split_ifs at h ⊢ <;> rw [h]

/-- **Parsing rules exhausts the stack** at one of them, if those before it are parsed. -/
def Exhausts (host : Host ξ) (limits : Limits) (rules : List RuleDefinition) (x : ξ) : Prop :=
  ∃ before rule after, rules = before ++ rule :: after ∧
    (∀ b ∈ before, host.exhausted limits b.source = none ∧
      ∃ tree, Tree.parse limits b.source = .ok tree) ∧
    host.exhausted limits rule.source = some x

/-- Step: a rule exhausts the stack itself, or is parsed and a later one does. -/
theorem exhausts_cons_iff {limits : Limits} {rule : RuleDefinition} {rules : List RuleDefinition}
    {x : ξ} : host.Exhausts limits (rule :: rules) x ↔
      host.exhausted limits rule.source = some x ∨
      (host.exhausted limits rule.source = none ∧
        ∃ tree, Tree.parse limits rule.source = .ok tree) ∧ host.Exhausts limits rules x := by
  rw [Exhausts, exists_split_cons_iff, Exhausts]
  simp only [List.forall_mem_cons, List.not_mem_nil, false_implies, implies_true, true_and]
  refine or_congr_right ?_
  constructor
  · rintro ⟨before, r, after, hsplit, ⟨hrule, hbefore⟩, hr⟩
    exact ⟨hrule, before, r, after, hsplit, hbefore, hr⟩
  · rintro ⟨hrule, before, r, after, hsplit, hbefore, hr⟩
    exact ⟨before, r, after, hsplit, ⟨hrule, hbefore⟩, hr⟩

/-- The code meets the first rule that exhausts the stack, if every rule before it is parsed. -/
theorem raised?_eq_some_iff {limits : Limits} {rules : List RuleDefinition} {x : ξ} :
    host.raised? limits rules = some x ↔ host.Exhausts limits rules x := by
  induction rules with
  | nil => simp [raised?, Exhausts]
  | cons rule rules ih =>
    rw [raised?, exhausts_cons_iff, ← ih]
    cases host.exhausted limits rule.source <;> cases Tree.parse limits rule.source <;> simp

/-- **The errors of a document**, in the order in which they are found: it is not read, its limits
are not resolved, and then its rules exhaust the stack or make no set. -/
theorem ruleSet_eq_error_iff (warn : Bool) {error : HostError ξ} :
    host.ruleSet label warn content = .error error ↔
      host.read label content = .error error ∨
      ∃ d, host.read label content = .ok d ∧
        ((∃ e, RuleSet.limitsFor none d = .error e ∧ .document e = error) ∨
        ∃ limits, RuleSet.limitsFor none d = .ok limits ∧
          ((∃ x, host.Exhausts limits d.rules x ∧ .raised x = error) ∨
          (∀ x, ¬host.Exhausts limits d.rules x) ∧
            ∃ e, RuleSet.ofRuleDefinitions limits warn d = .error e ∧
              .document (.set e) = error)) := by
  simp only [ruleSet, bind_eq_error_iff, mapError_eq_error_iff, mapError_eq_ok_iff,
    ← raised?_eq_some_iff]
  refine or_congr_right (exists_congr fun d => and_congr_right fun _ => or_congr_right
    (exists_congr fun limits => and_congr_right fun hlimits => ?_))
  cases host.raised? limits d.rules with
  | some x => simp
  | none =>
    simp only [RuleSet.outcome_ofDefinition, hlimits, mapError_eq_error_iff, bind, Except.bind,
      reduceCtorEq, false_and, exists_false, false_or, not_false_eq_true, implies_true, true_and]
    constructor
    · rintro ⟨_, ⟨e, he, rfl⟩, rfl⟩
      exact ⟨e, he, rfl⟩
    · rintro ⟨e, he, rfl⟩
      exact ⟨_, ⟨e, he, rfl⟩, rfl⟩

/-! ## Failures that are no errors of the set -/

/-- **The host raises something**: reading the document, or parsing its rules. -/
inductive Raises (host : Host ξ) (label : Option Text) (content : Text) (x : ξ) : Prop
  | reader : host.reader (Format.labelFor label content) content = .error (.raised x) →
      Raises host label content x
  | rule {d : Definition} {limits : Limits} : host.read label content = .ok d →
      RuleSet.limitsFor none d = .ok limits → host.Exhausts limits d.rules x →
      Raises host label content x

/-- **A limit of a document is infinite**, and those before it are integers. -/
def HasInfiniteLimit (host : Host ξ) (label : Option Text) (content : Text) : Prop :=
  ∃ d entries, host.read label content = .ok d ∧ d.limits = some entries ∧
    Limits.StartsInfinite entries

/-- **The limit that a document exceeds cannot be reported**: it or what exceeds it has too many
digits to be written. -/
def ExceedsUnwritable (host : Host ξ) (label : Option Text) (content : Text) : Prop :=
  ∃ d limits x, host.read label content = .ok d ∧ RuleSet.limitsFor none d = .ok limits ∧
    (∀ y, ¬host.Exhausts limits d.rules y) ∧ d.Exceeds limits x ∧ ¬x.IsWritable

/-- **What escapes of the host**: the readers raise it, or the stack is exhausted. -/
theorem ruleSet_eq_raised_iff (warn : Bool) {x : ξ} :
    host.ruleSet label warn content = .error (.raised x) ↔ host.Raises label content x := by
  rw [ruleSet_eq_error_iff, read_eq_raised_iff]
  constructor
  · rintro (h | ⟨d, hd, ⟨e, -, he⟩ | ⟨limits, hlimits, ⟨y, hy, hxy⟩ | ⟨-, e, -, he⟩⟩⟩)
    · exact .reader h
    · exact absurd he (by simp)
    · exact .rule hd hlimits (HostError.raised.inj hxy ▸ hy)
    · exact absurd he (by simp)
  · rintro (h | ⟨hd, hlimits, hx⟩)
    · exact .inl h
    · exact .inr ⟨_, hd, .inr ⟨_, hlimits, .inl ⟨x, hx, rfl⟩⟩⟩

/-- **What escapes of the limits**: the first limit that is no integer is infinite. -/
theorem ruleSet_eq_tooLarge_iff (warn : Bool) :
    host.ruleSet label warn content = .error (.document .tooLarge) ↔
      host.HasInfiniteLimit label content := by
  rw [ruleSet_eq_error_iff]
  constructor
  · rintro (h | ⟨d, hd, ⟨e, he, heq⟩ | ⟨limits, hlimits, ⟨y, -, hy⟩ | ⟨-, e, -, heq⟩⟩⟩)
    · obtain ⟨x, hx, -⟩ | ⟨e, he, -⟩ := read_eq_error h
      exacts [absurd hx (by simp), absurd he (by simp)]
    · obtain rfl := HostError.document.inj heq
      obtain ⟨entries, hentries, hinfinite⟩ := RuleSet.limitsFor_eq_tooLarge_iff.1 he
      exact ⟨d, entries, hd, hentries, hinfinite⟩
    · exact absurd hy (by simp)
    · exact absurd heq (by simp)
  · rintro ⟨d, entries, hd, hentries, hinfinite⟩
    exact .inr ⟨d, hd, .inl ⟨_, RuleSet.limitsFor_eq_tooLarge_iff.2 ⟨entries, hentries, hinfinite⟩,
      rfl⟩⟩

/-- **An error of a document quotes a limit** iff its rules exceed that limit. -/
theorem ruleSet_exceeded_iff (warn : Bool) {x : LimitExceeded} :
    (∃ e, host.ruleSet label warn content = .error (.document (.set e)) ∧ x ∈ e.exceeded?) ↔
      ∃ d limits, host.read label content = .ok d ∧ RuleSet.limitsFor none d = .ok limits ∧
        (∀ y, ¬host.Exhausts limits d.rules y) ∧ d.Exceeds limits x := by
  simp only [ruleSet_eq_error_iff]
  constructor
  · rintro ⟨e, h | ⟨d, hd, ⟨e', he', heq⟩ | ⟨limits, hlimits, ⟨y, -, hy⟩ | ⟨hstack, e', he', heq⟩⟩⟩,
      hx⟩
    · obtain ⟨y, hy, -⟩ | ⟨e', he', hnone⟩ := read_eq_error h
      · exact absurd hy (by simp)
      · obtain rfl := DocumentError.set.inj (HostError.document.inj he')
        exact absurd hx (by simp [hnone])
    · obtain rfl := HostError.document.inj heq
      obtain rfl := RuleSet.limitsFor_eq_set he'
      exact absurd hx (by simp [RuleSetError.exceeded?])
    · exact absurd hy (by simp)
    · obtain rfl := DocumentError.set.inj (HostError.document.inj heq)
      exact ⟨d, limits, hd, hlimits, hstack, (RuleSet.exists_exceeded_iff warn).1 ⟨_, he', hx⟩⟩
  · rintro ⟨d, limits, hd, hlimits, hstack, hexceeds⟩
    obtain ⟨e, he, hx⟩ := (RuleSet.exists_exceeded_iff warn).2 hexceeds
    exact ⟨e, .inr ⟨d, hd, .inr ⟨limits, hlimits, .inr ⟨hstack, e, he, rfl⟩⟩⟩, hx⟩

/-- **What escapes of the messages**: a limit is exceeded whose bound cannot be written. -/
theorem ruleSet_unwritable_iff (warn : Bool) :
    (∃ e, host.ruleSet label warn content = .error (.document (.set e)) ∧ ¬e.IsWritable) ↔
      host.ExceedsUnwritable label content := by
  constructor
  · rintro ⟨e, he, hw⟩
    simp only [RuleSetError.IsWritable, not_forall] at hw
    obtain ⟨x, hx, hw⟩ := hw
    obtain ⟨d, limits, hd, hlimits, hstack, hexceeds⟩ :=
      (ruleSet_exceeded_iff warn).1 ⟨e, he, hx⟩
    exact ⟨d, limits, x, hd, hlimits, hstack, hexceeds, hw⟩
  · rintro ⟨d, limits, x, hd, hlimits, hstack, hexceeds, hw⟩
    obtain ⟨e, he, hx⟩ :=
      (ruleSet_exceeded_iff warn).2 ⟨d, limits, hd, hlimits, hstack, hexceeds⟩
    exact ⟨e, he, fun h => hw (h x hx)⟩

/-- **What is reported of a document**, whatever reads and validates it.  It makes a set or an error
of the set, unless the host raises something, or a limit is infinite, or a limit is exceeded that
cannot be written; then just that happens.  In particular a limit that is no integer, whatever it is
instead, is an error of the set, unless the first such limit is infinite. -/
theorem report_ruleSet (host : Host ξ) (label : Option Text) (warn : Bool) (content : Text) :
    (((∃ s, host.ruleSet label warn content = .ok s) ∨
        ∃ e, host.ruleSet label warn content = .error (.document e) ∧ e.report.kind = .ruleSet) ↔
      (∀ x, ¬host.Raises label content x) ∧ ¬host.HasInfiniteLimit label content ∧
        ¬host.ExceedsUnwritable label content) ∧
    (∀ x, host.ruleSet label warn content = .error (.raised x) ↔ host.Raises label content x) ∧
    ((∃ e, host.ruleSet label warn content = .error (.document e) ∧
        e.report = { kind := .tooLarge }) ↔ host.HasInfiniteLimit label content) ∧
    ((∃ e, host.ruleSet label warn content = .error (.document e) ∧
        e.report = { kind := .badNumber }) ↔ host.ExceedsUnwritable label content) ∧
    ∀ d entries, host.read label content = .ok d → d.limits = some entries →
      (∃ entry ∈ Limits.settings entries, ∀ n, entry.2.toInt ≠ .ok n) →
      ¬Limits.StartsInfinite entries →
        ∃ e, host.ruleSet label warn content = .error (.document e) ∧
          e.report = { kind := .ruleSet, message := "Invalid expressionLimits: ".toList } := by
  refine ⟨?_, fun x => ruleSet_eq_raised_iff warn, ?_, ?_,
    fun d entries hread hlimits hbad hfinite =>
      ⟨_, (ruleSet_eq_error_iff warn).2 (.inr ⟨d, hread, .inl
        ⟨_, RuleSet.limitsFor_eq_badLimits hlimits hbad hfinite, rfl⟩⟩), rfl⟩⟩
  · simp only [DocumentError.report_kind_eq_ruleSet_iff, ← ruleSet_eq_raised_iff warn,
      ← ruleSet_eq_tooLarge_iff warn, ← ruleSet_unwritable_iff warn]
    cases host.ruleSet label warn content with
    | ok s => simp
    | error error =>
      cases error with
      | raised x => simp
      | document e => cases e <;> simp
  · simp only [DocumentError.report_eq_tooLarge_iff, exists_eq_right]
    exact ruleSet_eq_tooLarge_iff warn
  · simp only [DocumentError.report_eq_badNumber_iff, ← ruleSet_unwritable_iff warn]
    grind

/-- A limit that is a list. -/
theorem report_ruleSet_list :
    let content := "\x7b\"expressionLimits\": \x7b\"maxAstDepth\": [1]\x7d\x7d".toList
    ∃ e, standard.ruleSet none true content = .error (.document e) ∧
      e.report = { kind := .ruleSet, message := "Invalid expressionLimits: ".toList } := by
  intro content
  have hread : (standard.read none content).toOption.map
      (fun d => d.limits.map fun entries => entries.map fun e => (e.1, e.2.toInt)) =
        some (some [("maxAstDepth".toList, .error .wrongType)]) := by decide +kernel
  obtain ⟨d, hd, hentries⟩ := Option.map_eq_some_iff.1 hread
  obtain ⟨entries, hlimits, hmap⟩ := Option.map_eq_some_iff.1 hentries
  obtain ⟨entry, rfl, hentry⟩ := List.map_eq_singleton_iff.1 hmap
  obtain ⟨hkey, hvalue⟩ := Prod.mk.inj hentry
  have hset : Limits.settings [entry] = [entry] := by
    rw [Limits.settings, List.filter_singleton, hkey]
    rfl
  refine (report_ruleSet standard none true content).2.2.2.2 d [entry] (toOption_eq_some_iff.1 hd)
    hlimits ⟨entry, by simp [hset], by simp [hvalue]⟩ ?_
  rw [← Limits.ofEntries_eq_infinite_iff, Limits.ofEntries, Limits.update_eq_error_iff, hset]
  simp [hvalue, bind, Except.bind]

/-- **A document problem is not always an error of the set**: an infinite limit is reported as too
large a number. -/
theorem not_forall_ruleSet_ok_or_ruleSet :
    ¬∀ (label : Option Text) (warn : Bool) (content : Text),
      (∃ s, standard.ruleSet label warn content = .ok s) ∨
        ∃ e, standard.ruleSet label warn content = .error (.document e) ∧
          e.report.kind = .ruleSet := by
  intro h
  have hmade : (standard.ruleSet none true
      "\x7b\"expressionLimits\": \x7b\"maxRuleLength\": 1e999\x7d\x7d".toList).mapError
        (fun e => e.settle.report.kind) = .error .tooLarge := by decide +kernel
  rcases h none true _ with ⟨s, hs⟩ | ⟨e, he, hkind⟩
  · rw [hs] at hmade
    exact absurd hmade (by simp [Except.mapError])
  · rw [he] at hmade
    exact absurd (hkind.symm.trans (Except.error.inj hmade)) (by decide)

end Host

end Criteria
