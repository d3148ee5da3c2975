import Criteria.Report

/-!
# Proofs/Reporting — which failures can be reported

A message quotes the bound that was exceeded and by what, and only numbers with at most
`Text.maxDigits` digits can be written.  So an error has its own report iff it quotes none that
cannot (`RuleSetError.report_kind_eq_ruleSet_iff`).
-/

namespace Criteria

/-- A message has room for both numbers. -/
def LimitExceeded.IsWritable (e : LimitExceeded) : Prop :=
  Text.isWritable e.bound && Text.isWritable e.actual

instance (e : LimitExceeded) : Decidable e.IsWritable :=
  inferInstanceAs (Decidable (_ = true))

/-- An exceeded limit has a message iff its numbers can be written. -/
theorem LimitExceeded.message_report_isSome_iff (e : LimitExceeded) :
    e.report.message.isSome ↔ e.IsWritable := by
  rw [report, Report.limitExceeded, IsWritable]
  split <;> simp [*]

theorem LimitExceeded.kind_report_of_isWritable {e : LimitExceeded} (h : e.IsWritable) :
    e.report.kind = .limitExceeded := by
  rw [IsWritable] at h
  rw [report, Report.limitExceeded, if_pos h]

theorem LimitExceeded.report_of_not_isWritable {e : LimitExceeded} (h : ¬e.IsWritable) :
    e.report = { kind := .badNumber } := by
  rw [IsWritable] at h
  rw [report, Report.limitExceeded, if_neg h]

namespace ParseError

/-- The limit that a rule without a tree exceeds. -/
def exceeded? : ParseError → Option LimitExceeded
  | limit exceeded => some exceeded
  | _ => none

/-- The message quotes no number that cannot be written. -/
def IsWritable (e : ParseError) : Prop := ∀ x ∈ e.exceeded?, x.IsWritable

theorem message_report_isSome_iff (e : ParseError) : e.report.message.isSome ↔ e.IsWritable := by
  cases e with
  | limit exceeded => simpa [report, IsWritable, exceeded?] using exceeded.message_report_isSome_iff
  | _ => simp [report, IsWritable, exceeded?]

theorem report_of_not_isWritable {e : ParseError} (h : ¬e.IsWritable) :
    e.report = { kind := .badNumber } := by
  cases e with
  | limit exceeded =>
    exact LimitExceeded.report_of_not_isWritable fun hw => h (by simpa [IsWritable, exceeded?])
  | _ => exact absurd (by simp [IsWritable, exceeded?]) h

end ParseError

namespace RuleSetError

/-- The limit that a set which cannot be made exceeds, or one of its rules. -/
def exceeded? : RuleSetError → Option LimitExceeded
  | badRule _ error => error.exceeded?
  | tooLarge exceeded => some exceeded
  | _ => none

/-- The message quotes no number that cannot be written. -/
def IsWritable (e : RuleSetError) : Prop := ∀ x ∈ e.exceeded?, x.IsWritable

theorem report_of_not_isWritable {e : RuleSetError} (h : ¬e.IsWritable) :
    e.report = { kind := .badNumber } := by
  cases e with
  | badRule id error =>
    rw [report, Report.causedBy, if_neg (mt error.message_report_isSome_iff.1 h),
      error.report_of_not_isWritable h]
  | tooLarge exceeded =>
    have hx : ¬exceeded.IsWritable := fun hw => h (by simpa [IsWritable, exceeded?])
    rw [report, Report.causedBy, if_neg (mt exceeded.message_report_isSome_iff.1 hx),
      exceeded.report_of_not_isWritable hx]
  | _ => exact absurd (by simp [IsWritable, exceeded?]) h

/-- **An error of a set is reported as one iff its message can be written.** -/
theorem report_kind_eq_ruleSet_iff (e : RuleSetError) :
    e.report.kind = .ruleSet ↔ e.IsWritable := by
  refine ⟨fun h => Classical.byContradiction fun hw => ?_, fun h => ?_⟩
  · rw [report_of_not_isWritable hw] at h
    exact absurd h (by decide)
  · cases e with
    | badRule id error =>
      rw [report, Report.causedBy, if_pos (error.message_report_isSome_iff.2 h)]
    | tooLarge exceeded =>
      have hx : exceeded.IsWritable := h exceeded rfl
      rw [report, Report.causedBy, if_pos (exceeded.message_report_isSome_iff.2 hx)]
    | _ => rfl

end RuleSetError

end Criteria
