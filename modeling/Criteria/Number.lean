import Criteria.Number.Binary64

/-!
# Number — whole numbers and binary64 numbers on one line

A number is a whole number of any size or a binary64 number.  Both have a place on one line,
measured in quanta, so that they compare exactly: neither is rounded to the other's format.
-/

namespace Criteria

/-- A number as records and conditions hold it. -/
inductive Number
  | int (n : Int)
  | float (x : Binary64)
  deriving DecidableEq, Repr, Inhabited

namespace Number

/-- A place on the line of numbers; a finite one counts quanta from zero. -/
inductive Place
  | below
  | within (quanta : Int)
  | above
  deriving DecidableEq, Repr

/-- Where a number lies; nan lies nowhere. -/
def place? : Number → Option Place
  | int n => some (.within (n * Binary64.unit))
  | float .nan => none
  | float (.infinite negative) => some (if negative then .below else .above)
  | float (.finite negative quanta) => some (.within (signed negative quanta))

/-- The order of places along the line. -/
def Place.compare : Place → Place → Ordering
  | below, below => .eq
  | below, _ => .lt
  | within _, below => .gt
  | within m, within n => Ord.compare m n
  | within _, above => .lt
  | above, above => .eq
  | above, _ => .gt

/-- How two numbers compare; nan compares with nothing. -/
def compare? (a b : Number) : Option Ordering := do
  let p ← a.place?
  let q ← b.place?
  pure (p.compare q)

end Number

end Criteria
