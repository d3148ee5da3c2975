import Criteria.Text

/-!
# Calendar — days and moments

A day is a year, a month and a day of the month; a moment adds a time of day, and the offset of its
place from universal time if that is known.  `Date.ordinal` counts days and `Moment.instant`
microseconds, so that moments of different offsets compare.
-/

namespace Criteria

/-- A day of the calendar. -/
structure Date where
  year : Nat
  month : Nat
  day : Nat
  deriving DecidableEq, Repr, Inhabited

namespace Date

/-- Whether a year has a day more than the others. -/
def isLeap (year : Nat) : Bool := year % 4 = 0 && (year % 100 ≠ 0 || year % 400 = 0)

/-- How many days a month has. -/
def daysIn (year month : Nat) : Nat :=
  if month = 2 then (if isLeap year then 29 else 28)
  else if month ∈ [4, 6, 9, 11] then 30
  else 31

/-- Whether the calendar has the day. -/
def isValid (d : Date) : Bool :=
  1 ≤ d.year && 1 ≤ d.month && d.month ≤ 12 && 1 ≤ d.day && d.day ≤ daysIn d.year d.month

/-- The number of days before a month of a year. -/
def daysBefore (year month : Nat) : Nat :=
  (List.range (month - 1)).foldl (fun days i => days + daysIn year (i + 1)) 0

/-- The number of a day; the first day of year one has the number one. -/
def ordinal (d : Date) : Nat :=
  let years := d.year - 1
  365 * years + years / 4 - years / 100 + years / 400 + daysBefore d.year d.month + d.day

end Date

/-- A time of a day; `offset` counts minutes from universal time, eastwards. -/
structure Moment where
  date : Date
  hour : Nat
  minute : Nat
  second : Nat
  micro : Nat
  offset : Option Int
  deriving DecidableEq, Repr, Inhabited

namespace Moment

/-- Whether the time is one of a day and the offset less than a day. -/
def isValid (m : Moment) : Bool :=
  m.date.isValid && m.hour < 24 && m.minute < 60 && m.second < 60 &&
    m.offset.all (·.natAbs < 24 * 60)

/-- The microseconds up to a moment: in universal time if its offset is known, otherwise by its
clock. -/
def instant (m : Moment) : Int :=
  let minutes : Int := 24 * 60 * m.date.ordinal + 60 * m.hour + m.minute - m.offset.getD 0
  1000000 * (60 * minutes + m.second) + m.micro

/-- Whether two moments are one and the same.  Without an offset a moment is none with an offset. -/
def same (m n : Moment) : Bool := m.offset.isSome = n.offset.isSome && m.instant = n.instant

end Moment

end Criteria
