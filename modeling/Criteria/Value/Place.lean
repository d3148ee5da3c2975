import Criteria.Number.Shortest
import Criteria.Value

/-!
# Value/Place — keys as the paths of issues show them

A text shows itself; a truth value and an integer of 64 bits show as a number, and any other key as
the text of an expression that denotes it.
-/

namespace Criteria

/-- How a step of a path is shown: by a name or by a number. -/
inductive Place
  | name (s : Text)
  | index (n : Int)
  deriving DecidableEq, Repr

/-! ## Expressions -/

/-- A function applied to arguments. -/
def Text.call (function : Text) (arguments : List Text) : Text :=
  function ++ '(' :: commas arguments ++ [')']
where
  /-- The arguments with commas between them. -/
  commas : List Text → Text
    | [] => []
    | [a] => a
    | a :: as => a ++ ',' :: ' ' :: commas as

/-- A date as an expression. -/
def Date.toText (d : Date) : Text :=
  Text.call "datetime.date".toList [Text.ofInt d.year, Text.ofInt d.month, Text.ofInt d.day]

/-- An offset from universal time as an expression: days rounded down, and the seconds beyond. -/
def offsetText (minutes : Int) : Text :=
  if minutes = 0 then "datetime.timezone.utc".toList
  else
    let days := if minutes < 0 then ["days=-1".toList] else []
    let seconds := 60 * (if minutes < 0 then minutes + 24 * 60 else minutes)
    Text.call "datetime.timezone".toList
      [Text.call "datetime.timedelta".toList (days ++ ["seconds=".toList ++ Text.ofInt seconds])]

/-- A moment as an expression; seconds and microseconds are left out where only zeros follow. -/
def Moment.toText (m : Moment) : Text :=
  let fine :=
    if m.micro ≠ 0 then [m.second, m.micro] else if m.second ≠ 0 then [m.second] else []
  let clock := [m.date.year, m.date.month, m.date.day, m.hour, m.minute] ++ fine
  let zone := m.offset.toList.map fun minutes => "tzinfo=".toList ++ offsetText minutes
  Text.call "datetime.datetime".toList (clock.map (fun n : Nat => Text.ofInt n) ++ zone)

/-! ## Keys -/

/-- How a key is shown.  An integer with too many digits to be written has no expression. -/
def Value.place : Value → Place
  | text s => .name s
  | int n =>
    if Text.fitsWord n then .index n
    else if Text.isWritable n then .name (Text.ofInt n)
    else .name "<unprintable int object>".toList
  | bool b => .index (if b then 1 else 0)
  | float x => .name x.toText
  | date d => .name d.toText
  | moment m => .name m.toText
  | null => .name "None".toList
  | value => .name value.kindName

end Criteria
