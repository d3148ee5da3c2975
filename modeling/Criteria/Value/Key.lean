import Criteria.Assoc
import Criteria.Value

/-!
# Value/Key — the fields of an object under one key

Two keys are the same if they are equal texts, days or numbers, or one moment; truth values count as
the numbers one and zero, and null equals itself, as does nan.  An object keeps one field a key: the
place of the first, the value of the last.
-/

namespace Criteria

namespace Value

/-- The number that a value is as a key. -/
def keyNumber? : Value → Option Number
  | bool b => some (.int (if b then 1 else 0))
  | value => value.number?

/-- Whether two values are the same key. -/
def sameKey : Value → Value → Bool
  | null, null => true
  | text s, text t => s = t
  | date d, date e => d = e
  | moment m, moment n => m.same n
  | float .nan, float .nan => true
  | a, b =>
    match a.keyNumber?, b.keyNumber? with
    | some m, some n => m.compare? n = some .eq
    | _, _ => false

end Value

/-- The fields with one value a key. -/
def Fields.ofList (fields : Fields) : Fields := Assoc.ofListBy Value.sameKey fields

end Criteria
