import Criteria.Calendar
import Criteria.Number

/-!
# Value — the values of records and documents

Records, stored trees and documents hold values of many types, some of which no rule can use.  An
object is a list of fields in order; the keys of a document need not be texts.  `kindName` names a
type in the words of conditions, `className` by its storage class.
-/

namespace Criteria

/-- A value of a record or a document. -/
inductive Value
  | null
  | bool (b : Bool)
  | int (n : Int)
  | float (x : Binary64)
  | text (s : Text)
  | bytes (bs : List UInt8)
  | date (d : Date)
  | moment (m : Moment)
  | list (items : List Value)
  | tuple (items : List Value)
  | object (fields : List (Value × Value))
  deriving Repr, Inhabited

/-- The fields of an object, in order. -/
abbrev Fields := List (Value × Value)

namespace Value

/-- The type of a value, as an error about a condition calls it. -/
def kindName : Value → Text
  | null => "null".toList
  | bool _ => "boolean".toList
  | int _ | float _ => "number".toList
  | text _ => "string".toList
  | list _ | tuple _ => "array".toList
  | object _ => "object".toList
  | bytes _ => "bytes".toList
  | date _ => "date".toList
  | moment _ => "datetime".toList

/-- The storage class of a value, as an error about a value out of place calls it. -/
def className : Value → Text
  | null => "NoneType".toList
  | bool _ => "bool".toList
  | int _ => "int".toList
  | float _ => "float".toList
  | text _ => "str".toList
  | bytes _ => "bytes".toList
  | date _ => "date".toList
  | moment _ => "datetime".toList
  | list _ => "list".toList
  | tuple _ => "tuple".toList
  | object _ => "dict".toList

/-- The number that a value is; a truth value is none. -/
def number? : Value → Option Number
  | int n => some (.int n)
  | float x => some (.float x)
  | _ => none

/-- The text that a value is. -/
def text? : Value → Option Text
  | text s => some s
  | _ => none

/-- The items of a list or a tuple; a text has its characters as items. -/
def items? : Value → Option (List Value)
  | list items | tuple items => some items
  | text s => some (s.map fun c => text [c])
  | _ => none

end Value

namespace Fields

/-- The value of the first field with a text as its key. -/
def find? (name : Text) : Fields → Option Value
  | [] => none
  | (.text key, value) :: fields => if key = name then some value else find? name fields
  | _ :: fields => find? name fields

end Fields

end Criteria
