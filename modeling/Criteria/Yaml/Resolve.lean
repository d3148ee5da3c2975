import Criteria.Number.Numeral
import Criteria.Value
import Criteria.Yaml.Node

/-!
# Yaml/Resolve — the value of a plain scalar

A plain scalar is null, a truth value, a number or a date if it has the form of one, and a text
otherwise.  Numbers may hold underscores between their digits, integers may be binary, octal or
hexadecimal, and digits with colons between them count by sixties.  A form without a value, such as
the thirteenth month, makes the document malformed.
-/

namespace Criteria.Yaml

/-! ## Words -/

/-- The texts that stand for null. -/
def nullWords : List Text := [[], "~".toList, "null".toList, "Null".toList, "NULL".toList]

/-- The texts that stand for true. -/
def trueWords : List Text :=
  ["yes".toList, "Yes".toList, "YES".toList, "true".toList, "True".toList, "TRUE".toList,
    "on".toList, "On".toList, "ON".toList]

/-- The texts that stand for false. -/
def falseWords : List Text :=
  ["no".toList, "No".toList, "NO".toList, "false".toList, "False".toList, "FALSE".toList,
    "off".toList, "Off".toList, "OFF".toList]

/-- The key that merges the fields of other mappings. -/
def mergeWord : Text := "<<".toList

/-- A key that stands for itself, while as a value it stands for nothing. -/
def valueWord : Text := "=".toList

/-! ## Numbers -/

/-- The value of a digit in a base up to sixteen. -/
def digitIn? (base : Nat) (c : Char) : Option Nat :=
  (Text.hexDigit? c).filter (· < base)

/-- Whether a text holds only digits of a base and underscores. -/
def isGrouped (base : Nat) (s : Text) : Bool :=
  s.all fun c => c = '_' || (digitIn? base c).isSome

/-- The values of the digits of a text, past its underscores. -/
def groupedDigits (base : Nat) (s : Text) : List Nat := s.filterMap (digitIn? base)

/-- What becomes of a text that has the form of a value. -/
abbrev Form := Except Failure Value

/-- A value, if the form has one. -/
def Form.guard (holds : Bool) (value : Value) : Form :=
  if holds then .ok value else .error .malformed

/-- The integer that digits of a base write; a base other than ten has to have a digit. -/
def prefixed (base : Nat) (negative : Bool) (s : Text) : Form :=
  let digits := groupedDigits base s
  Form.guard (digits ≠ []) (.int (signed negative (Text.ofDigits base digits)))

/-- The parts of a text between colons. -/
def splitColons : Text → Text × List Text
  | [] => ([], [])
  | c :: cs =>
    let (part, parts) := splitColons cs
    if c = ':' then ([], part :: parts) else (c :: part, parts)

/-- Whether a text is a number below sixty, of one digit or two. -/
def isSixty : Text → Bool
  | [a] => a.isDigit
  | [a, b] => a.isDigit && a.toNat < 0x36 && b.isDigit
  | _ => false

/-- The number that counts by sixties. -/
def ofSixties (first : List Nat) (parts : List Text) : Nat :=
  parts.foldl (fun n part => 60 * n + Text.ofDigits 10 (groupedDigits 10 part))
    (Text.ofDigits 10 first)

/-- The integer without a sign, if the text has the form of one. -/
def unsignedInteger? (negative : Bool) : Text → Option Form
  | ['0'] => some (.ok (.int 0))
  | '0' :: 'b' :: ds =>
    if ds ≠ [] && isGrouped 2 ds then some (prefixed 2 negative ds) else none
  | '0' :: 'x' :: ds =>
    if ds ≠ [] && isGrouped 16 ds then some (prefixed 16 negative ds) else none
  | '0' :: ds => if isGrouped 8 ds then some (prefixed 8 negative ('0' :: ds)) else none
  | c :: cs =>
    let (part, parts) := splitColons cs
    if c.isDigit && isGrouped 10 part && parts.all isSixty then
      let first := groupedDigits 10 (c :: part)
      some (Form.guard (first.length ≤ Text.maxDigits)
        (.int (signed negative (ofSixties first parts))))
    else none
  | [] => none

/-- An exponent of a float: a letter, a sign and digits; or nothing. -/
def isExponent : Text → Bool
  | [] => true
  | e :: sign :: d :: ds =>
    (e = 'e' || e = 'E') && (sign = '+' || sign = '-') && (d :: ds).all Char.isDigit
  | _ => false

/-- Whether a text is digits and underscores that begin with a digit. -/
def isGroup : Text → Bool
  | c :: cs => c.isDigit && isGrouped 10 cs
  | [] => false

/-- The text before the first point and the text after it. -/
def splitPoint? : Text → Option (Text × Text)
  | [] => none
  | c :: cs =>
    if c = '.' then some ([], cs)
    else (splitPoint? cs).map fun (before, after) => (c :: before, after)

/-- The sum of counts of quanta, each worth sixty times the one before it.  Every product and every
sum is rounded; the unit of every count has to be a float. -/
def sumSixties (sum base : Nat) : List Nat → Except Failure Nat
  | [] => .ok sum
  | quanta :: rest =>
    let unit := Binary64.roundRatio base 1
    if unit < Binary64.overflow then
      sumSixties (Binary64.addQuanta sum (Binary64.mulQuanta quanta unit)) (60 * base) rest
    else .error .tooLarge

/-- The count of quanta nearest to a number with digits before and after its point. -/
def quantaOf (before after : Text) : Nat :=
  let fraction := groupedDigits 10 after
  Binary64.roundRatio (Text.ofDigits 10 (groupedDigits 10 before ++ fraction))
    (Nat.pow 10 fraction.length)

/-- The float of parts that count by sixties, the last one first, and digits after its point. -/
def sixtiesFloat (negative : Bool) (parts : List Text) (after : Text) : Form :=
  let quanta :=
    match parts with
    | [] => []
    | last :: parts => quantaOf last after :: parts.map (quantaOf · [])
  (sumSixties 0 1 quanta).map fun sum => .float (Binary64.ofQuanta negative sum)

/-- The texts that stand for infinity after a point. -/
def infiniteWords : List Text := ["inf".toList, "Inf".toList, "INF".toList]

/-- The texts that stand for nan after a point. -/
def nanWords : List Text := ["nan".toList, "NaN".toList, "NAN".toList]

/-- The float that a text has the form of. -/
def float? (s : Text) : Option Form :=
  let (negative, body) := Numeral.takeSign s
  match splitPoint? body with
  | none => none
  | some (before, after) =>
    let digits := after.takeWhile fun c => c = '_' || c.isDigit
    let isDecimal := isExponent (after.drop digits.length) &&
      (isGroup before || (s.head? = some '.' && isGroup digits))
    if isDecimal then
      ((Numeral.readWith? Text.asciiDigit? (body.filter (· ≠ '_')))).map fun n =>
        .ok (.float { n with negative }.toBinary64)
    else if before = [] ∧ after ∈ infiniteWords then some (.ok (.float (.infinite negative)))
    else if s.head? = some '.' ∧ after ∈ nanWords then some (.ok (.float .nan))
    else
      match splitColons before with
      | (first, part :: parts) =>
        if isGroup first && (part :: parts).all isSixty && isGrouped 10 after then
          some (sixtiesFloat negative (first :: part :: parts).reverse after)
        else none
      | _ => none

/-! ## Dates -/

/-- The number that ASCII digits write, if a text is so many of them. -/
def fixedDigits? (least most : Nat) (s : Text) : Option Nat :=
  if least ≤ s.length && s.length ≤ most && s.all Char.isDigit then
    some (Text.ofDigits 10 (groupedDigits 10 s))
  else none

/-- The parts of a text around the first character that satisfies `p`. -/
def splitAtFirst (p : Char → Bool) (s : Text) : Text × Text :=
  (s.takeWhile (!p ·), (s.dropWhile (!p ·)).tail)

/-- A date with `least` digits or more for month and day. -/
def yearMonthDay? (least : Nat) (s : Text) : Option Date := do
  let (year, rest) := splitAtFirst (· = '-') s
  let (month, day) := splitAtFirst (· = '-') rest
  pure ⟨← fixedDigits? 4 4 year, ← fixedDigits? least 2 month, ← fixedDigits? least 2 day⟩

/-- The offset from universal time that a text is, in minutes; it may be left out. -/
def offset? (s : Text) : Option (Option Int) :=
  match s.dropWhile isBlank with
  | [] => some none
  | ['Z'] => some (some 0)
  | sign :: rest =>
    if sign = '+' ∨ sign = '-' then do
      let (hours, minutes) := splitAtFirst (· = ':') rest
      let h ← fixedDigits? 1 2 hours
      let m ← if rest.contains ':' then fixedDigits? 2 2 minutes else some 0
      pure (some (signed (sign = '-') (60 * h + m)))
    else none

/-- The microseconds that digits after a point are; only the first six count. -/
def micros (digits : Text) : Nat :=
  let counted := (groupedDigits 10 digits).take 6
  Text.ofDigits 10 (counted ++ List.replicate (6 - counted.length) 0)

/-- The moment of a date at a time of day, which an offset may follow. -/
def moment? (date : Date) (s : Text) : Option Moment := do
  let (hour, rest) := splitAtFirst (· = ':') s
  let (minute, rest) := splitAtFirst (· = ':') rest
  let hour ← fixedDigits? 1 2 hour
  let minute ← fixedDigits? 2 2 minute
  let second ← fixedDigits? 2 2 (rest.take 2)
  let rest := rest.drop 2
  let fraction := if rest.head? = some '.' then rest.tail.takeWhile Char.isDigit else []
  let rest := if rest.head? = some '.' then rest.tail.dropWhile Char.isDigit else rest
  let offset ← offset? rest
  pure { date, hour, minute, second, micro := micros fraction, offset }

/-- The date, or the moment of one, that a text has the form of. -/
def date? (s : Text) : Option Form :=
  match yearMonthDay? 2 s with
  | some date => some (Form.guard date.isValid (.date date))
  | none => do
    let (date, time) := splitAtFirst (fun c => c = 'T' || c = 't' || isBlank c) s
    let date ← yearMonthDay? 1 date
    let time := if s.contains 'T' || s.contains 't' then time else time.dropWhile isBlank
    let moment ← moment? date time
    pure (Form.guard moment.isValid (.moment moment))

/-! ## Resolution -/

/-- The value of a plain scalar. -/
def resolve (s : Text) : Form :=
  if s ∈ nullWords then .ok .null
  else if s ∈ trueWords then .ok (.bool true)
  else if s ∈ falseWords then .ok (.bool false)
  else
    let (negative, body) := Numeral.takeSign s
    match (float? s).or ((unsignedInteger? negative body).or (date? s)) with
    | some form => form
    | none => Form.guard (s ≠ mergeWord ∧ s ≠ valueWord) (.text s)

end Criteria.Yaml
