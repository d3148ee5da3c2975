/-!
# Text — lists of code points, blanks and words

Rules, documents and messages are `Text`: lists of code points, so that every length and every
position counts code points.  `words` cuts a text at its blanks; `unwords` joins texts by single
spaces.
-/

namespace Criteria

/-- A list of code points. -/
abbrev Text := List Char

/-- Named, so that membership among texts is decided in one way everywhere. -/
instance : LawfulBEq Text := inferInstance

namespace Text

/-! ## Blanks and words -/

/-- White space, the separators of the control range included. -/
def isBlank (c : Char) : Bool :=
  let n := c.toNat
  (0x9 ≤ n && n ≤ 0xD) || (0x1C ≤ n && n ≤ 0x20) || n == 0x85 || n == 0xA0 || n == 0x1680 ||
    (0x2000 ≤ n && n ≤ 0x200A) || n == 0x2028 || n == 0x2029 || n == 0x202F || n == 0x205F ||
    n == 0x3000

theorem length_dropWhile_le (p : Char → Bool) (s : Text) :
    (s.dropWhile p).length ≤ s.length :=
  (List.dropWhile_sublist p).length_le

/-- The maximal runs of characters that are not blank, in order. -/
def words : Text → List Text
  | [] => []
  | c :: cs =>
    if isBlank c then words cs
    else (c :: cs.takeWhile (!isBlank ·)) :: words (cs.dropWhile (!isBlank ·))
termination_by s => s.length
decreasing_by
  · simp
  · exact Nat.lt_succ_of_le (length_dropWhile_le _ cs)

/-- The texts in order, a single space between neighbours. -/
def unwords : List Text → Text
  | [] => []
  | [w] => w
  | w :: ws => w ++ ' ' :: unwords ws

/-- The text without the characters at either end that satisfy `p`. -/
def trim (p : Char → Bool) (s : Text) : Text :=
  ((s.dropWhile p).reverse.dropWhile p).reverse

/-! ## Parts of a text -/

/-- What follows `start` in a text that begins with it. -/
def after? : Text → Text → Option Text
  | [], s => some s
  | _ :: _, [] => none
  | c :: start, d :: s => if c = d then after? start s else none

theorem after?_eq_some_iff {start s rest : Text} :
    after? start s = some rest ↔ s = start ++ rest := by
  fun_induction after? start s <;> simp_all [eq_comm]

/-! ## Integers -/

/-- The decimal numeral of an integer. -/
def ofInt (n : Int) : Text := (toString n).toList

/-- How many digits a whole number may be read or written with. -/
def maxDigits : Nat := 4300

/-- Whether an integer has no more digits than may be written. -/
def isWritable (n : Int) : Bool := n.natAbs < Nat.pow 10 maxDigits

/-- The first integer beyond 64 bits with a sign. -/
def wordBound : Int := 0x8000000000000000

/-- Whether an integer fits in 64 bits with a sign, as lengths and positions do. -/
def fitsWord (n : Int) : Bool := -wordBound ≤ n && n < wordBound

end Text

end Criteria
