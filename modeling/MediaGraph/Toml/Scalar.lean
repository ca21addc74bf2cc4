/-
Numbers, truth values and dates of TOML documents.

All of them are words without quotes, so a word is read first and then
classified as a whole.

* `integer?`: decimal integers with a sign, and unsigned ones in three other
  bases, of 64 bits.
* `isFloat`: fractions and exponents; a number too large for a double is none.
* `isDatetime`: dates, times of day, and both together with an offset.
* `scalar?`: the value of a word.
-/
import MediaGraph.Text.Decimal
import MediaGraph.Toml.Quoted
import MediaGraph.Toml.Value

namespace MediaGraph.Toml

open Text (isDigit natOf)

/-! ### Digits with underscores -/

/-- Digits, where a single underscore may stand between two of them. -/
def grouped (isDigit : Char → Bool) : List Char → Bool
  | [] => false
  | [c] => isDigit c
  | c :: '_' :: r => isDigit c && grouped isDigit r
  | c :: r => isDigit c && grouped isDigit r

/-- The digits without the underscores. -/
def ungrouped (cs : List Char) : List Char := cs.filter (· ≠ '_')

/-- Digits of a number without superfluous zeros in front. -/
def isDecimal (cs : List Char) : Bool :=
  grouped isDigit cs && (cs.head? ≠ some '0' || cs = ['0'])

/-- The sign of a number, and the rest. -/
def splitSign : List Char → Bool × List Char
  | '+' :: cs => (false, cs)
  | '-' :: cs => (true, cs)
  | cs => (false, cs)

/-! ### Integers -/

/-- The number that digits of a base up to 16 stand for. -/
def inBase (base : Nat) (cs : List Char) : Option Nat :=
  if grouped (fun c => (hexValue? c).any (· < base)) cs then
    (ungrouped cs).foldlM (fun n c => (hexValue? c).map (base * n + ·)) 0
  else none

/-- An integer of 64 bits, from `-2 ^ 63` on and below `2 ^ 63`. -/
def inRange (n : Int) : Option Int :=
  if -9223372036854775808 ≤ n ∧ n < 9223372036854775808 then some n else none

/-- Reads an integer. -/
def integer? : List Char → Option Int
  | '0' :: 'x' :: cs => (inBase 16 cs).bind fun n => inRange n
  | '0' :: 'o' :: cs => (inBase 8 cs).bind fun n => inRange n
  | '0' :: 'b' :: cs => (inBase 2 cs).bind fun n => inRange n
  | cs =>
    match splitSign cs with
    | (negative, digits) =>
      if isDecimal digits then
        let n : Int := natOf (ungrouped digits)
        inRange (if negative then -n else n)
      else none

/-! ### Floats -/

/-- A number from which on doubles round to infinity. -/
def overflowBound : Nat := Nat.pow 2 1024 - Nat.pow 2 970

/-- Whether `digits * 10 ^ (exponent - places)` rounds to infinity as a
double. -/
def overflows (digits : List Char) (places : Nat) (exponent : Int) : Bool :=
  let n := natOf digits
  let e := exponent - places
  if n = 0 then false
  else if 400 < e then true
  else if 0 ≤ e then overflowBound ≤ n * Nat.pow 10 e.toNat
  else if (digits.length : Int) ≤ -e then false
  else overflowBound * Nat.pow 10 (-e).toNat ≤ n

/-- A fraction or an exponent, or both, after a decimal number. -/
def isFraction (cs : List Char) : Bool :=
  let isMark := fun c => c = 'e' || c = 'E'
  let (negative, number) := splitSign cs
  let mantissa := number.takeWhile (!isMark ·)
  let whole := mantissa.takeWhile (· ≠ '.')
  let fraction := mantissa.dropWhile (· ≠ '.')
  let power := number.dropWhile (!isMark ·)
  let (shrinks, exponent) := splitSign (power.drop 1)
  let digits := ungrouped (whole ++ fraction.drop 1)
  let e : Int := natOf (ungrouped exponent)
  isDecimal whole &&
    (fraction ≠ [] || power ≠ []) &&
    (fraction = [] || grouped isDigit (fraction.drop 1)) &&
    (power = [] || grouped isDigit exponent) &&
    (negative || !overflows digits (ungrouped (fraction.drop 1)).length
      (if shrinks then -e else e))

/-- A number with a fraction or an exponent, infinity, or no number. -/
def isFloat (cs : List Char) : Bool :=
  isFraction cs || (splitSign cs).2 = ['i', 'n', 'f'] ||
    (splitSign cs).2 = ['n', 'a', 'n']

/-! ### Dates and times -/

/-- A number of exactly `width` digits between two bounds. -/
def fixed? (width low high : Nat) (cs : List Char) : Option Nat :=
  if cs.length = width ∧ cs.all isDigit ∧ low ≤ natOf cs ∧ natOf cs ≤ high then
    some (natOf cs)
  else none

/-- The days of a month. -/
def daysIn (year month : Nat) : Nat :=
  if month = 2 then
    if year % 4 = 0 ∧ (year % 100 ≠ 0 ∨ year % 400 = 0) then 29 else 28
  else if month = 4 ∨ month = 6 ∨ month = 9 ∨ month = 11 then 30
  else 31

/-- A day, as year, month and day joined by hyphens. -/
def isDate (cs : List Char) : Bool :=
  match cs with
  | [y1, y2, y3, y4, '-', m1, m2, '-', d1, d2] =>
    match fixed? 4 0 9999 [y1, y2, y3, y4], fixed? 2 1 12 [m1, m2] with
    | some year, some month =>
      (fixed? 2 1 (daysIn year month) [d1, d2]).isSome
    | _, _ => false
  | _ => false

/-- Hours and minutes. -/
def isHourMinute : List Char → Bool
  | [h1, h2, ':', m1, m2] =>
    (fixed? 2 0 23 [h1, h2]).isSome && (fixed? 2 0 59 [m1, m2]).isSome
  | _ => false

/-- A time of day with seconds and perhaps a fraction of them; a leap second
counts. -/
def isTime (cs : List Char) : Bool :=
  isHourMinute (cs.take 5) &&
    match cs.drop 5 with
    | ':' :: s1 :: s2 :: r =>
      (fixed? 2 0 60 [s1, s2]).isSome &&
        (r = [] || (r.head? = some '.' && r.drop 1 ≠ [] &&
          (r.drop 1).all isDigit))
    | _ => false

/-- A time of day, perhaps with an offset. -/
def isOffsetTime (cs : List Char) : Bool :=
  let time := cs.takeWhile fun c => isDigit c || c = ':' || c = '.'
  let offset := cs.dropWhile fun c => isDigit c || c = ':' || c = '.'
  isTime time &&
    match offset with
    | [] => true
    | ['Z'] => true
    | ['z'] => true
    | '+' :: r => isHourMinute r
    | '-' :: r => isHourMinute r
    | _ => false

/-- A date, a time of day, or a date and a time joined by a letter or by a
blank. -/
def isDatetime (cs : List Char) : Bool :=
  isTime cs || isDate cs ||
    (isDate (cs.take 10) &&
      match cs.drop 10 with
      | 'T' :: r => isOffsetTime r
      | 't' :: r => isOffsetTime r
      | ' ' :: r => isOffsetTime r
      | _ => false)

/-! ### Words -/

/-- The characters of words. -/
def isWord (c : Char) : Bool :=
  c.isAlphanum || c = '+' || c = '-' || c = '.' || c = '_' || c = ':'

/-- The word at the front. A blank between a date and a digit belongs to the
word. -/
def word (cs : List Char) : List Char × List Char :=
  let first := cs.takeWhile isWord
  match cs.dropWhile isWord with
  | ' ' :: d :: r =>
    if isDate first && isDigit d then
      (first ++ ' ' :: (d :: r).takeWhile isWord, (d :: r).dropWhile isWord)
    else (first, ' ' :: d :: r)
  | rest => (first, rest)

/-- The value of a word. -/
def scalar? (cs : List Char) : Option Value :=
  if cs = ['t', 'r', 'u', 'e'] then some (.boolean true)
  else if cs = ['f', 'a', 'l', 's', 'e'] then some (.boolean false)
  else match integer? cs with
  | some n => some (.integer n)
  | none =>
    if isFloat cs then some (.float (String.ofList cs))
    else if isDatetime cs then some (.datetime (String.ofList cs))
    else none

end MediaGraph.Toml
