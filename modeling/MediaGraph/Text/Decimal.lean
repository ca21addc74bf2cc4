/-
Decimal numbers in texts.

* `isDigit`, `digitValue`: the ASCII digits and their values.
* `natOf`: the number that a list of digits stands for.
* `unsigned?`: digits after an optional plus sign, below a given bound.
* `digitsOf`: the digits of a number; `natOf_digitsOf` reads them back.
* `padLeft`, `padRight`: texts brought to a width.
-/

namespace MediaGraph.Text

/-- The ASCII digits. -/
def isDigit (c : Char) : Bool := '0' ≤ c && c ≤ '9'

/-- The value of an ASCII digit. -/
def digitValue (c : Char) : Nat := c.toNat - '0'.toNat

/-- The number that decimal digits stand for, leading zeros allowed. -/
def natOf (cs : List Char) : Nat :=
  cs.foldl (fun n c => 10 * n + digitValue c) 0

/-- The number of a non-empty list of digits, if it is below `bound`. -/
def digits? (bound : Nat) (cs : List Char) : Option Nat :=
  if cs ≠ [] ∧ cs.all isDigit ∧ natOf cs < bound then some (natOf cs) else none

/-- Reads digits after an optional plus sign. -/
def unsigned? (bound : Nat) : List Char → Option Nat
  | '+' :: cs => digits? bound cs
  | cs => digits? bound cs

/-- The bound of 32-bit numbers, `2 ^ 32`. -/
def bound32 : Nat := 4294967296

/-- The digit of a value below ten. -/
def digitOf (n : Nat) : Char := Char.ofNat ('0'.toNat + n)

/-- The decimal digits of a number, without superfluous zeros. -/
def digitsOf (n : Nat) : List Char :=
  if n < 10 then [digitOf n] else digitsOf (n / 10) ++ [digitOf (n % 10)]

theorem digitValue_digitOf : ∀ n < 10, digitValue (digitOf n) = n := by
  decide

theorem isDigit_digitOf : ∀ n < 10, isDigit (digitOf n) = true := by
  decide

theorem natOf_append_singleton (cs : List Char) (c : Char) :
    natOf (cs ++ [c]) = 10 * natOf cs + digitValue c := by
  simp [natOf]

/-- The digits of a number stand for it. -/
theorem natOf_digitsOf (n : Nat) : natOf (digitsOf n) = n := by
  fun_induction digitsOf n with
  | case1 n h => simp [natOf, digitValue_digitOf n h]
  | case2 n h ih =>
    rw [natOf_append_singleton, ih, digitValue_digitOf _ (by omega)]
    omega

/-- The digits of a number are digits. -/
theorem all_isDigit_digitsOf (n : Nat) : (digitsOf n).all isDigit = true := by
  fun_induction digitsOf n with
  | case1 n h => simp [isDigit_digitOf n h]
  | case2 n h ih => simp [ih, isDigit_digitOf (n % 10) (by omega)]

theorem digitsOf_ne_nil (n : Nat) : digitsOf n ≠ [] := by
  unfold digitsOf
  split <;> simp

/-- A text with blanks before it, at least `width` characters long. -/
def padLeft (width : Nat) (s : String) : String :=
  "".pushn ' ' (width - s.length) ++ s

/-- A text with blanks after it, at least `width` characters long. -/
def padRight (width : Nat) (s : String) : String :=
  s.pushn ' ' (width - s.length)

end MediaGraph.Text
