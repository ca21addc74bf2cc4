/-
Blanks, line ends and comments of TOML documents.

* `isSpace`, `isPlain`: blanks within a line, and the characters that may
  stand in comments.
* `lineEnd?`: the rest after the end of a line.
* `skipTrivia`: the rest after blanks, line ends and comments.
-/

namespace MediaGraph.Toml

/-- A blank within a line. -/
def isSpace (c : Char) : Bool := c = ' ' || c = '\t'

/-- A character that may stand anywhere but in a key: no control character,
the tab apart. -/
def isPlain (c : Char) : Bool :=
  c = '\t' || (0x20 ≤ c.toNat && c.toNat ≠ 0x7F)

/-- The rest after the blanks at the front. -/
def skipSpace (cs : List Char) : List Char := cs.dropWhile isSpace

/-- The rest after a comment, which ends before the line does. -/
def skipComment : List Char → List Char
  | '#' :: cs => cs.dropWhile isPlain
  | cs => cs

/-- The rest after a line break. -/
def lineBreak? : List Char → Option (List Char)
  | '\n' :: cs => some cs
  | '\r' :: '\n' :: cs => some cs
  | _ => none

/-- The rest after blanks, a comment if there is one, and the end of the line
or of the document. -/
def lineEnd? (cs : List Char) : Option (List Char) :=
  match skipComment (skipSpace cs) with
  | [] => some []
  | rest => lineBreak? rest

theorem length_dropWhile_le (p : Char → Bool) (cs : List Char) :
    (cs.dropWhile p).length ≤ cs.length :=
  (List.dropWhile_sublist p).length_le

/-- The rest after blanks, line breaks and comments. -/
def skipTrivia (cs : List Char) : List Char :=
  match cs with
  | [] => []
  | '#' :: r => skipTrivia (r.dropWhile isPlain)
  | '\r' :: '\n' :: r => skipTrivia r
  | c :: r => if isSpace c || c = '\n' then skipTrivia r else c :: r
termination_by cs.length
decreasing_by
  · exact Nat.lt_succ_of_le (length_dropWhile_le _ _)
  all_goals
    simp only [List.length_cons]
    omega

/-- The rest after blanks and line breaks. -/
def skipBlankLines : List Char → List Char
  | '\r' :: '\n' :: r => skipBlankLines r
  | c :: r => if isSpace c || c = '\n' then skipBlankLines r else c :: r
  | [] => []

theorem length_skipBlankLines_le (cs : List Char) :
    (skipBlankLines cs).length ≤ cs.length := by
  fun_induction skipBlankLines cs with
  | case1 r ih => exact Nat.le_succ_of_le (Nat.le_succ_of_le ih)
  | case2 c r _ _ ih => exact Nat.le_succ_of_le ih
  | case3 c r => exact Nat.le_refl _
  | case4 => exact Nat.le_refl _

end MediaGraph.Toml
