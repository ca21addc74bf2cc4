/-
Quoted strings of TOML documents.

There are four forms: basic strings between quotation marks, in which a
backslash starts an escape, literal strings between apostrophes, in which
nothing is special, and both again with the delimiter three times, in which
line breaks may stand.

* `escape?`: what a backslash and the characters after it stand for.
* `basicBody`, `literalBody`: the text up to the closing delimiter.
* `quoted?`: any of the four forms.
* `Traits.of`: what decides the form in which a text is written.
* `quote`: a text in the first form that suits it.
-/
import MediaGraph.Toml.Trivia

namespace MediaGraph.Toml

/-! ### Escapes -/

/-- The value of a hexadecimal digit. -/
def hexValue? (c : Char) : Option Nat :=
  if '0' ≤ c ∧ c ≤ '9' then some (c.toNat - '0'.toNat)
  else if 'a' ≤ c ∧ c ≤ 'f' then some (c.toNat - 'a'.toNat + 10)
  else if 'A' ≤ c ∧ c ≤ 'F' then some (c.toNat - 'A'.toNat + 10)
  else none

/-- The number that hexadecimal digits stand for. -/
def hexNumber? (cs : List Char) : Option Nat :=
  cs.foldlM (fun n c => (hexValue? c).map (16 * n + ·)) 0

/-- The character of a code point; surrogates are none. -/
def charOf? (n : Nat) : Option Char :=
  if h : n.isValidChar then some (Char.ofNatAux n h) else none

/-- The character whose code point is written with exactly `digits`
hexadecimal digits. -/
def codePoint? (digits : Nat) (cs : List Char) :
    Option (List Char × List Char) := do
  let hex := cs.take digits
  if hex.length ≠ digits then none
  let c ← charOf? (← hexNumber? hex)
  pure ([c], cs.drop digits)

/-- A backslash at the end of a line joins it with the next text: blanks and
line breaks after it are dropped. -/
def joinLines? (cs : List Char) : Option (List Char × List Char) :=
  (lineBreak? (skipSpace cs)).map fun r => ([], skipBlankLines r)

/-- What a backslash and the characters after it stand for, and the rest.
Lines can be joined only where line breaks may stand. -/
def escape? (multiline : Bool) : List Char → Option (List Char × List Char)
  | 'b' :: r => some (['\x08'], r)
  | 't' :: r => some (['\t'], r)
  | 'n' :: r => some (['\n'], r)
  | 'f' :: r => some (['\x0c'], r)
  | 'r' :: r => some (['\r'], r)
  | '"' :: r => some (['"'], r)
  | '\\' :: r => some (['\\'], r)
  | 'u' :: r => codePoint? 4 r
  | 'U' :: r => codePoint? 8 r
  | r => if multiline then joinLines? r else none

theorem length_codePoint? {n : Nat} {cs out rest : List Char}
    (h : codePoint? n cs = some (out, rest)) : rest.length ≤ cs.length := by
  simp only [codePoint?, Option.bind_eq_bind, Option.pure_def] at h
  split at h
  · simp at h
  · simp only [Option.bind_eq_some_iff] at h
    obtain ⟨_, _, _, _, h⟩ := h
    simp only [Option.some.injEq, Prod.mk.injEq] at h
    rw [← h.2, List.length_drop]
    omega

theorem length_lineBreak? {cs rest : List Char}
    (h : lineBreak? cs = some rest) : rest.length < cs.length := by
  unfold lineBreak? at h
  split at h
  · obtain rfl := Option.some.inj h
    exact Nat.lt_succ_self _
  · obtain rfl := Option.some.inj h
    exact Nat.lt_succ_of_lt (Nat.lt_succ_self _)
  · cases h

theorem length_joinLines? {cs out rest : List Char}
    (h : joinLines? cs = some (out, rest)) : rest.length ≤ cs.length := by
  simp only [joinLines?, Option.map_eq_some_iff, Prod.mk.injEq] at h
  obtain ⟨r, hr, _, rfl⟩ := h
  have h1 := length_lineBreak? hr
  have h2 := length_dropWhile_le isSpace cs
  have h3 := length_skipBlankLines_le r
  simp only [skipSpace] at h1
  omega

/-- An escape never gives back more than it was given. -/
theorem length_escape? {ml : Bool} {cs out rest : List Char}
    (h : escape? ml cs = some (out, rest)) : rest.length ≤ cs.length := by
  unfold escape? at h
  split at h
  case h_8 => exact Nat.le_succ_of_le (length_codePoint? h)
  case h_9 => exact Nat.le_succ_of_le (length_codePoint? h)
  case h_10 =>
    split at h
    · exact length_joinLines? h
    · simp at h
  all_goals
    simp only [Option.some.injEq, Prod.mk.injEq] at h
    simp [← h.2]

/-! ### Reading -/

/-- Puts characters in front of the text read so far. -/
def andThen (front : List Char) :
    Option (List Char × List Char) → Option (List Char × List Char) :=
  Option.map fun (text, rest) => (front ++ text, rest)

/-- What closes a form, and the delimiters in front of it that belong to the
text: of four or five in a row the last three close a form with three. -/
def closing? (multiline : Bool) (d : Char) :
    List Char → Option (List Char × List Char)
  | cs =>
    let n := (cs.takeWhile (· = d)).length
    if multiline then
      if n < 3 then none
      else some (List.replicate (min (n - 3) 2) d, cs.drop (min (n - 3) 2 + 3))
    else if n = 0 then none
    else some ([], cs.drop 1)

/-- The text of a basic string up to its end, and the rest. -/
def basicBody (multiline : Bool) (cs : List Char) :
    Option (List Char × List Char) :=
  match closing? multiline '"' cs with
  | some closed => some closed
  | none =>
    match cs with
    | [] => none
    | '\\' :: r =>
      match _h : escape? multiline r with
      | some (out, rest) => andThen out (basicBody multiline rest)
      | none => none
    | '\r' :: '\n' :: r =>
      if multiline then andThen ['\n'] (basicBody multiline r) else none
    | c :: r =>
      if isPlain c || (multiline && c = '\n') then
        andThen [c] (basicBody multiline r)
      else none
termination_by cs.length
decreasing_by
  · exact Nat.lt_succ_of_le (length_escape? (by assumption))
  all_goals
    simp only [List.length_cons]
    omega

/-- The text of a literal string up to its end, and the rest. -/
def literalBody (multiline : Bool) (cs : List Char) :
    Option (List Char × List Char) :=
  match closing? multiline '\'' cs with
  | some closed => some closed
  | none =>
    match cs with
    | [] => none
    | '\r' :: '\n' :: r =>
      if multiline then andThen ['\n'] (literalBody multiline r) else none
    | c :: r =>
      if isPlain c || (multiline && c = '\n') then
        andThen [c] (literalBody multiline r)
      else none

/-- A line break right after the opening of a multi-line form is not part of
the text. -/
def dropLineBreak (cs : List Char) : List Char := (lineBreak? cs).getD cs

/-- Reads a string of any of the four forms. -/
def quoted? : List Char → Option (List Char × List Char)
  | '"' :: '"' :: '"' :: r => basicBody true (dropLineBreak r)
  | '"' :: r => basicBody false r
  | '\'' :: '\'' :: '\'' :: r => literalBody true (dropLineBreak r)
  | '\'' :: r => literalBody false r
  | _ => none

/-! ### Writing -/

/-- What decides the form of a text. -/
structure Traits where
  /-- The longest run of apostrophes. -/
  apostrophes : Nat := 0
  /-- The longest run of quotation marks. -/
  quotationMarks : Nat := 0
  backslash : Bool := false
  /-- A control character other than a tab or a line feed. -/
  control : Bool := false
  lineFeed : Bool := false

/-- The longest run of `d`, where `run` of them stand in front. -/
def longestRun (d : Char) : Nat → List Char → Nat
  | run, [] => run
  | run, c :: cs =>
    if c = d then longestRun d (run + 1) cs
    else max run (longestRun d 0 cs)

/-- A control character other than a tab or a line feed. -/
def isControl (c : Char) : Bool :=
  (c.toNat < 0x20 && c ≠ '\t' && c ≠ '\n') || c.toNat = 0x7F

/-- The traits of a text. -/
def Traits.of (cs : List Char) : Traits where
  apostrophes := longestRun '\'' 0 cs
  quotationMarks := longestRun '"' 0 cs
  backslash := cs.contains '\\'
  control := cs.any isControl
  lineFeed := cs.contains '\n'

/-- The four forms. -/
inductive Form where
  | basic
  | literal
  | multilineBasic
  | multilineLiteral
deriving DecidableEq, Repr

/-- The form in which a text is written: the first that needs no escapes, or
a basic one. -/
def Traits.form (t : Traits) : Form :=
  if !t.control && !t.backslash && t.quotationMarks = 0 && !t.lineFeed then
    .basic
  else if !t.control && t.apostrophes = 0 && !t.lineFeed then .literal
  else if !t.control && !t.backslash && t.quotationMarks ≤ 2 then
    .multilineBasic
  else if !t.control && t.apostrophes ≤ 2 then .multilineLiteral
  else if t.lineFeed then .multilineBasic
  else .basic

/-- A hexadecimal digit in upper case. -/
def hexDigit (n : Nat) : Char :=
  if n < 10 then Char.ofNat ('0'.toNat + n) else Char.ofNat ('A'.toNat + n - 10)

/-- A character of a basic string other than a quotation mark. -/
def escaped (multiline : Bool) (c : Char) : List Char :=
  if c = '\x08' then ['\\', 'b']
  else if c = '\t' then ['\\', 't']
  else if c = '\n' then if multiline then ['\n'] else ['\\', 'n']
  else if c = '\x0c' then ['\\', 'f']
  else if c = '\r' then ['\\', 'r']
  else if c = '\\' then ['\\', '\\']
  else if isControl c then
    ['\\', 'u', '0', '0', hexDigit (c.toNat / 16), hexDigit (c.toNat % 16)]
  else [c]

/-- The text of a basic string. After `run` quotation marks in a row, the next
one is escaped if they are as many as may stand together. -/
def escapeAll (multiline : Bool) : Nat → List Char → List Char
  | _, [] => []
  | run, c :: cs =>
    if c = '"' then
      if run < (if multiline then 2 else 0) then
        '"' :: escapeAll multiline (run + 1) cs
      else '\\' :: '"' :: escapeAll multiline 0 cs
    else escaped multiline c ++ escapeAll multiline 0 cs

/-- Writes a text in a form. A multi-line form starts on a line of its own if
the text has line feeds. -/
def Form.write (f : Form) (lineFeed : Bool) (cs : List Char) : List Char :=
  let start := if lineFeed then ['\n'] else []
  match f with
  | .basic => '"' :: escapeAll false 0 cs ++ ['"']
  | .literal => '\'' :: cs ++ ['\'']
  | .multilineBasic =>
    ['"', '"', '"'] ++ start ++ escapeAll true 0 cs ++ ['"', '"', '"']
  | .multilineLiteral =>
    ['\'', '\'', '\''] ++ start ++ cs ++ ['\'', '\'', '\'']

/-- Writes a text in the first form that suits it. -/
def quote (cs : List Char) : List Char :=
  let t := Traits.of cs
  t.form.write t.lineFeed cs

end MediaGraph.Toml
