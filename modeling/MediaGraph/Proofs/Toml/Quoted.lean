/-
Quoted strings can be read back.

Whatever form a text is written in, reading gives the text and what follows the
closing delimiter.  A form of three delimiters is closed at the right place because
the writer leaves at most two in a row, and those that end the text are read as a part
of it.

* `closing?_append`: where a form is closed;
* `basicBody_escapeAll`: the escapes of a basic string are undone;
* `literalBody_append`: a literal string is read as it is;
* `quoted?_quote`: what was quoted is read.
-/
import Mathlib.Data.List.TakeWhile
import Mathlib.Tactic.Common
import MediaGraph.Toml.Quoted

namespace MediaGraph.Toml

variable {multiline : Bool} {d c : Char} {text rest : List Char} {run : Nat}

/-! ### Closing delimiters -/

/-- How many delimiters may stand in a row within a form. -/
def runLimit (multiline : Bool) : Nat := if multiline then 2 else 0

/-- The delimiters that close a form. -/
def closer (multiline : Bool) (d : Char) : List Char :=
  if multiline then [d, d, d] else [d]

/-- The number of delimiters at the front of a text. -/
def frontRun (d : Char) (text : List Char) : Nat := (text.takeWhile (· = d)).length

lemma closing?_of_ne (hc : c ≠ d) (cs : List Char) :
    closing? multiline d (c :: cs) = none := by
  simp [closing?, hc]

/-- A form is closed by the delimiters of the writer, provided that it has few in a row
and that no delimiter follows. Those that end the text come out with it. -/
lemma closing?_append (hrun : frontRun d text ≤ runLimit multiline)
    (hrest : rest.head? ≠ some d) :
    closing? multiline d (text ++ (closer multiline d ++ rest)) =
      if text.all (· = d) then some (text, rest) else none := by
  have hstop : rest.takeWhile (· = d) = [] := by
    cases rest with
    | nil => rfl
    | cons c rest =>
        have hc : c ≠ d := fun h => hrest (by simp [h])
        simp [hc]
  by_cases hall : text.all (· = d) = true
  · -- the text consists of delimiters, of which there are at most two
    rw [if_pos hall]
    rw [List.all_eq_true] at hall
    have hlen : text.length ≤ runLimit multiline := by
      rwa [frontRun, List.takeWhile_eq_self_iff.mpr hall] at hrun
    have htext : List.replicate text.length d = text :=
      (List.eq_replicate_of_mem fun c hc => by simpa using hall c hc).symm
    cases multiline with
    | false =>
        obtain rfl := List.eq_nil_of_length_eq_zero (Nat.le_zero.mp hlen)
        simp [closing?, closer]
    | true =>
        have hlen : text.length ≤ 2 := hlen
        have hfront : ((text ++ ([d, d, d] ++ rest)).takeWhile (· = d)).length =
            text.length + 3 := by
          rw [List.takeWhile_append_of_pos hall, List.takeWhile_append_of_pos (by simp), hstop]
          simp
        have hmin : min (text.length + 3 - 3) 2 = text.length := by omega
        simp only [closing?, closer, if_true, hfront, hmin, htext]
        rw [if_neg (by omega), ← List.append_assoc, List.drop_left' (by simp)]
  · -- some other character ends the delimiters at the front
    rw [if_neg hall]
    have hfront : ((text ++ (closer multiline d ++ rest)).takeWhile (· = d)).length =
        frontRun d text := by
      rw [List.takeWhile_append, if_neg fun hlen => hall (List.all_eq_true.mpr ?_)]
      · rfl
      · exact List.takeWhile_eq_self_iff.mp ((List.takeWhile_prefix _).eq_of_length hlen)
    cases multiline with
    | false =>
        have hzero : frontRun d text = 0 := Nat.le_zero.mp hrun
        simp [closing?, hfront, hzero]
    | true =>
        have hrun : frontRun d text ≤ 2 := hrun
        simp only [closing?, if_true, hfront]
        rw [if_pos (by omega)]

/-! ### Characters -/

/-- A character that needs no escape may stand in a form: it is plain, or a line feed
in a form of several lines. -/
def Fits (multiline : Bool) (c : Char) : Prop :=
  isPlain c = true ∨ multiline = true ∧ c = '\n'

lemma Fits.ne_carriageReturn (h : Fits multiline c) : c ≠ '\r' := by
  rintro rfl
  simp [Fits, isPlain] at h

lemma Fits.fits (h : Fits multiline c) :
    (isPlain c || (multiline && decide (c = '\n'))) = true := by
  simpa [Fits] using h

lemma fits_of_not_isControl (h : isControl c = false) (hc : multiline = true ∨ c ≠ '\n') :
    Fits multiline c := by
  by_cases hn : c = '\n'
  · exact Or.inr ⟨hc.resolve_right (absurd hn), hn⟩
  · left
    by_cases ht : c = '\t'
    · simp [isPlain, ht]
    · simp only [isControl, ne_eq, ht, hn, not_false_eq_true, decide_true, Bool.and_true,
        Bool.or_eq_false_iff, decide_eq_false_iff_not, Nat.not_lt] at h
      simp [isPlain, h.1, h.2]

/-! ### Basic strings -/

lemma basicBody_escape {cs out more : List Char}
    (h : escape? multiline cs = some (out, more)) :
    basicBody multiline ('\\' :: cs) = andThen out (basicBody multiline more) := by
  rw [basicBody, closing?_of_ne (by decide)]
  simp only
  split
  · rename_i heq
    rw [h] at heq
    cases heq
    rfl
  · rename_i heq
    rw [h] at heq
    cases heq

lemma basicBody_of_fits {more : List Char} (hclose : closing? multiline '"' (c :: more) = none)
    (hc : Fits multiline c) (hb : c ≠ '\\') :
    basicBody multiline (c :: more) = andThen [c] (basicBody multiline more) := by
  rw [basicBody, hclose]
  · simp only
    rw [if_pos hc.fits]
  · exact hb
  · exact fun _ hr _ => hc.ne_carriageReturn hr

/-- A control character is read back from its code point. -/
lemma escape?_codePoint (h : isControl c = true) (more : List Char) :
    escape? multiline ('u' :: '0' :: '0' :: hexDigit (c.toNat / 16) ::
      hexDigit (c.toNat % 16) :: more) = some ([c], more) := by
  have hlt : c.toNat < 128 := by
    simp only [isControl, Bool.or_eq_true, Bool.and_eq_true, decide_eq_true_eq] at h
    omega
  have hnumber : ∀ n < 128,
      hexNumber? ['0', '0', hexDigit (n / 16), hexDigit (n % 16)] = some n := by
    decide
  have hchar : charOf? c.toNat = some c := dif_pos (c := c.toNat.isValidChar) c.valid
  simp [escape?, codePoint?, hnumber _ hlt, hchar]

/-- An escaped character is read back. -/
lemma basicBody_escaped (hc : c ≠ '"') (more : List Char) :
    basicBody multiline (escaped multiline c ++ more) =
      andThen [c] (basicBody multiline more) := by
  -- a character that stands for itself
  have hfits : Fits multiline c → c ≠ '\\' →
      basicBody multiline ([c] ++ more) = andThen [c] (basicBody multiline more) :=
    basicBody_of_fits (closing?_of_ne hc more)
  unfold escaped
  split_ifs with hb ht hn hm hf hr hs hcontrol
  · exact basicBody_escape (by rw [hb]; rfl)
  · exact basicBody_escape (by rw [ht]; rfl)
  · subst hn
    exact hfits (Or.inr ⟨hm, rfl⟩) (by decide)
  · exact basicBody_escape (by rw [hn]; rfl)
  · exact basicBody_escape (by rw [hf]; rfl)
  · exact basicBody_escape (by rw [hr]; rfl)
  · exact basicBody_escape (by rw [hs]; rfl)
  · exact basicBody_escape (escape?_codePoint hcontrol more)
  · exact hfits (fits_of_not_isControl (by simpa using hcontrol) (Or.inr hn)) hs

lemma escapeAll_quotationMark (run : Nat) (cs : List Char) :
    escapeAll multiline run ('"' :: cs) =
      if run < runLimit multiline then '"' :: escapeAll multiline (run + 1) cs
      else '\\' :: '"' :: escapeAll multiline 0 cs := by
  rw [escapeAll, if_pos rfl, runLimit]

lemma escapeAll_of_ne (hc : c ≠ '"') (run : Nat) (cs : List Char) :
    escapeAll multiline run (c :: cs) =
      escaped multiline c ++ escapeAll multiline 0 cs := by
  rw [escapeAll, if_neg hc]

/-- An escaped character does not start with a quotation mark. -/
lemma exists_escaped_eq_cons (multiline : Bool) (hc : c ≠ '"') :
    ∃ e es, escaped multiline c = e :: es ∧ e ≠ '"' := by
  unfold escaped
  split_ifs <;> exact ⟨_, _, rfl, by simp [hc]⟩

/-- After `run` quotation marks at most two in a row are completed. -/
lemma frontRun_escapeAll (hrun : run ≤ runLimit multiline) (cs : List Char) :
    run + frontRun '"' (escapeAll multiline run cs) ≤ runLimit multiline := by
  induction cs generalizing run with
  | nil => simpa [escapeAll, frontRun] using hrun
  | cons c cs ih =>
      rcases eq_or_ne c '"' with rfl | hc
      · rw [escapeAll_quotationMark]
        split
        · rename_i hlt
          have hrest := @ih (run + 1) hlt
          simp only [frontRun, List.takeWhile_cons, decide_true, if_true,
            List.length_cons] at hrest ⊢
          omega
        · simpa [frontRun] using hrun
      · obtain ⟨e, es, hes, he⟩ := exists_escaped_eq_cons multiline hc
        rw [escapeAll_of_ne hc, hes]
        simpa [frontRun, he] using hrun

/-- A text whose escapes are all quotation marks has no escapes. -/
lemma escapeAll_eq_self {cs : List Char}
    (h : (escapeAll multiline run cs).all (· = '"') = true) :
    escapeAll multiline run cs = cs := by
  induction cs generalizing run with
  | nil => rfl
  | cons c cs ih =>
      rcases eq_or_ne c '"' with rfl | hc
      · rw [escapeAll_quotationMark] at h ⊢
        split at h
        · rename_i hlt
          rw [if_pos hlt, ih (by simpa using h)]
        · simp at h
      · obtain ⟨e, es, hes, he⟩ := exists_escaped_eq_cons multiline hc
        rw [escapeAll_of_ne hc, hes] at h
        simp [he] at h

/-- The escapes of a basic string are undone. -/
theorem basicBody_escapeAll (hrun : run ≤ runLimit multiline)
    (hrest : rest.head? ≠ some '"') (text : List Char) :
    basicBody multiline (escapeAll multiline run text ++ (closer multiline '"' ++ rest)) =
      some (text, rest) := by
  induction text generalizing run with
  | nil =>
      have hnone : frontRun '"' [] ≤ runLimit multiline := Nat.zero_le _
      have hclose := closing?_append hnone hrest
      rw [List.nil_append] at hclose
      rw [escapeAll, List.nil_append, basicBody.eq_def, hclose]
      rfl
  | cons c text ih =>
      have hclose := closing?_append
        (Nat.le_trans (Nat.le_add_left _ _) (frontRun_escapeAll hrun (c :: text))) hrest
      by_cases hall : (escapeAll multiline run (c :: text)).all (· = '"') = true
      · -- what is left consists of quotation marks, and is closed at once
        rw [if_pos hall] at hclose
        rw [basicBody.eq_def, hclose, escapeAll_eq_self hall]
      · rw [if_neg hall] at hclose
        rcases eq_or_ne c '"' with rfl | hc
        · rw [escapeAll_quotationMark] at hclose ⊢
          split at hclose
          · rename_i hlt
            rw [if_pos hlt]
            rw [List.cons_append] at hclose ⊢
            rw [basicBody_of_fits hclose (Or.inl (by decide)) (by decide),
              ih (Nat.succ_le_of_lt hlt)]
            rfl
          · rename_i hlt
            rw [if_neg hlt, List.cons_append, List.cons_append, basicBody_escape rfl,
              ih (Nat.zero_le _)]
            rfl
        · rw [escapeAll_of_ne hc, List.append_assoc, basicBody_escaped hc,
            ih (Nat.zero_le _)]
          rfl

/-! ### Literal strings -/

lemma longestRun_mono {run run' : Nat} (h : run ≤ run') (cs : List Char) :
    longestRun d run cs ≤ longestRun d run' cs := by
  induction cs generalizing run run' with
  | nil => exact h
  | cons c cs ih =>
      simp only [longestRun]
      split
      · exact ih (Nat.succ_le_succ h)
      · omega

/-- The delimiters at the front are no more than the longest run. -/
lemma frontRun_le_longestRun (run : Nat) (cs : List Char) :
    run + frontRun d cs ≤ longestRun d run cs := by
  induction cs generalizing run with
  | nil => simp [frontRun, longestRun]
  | cons c cs ih =>
      rw [longestRun]
      split
      · rename_i hc
        have := ih (run + 1)
        simp only [frontRun, List.takeWhile_cons, hc, decide_true, if_true,
          List.length_cons] at this ⊢
        omega
      · rename_i hc
        simp only [frontRun, List.takeWhile_cons, hc, decide_false, Bool.false_eq_true,
          if_false, List.length_nil]
        omega

lemma longestRun_tail_le (c : Char) (cs : List Char) :
    longestRun d 0 cs ≤ longestRun d 0 (c :: cs) := by
  rw [longestRun]
  split
  · exact longestRun_mono (Nat.zero_le _) cs
  · omega

/-- A literal string is read as it is. -/
theorem literalBody_append (hruns : longestRun '\'' 0 text ≤ runLimit multiline)
    (hfits : ∀ c ∈ text, Fits multiline c) (hrest : rest.head? ≠ some '\'') :
    literalBody multiline (text ++ (closer multiline '\'' ++ rest)) = some (text, rest) := by
  induction text with
  | nil =>
      have hnone : frontRun '\'' [] ≤ runLimit multiline := Nat.zero_le _
      have hclose := closing?_append hnone hrest
      rw [List.nil_append] at hclose
      rw [List.nil_append, literalBody.eq_def, hclose]
      rfl
  | cons c text ih =>
      have hfront : frontRun '\'' (c :: text) ≤ runLimit multiline := by
        have := frontRun_le_longestRun (d := '\'') 0 (c :: text)
        omega
      have hclose := closing?_append hfront hrest
      split at hclose
      · -- what is left consists of apostrophes, and is closed at once
        rw [literalBody.eq_def, hclose]
      · have hc := hfits c List.mem_cons_self
        rw [List.cons_append] at hclose ⊢
        rw [literalBody, hclose]
        · simp only
          rw [if_pos hc.fits, ih (Nat.le_trans (longestRun_tail_le c text) hruns)
            fun c hc => hfits c (List.mem_cons_of_mem _ hc)]
          rfl
        · exact fun _ hr _ => hc.ne_carriageReturn hr

/-! ### Any form -/

lemma quoted?_basic {cs : List Char} (h : ∀ r, cs ≠ '"' :: '"' :: r) :
    quoted? ('"' :: cs) = basicBody false cs := by
  rw [quoted?]
  exact h

lemma quoted?_literal {cs : List Char} (h : ∀ r, cs ≠ '\'' :: '\'' :: r) :
    quoted? ('\'' :: cs) = literalBody false cs := by
  rw [quoted?]
  exact h

lemma dropLineBreak_eq_self {cs : List Char} (hn : cs.head? ≠ some '\n')
    (hr : cs.head? ≠ some '\r') : dropLineBreak cs = cs := by
  have hnone : lineBreak? cs = none := by
    unfold lineBreak?
    split <;> simp_all
  rw [dropLineBreak, hnone, Option.getD_none]

/-- A line feed at the front of a multi-line form is dropped, and the writer puts one
there if the text has any. -/
lemma dropLineBreak_start {body : List Char} (hn : '\n' ∈ text ∨ body.head? ≠ some '\n')
    (hr : body.head? ≠ some '\r') :
    dropLineBreak ((if (Traits.of text).lineFeed then ['\n'] else []) ++ body) = body := by
  by_cases hmem : '\n' ∈ text
  · have hfeed : (Traits.of text).lineFeed = true := by simpa [Traits.of] using hmem
    rw [if_pos hfeed]
    rfl
  · have hfeed : (Traits.of text).lineFeed ≠ true := by simpa [Traits.of] using hmem
    rw [if_neg hfeed]
    exact dropLineBreak_eq_self (hn.resolve_left hmem) hr

/-- A basic string starts with a line feed only if its text does, and never with a
carriage return. -/
lemma head?_escapeAll (text : List Char) (more : List Char) :
    ('\n' ∈ text ∨ (escapeAll true 0 text ++ ('"' :: more)).head? ≠ some '\n') ∧
      (escapeAll true 0 text ++ ('"' :: more)).head? ≠ some '\r' := by
  cases text with
  | nil => simp [escapeAll]
  | cons c text =>
      rcases eq_or_ne c '"' with rfl | hc
      · simp [escapeAll_quotationMark, runLimit]
      · rw [escapeAll_of_ne hc]
        unfold escaped
        split_ifs <;> simp [*]

/-- A text without control characters fits a literal form. -/
lemma Traits.fits (hcontrol : (Traits.of text).control = false)
    (hn : multiline = true ∨ (Traits.of text).lineFeed = false) :
    ∀ c ∈ text, Fits multiline c := by
  intro c hc
  refine fits_of_not_isControl ?_ (hn.imp_right fun hfeed => ?_)
  · simp only [Traits.of, List.any_eq_false] at hcontrol
    simpa using hcontrol c hc
  · rintro rfl
    simp [Traits.of, hc] at hfeed

/-- What a literal form copes with. -/
lemma Traits.of_form_literal {t : Traits} (h : t.form = .literal) :
    t.control = false ∧ t.apostrophes = 0 ∧ t.lineFeed = false := by
  unfold Traits.form at h
  split_ifs at h
  simp_all

/-- What a literal form of several lines copes with. -/
lemma Traits.of_form_multilineLiteral {t : Traits} (h : t.form = .multilineLiteral) :
    t.control = false ∧ t.apostrophes ≤ 2 := by
  unfold Traits.form at h
  split_ifs at h
  simp_all

/-- A form of one delimiter does not start like one of three. -/
lemma append_ne_of_frontRun (h : frontRun d text = 0) (hrest : rest.head? ≠ some d)
    (r : List Char) : text ++ (d :: rest) ≠ d :: d :: r := by
  intro heq
  cases text with
  | nil =>
      obtain ⟨-, rfl⟩ := List.cons.inj heq
      exact hrest rfl
  | cons c text =>
      obtain ⟨rfl, -⟩ := List.cons.inj heq
      simp [frontRun] at h

lemma head?_append_ne {e : Char} (h : e ∉ text) (he : e ≠ d) (more : List Char) :
    (text ++ (d :: more)).head? ≠ some e := by
  cases text with
  | nil => simpa using he.symm
  | cons c text =>
      rintro heq
      obtain rfl := Option.some.inj heq
      exact h List.mem_cons_self

/-- What was quoted is read, whatever follows, except for another delimiter. -/
theorem quoted?_quote (hq : rest.head? ≠ some '"') (ha : rest.head? ≠ some '\'')
    (text : List Char) : quoted? (quote text ++ rest) = some (text, rest) := by
  rw [quote]
  rcases hform : (Traits.of text).form with _ | _ | _ | _
  case basic =>
    have hread := basicBody_escapeAll (Nat.zero_le (runLimit false)) hq text
    have hfront := frontRun_escapeAll (Nat.zero_le (runLimit false)) text
    rw [Nat.zero_add] at hfront
    simp only [Form.write, List.cons_append, List.append_assoc, List.nil_append]
    rw [quoted?_basic (append_ne_of_frontRun (Nat.le_zero.mp hfront) hq)]
    exact hread
  case literal =>
    obtain ⟨hcontrol, hapostrophes, hfeed⟩ := Traits.of_form_literal hform
    have hruns : longestRun '\'' 0 text ≤ runLimit false := Nat.le_of_eq hapostrophes
    have hread := literalBody_append hruns (Traits.fits hcontrol (Or.inr hfeed)) ha
    have hfront := frontRun_le_longestRun (d := '\'') 0 text
    rw [Nat.zero_add, show longestRun '\'' 0 text = 0 from hapostrophes] at hfront
    simp only [Form.write, List.cons_append, List.append_assoc, List.nil_append]
    rw [quoted?_literal (append_ne_of_frontRun (Nat.le_zero.mp hfront) ha)]
    exact hread
  case multilineBasic =>
    have hread := basicBody_escapeAll (Nat.zero_le (runLimit true)) hq text
    obtain ⟨hn, hr⟩ := head?_escapeAll text ('"' :: '"' :: rest)
    have hstart := dropLineBreak_start hn hr
    simp only [Form.write, List.cons_append, List.append_assoc, List.nil_append]
    rw [quoted?, hstart]
    exact hread
  case multilineLiteral =>
    obtain ⟨hcontrol, hapostrophes⟩ := Traits.of_form_multilineLiteral hform
    have hfits : ∀ c ∈ text, Fits true c := Traits.fits hcontrol (Or.inl rfl)
    have hruns : longestRun '\'' 0 text ≤ runLimit true := hapostrophes
    have hread := literalBody_append hruns hfits ha
    have hn : '\n' ∈ text ∨ (text ++ ('\'' :: '\'' :: '\'' :: rest)).head? ≠ some '\n' :=
      (em _).imp_right fun hn => head?_append_ne hn (by decide) _
    have hr : (text ++ ('\'' :: '\'' :: '\'' :: rest)).head? ≠ some '\r' :=
      head?_append_ne (fun hr => (hfits _ hr).ne_carriageReturn rfl) (by decide) _
    have hstart := dropLineBreak_start hn hr
    simp only [Form.write, List.cons_append, List.append_assoc, List.nil_append]
    rw [quoted?, hstart]
    exact hread

end MediaGraph.Toml
