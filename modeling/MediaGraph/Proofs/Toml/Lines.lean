/-
Documents can be read back line by line.

The statements that descriptions are written as have one key without quotes each, and
their values are texts, numbers, truth values and lists of these.

* `Value.IsScalar`, `Value.IsSimple`, `Statement.IsSimple`: such values and
  statements;
* `Value.IsScalar.read`, `Value.IsSimple.read`: a value is read back, and reading stops
  at the character that the writer puts after it;
* `lines?_append`: the lines of a statement are read back;
* `statements?_write`: so is a document.
-/
import MediaGraph.Proofs.Toml.Quoted
import MediaGraph.Toml.Writer

namespace MediaGraph.Toml

open Text (isDigit digitsOf natOf)

variable {c : Char} {cs rest : List Char}

/-! ### Words -/

/-- What stands after a value: the end of a line, a comma or a bracket. -/
def Stops (rest : List Char) : Prop :=
  ∃ c r, rest = c :: r ∧ c ∈ ['\n', ',', ']']

lemma stops_cons (hc : c ∈ ['\n', ',', ']']) (r : List Char) : Stops (c :: r) :=
  ⟨c, r, rfl, hc⟩

lemma Stops.head?_ne (h : Stops rest) (hc : c ∉ ['\n', ',', ']']) : rest.head? ≠ some c := by
  obtain ⟨d, r, rfl, hd⟩ := h
  rintro hdc
  obtain rfl := Option.some.inj hdc
  exact hc hd

/-- A word ends where a value stops. -/
lemma word_append (hcs : cs.all isWord = true) (h : Stops rest) :
    word (cs ++ rest) = (cs, rest) := by
  obtain ⟨c, r, rfl, hc⟩ := h
  have hstop : isWord c = false ∧ c ≠ ' ' := by
    simp only [List.mem_cons, List.not_mem_nil, or_false] at hc
    rcases hc with rfl | rfl | rfl <;> decide
  rw [List.all_eq_true] at hcs
  rw [word, List.takeWhile_append_of_pos hcs, List.dropWhile_append_of_pos hcs,
    List.takeWhile_cons_of_neg (by simp [hstop.1]), List.dropWhile_cons_of_neg (by simp [hstop.1])]
  simp only [List.append_nil]
  split
  · rename_i heq
    exact absurd (List.cons.inj heq).1 hstop.2
  · rfl

/-! ### Numbers -/

lemma isWord_of_isDigit (h : isDigit c = true) : isWord c = true := by
  simp only [isDigit, Bool.and_eq_true, decide_eq_true_eq, Char.le_def] at h
  have hdigit : c.isDigit = true := by
    simp only [Char.isDigit, Bool.and_eq_true, decide_eq_true_eq]
    exact h
  simp [isWord, Char.isAlphanum, hdigit]

/-- Only the number zero starts with a zero. -/
lemma eq_zero_of_head?_digitsOf {n : Nat} (h : (digitsOf n).head? = some '0') :
    digitsOf n = ['0'] := by
  fun_induction digitsOf n with
  | case1 n hn => rw [Option.some.inj h]
  | case2 n hn ih =>
      exfalso
      have hhead : (digitsOf (n / 10)).head? = some '0' := by
        rcases hd : digitsOf (n / 10) with _ | ⟨c, r⟩
        · exact absurd hd (Text.digitsOf_ne_nil _)
        · simpa [hd] using h
      have hzero : natOf (digitsOf (n / 10)) = 0 := by
        rw [ih hhead]
        rfl
      rw [Text.natOf_digitsOf] at hzero
      omega

/-- Digits without underscores are grouped. -/
lemma grouped_of_all {p : Char → Bool} (hne : cs ≠ []) (hall : cs.all p = true)
    (hp : p '_' = false) : grouped p cs = true := by
  induction cs with
  | nil => exact absurd rfl hne
  | cons c cs ih =>
      simp only [List.all_cons, Bool.and_eq_true] at hall
      cases cs with
      | nil => exact hall.1
      | cons d cs =>
          have hd : d ≠ '_' := by
            rintro rfl
            simp [hp] at hall
          rw [grouped, hall.1, ih (by simp) hall.2]
          · rfl
          · simp
          · exact fun _ h => hd (List.cons.inj h).1

/-- Digits without a zero in front are read as their number. -/
lemma integer?_of_digits (hne : cs ≠ []) (hall : cs.all isDigit = true)
    (hzero : cs.head? = some '0' → cs = ['0']) (hn : natOf cs < 9223372036854775808) :
    integer? cs = some (natOf cs : Int) := by
  have hdigit : ∀ {c}, isDigit c = false → c ∉ cs := fun {c} hc hmem => by
    simp [List.all_eq_true.mp hall c hmem] at hc
  have hplain : ungrouped cs = cs := by
    refine List.filter_eq_self.mpr fun c hc => ?_
    have hne : c ≠ '_' := fun h => hdigit (by decide) (h ▸ hc)
    simpa using hne
  have hsign : splitSign cs = (false, cs) := by
    unfold splitSign
    split
    · exact absurd List.mem_cons_self (hdigit (c := '+') (by decide))
    · exact absurd List.mem_cons_self (hdigit (c := '-') (by decide))
    · rfl
  have hdecimal : isDecimal cs = true := by
    rw [isDecimal, grouped_of_all hne hall (by decide), Bool.true_and]
    by_cases hz : cs.head? = some '0'
    · simp [hzero hz]
    · simp [hz]
  have hmark : ∀ {c d}, isDigit c = false → ∀ r, cs ≠ d :: c :: r := by
    rintro c d hc r rfl
    exact hdigit hc (by simp)
  have hrange : inRange (natOf cs) = some (natOf cs : Int) :=
    if_pos ⟨by omega, by omega⟩
  rw [integer?, hsign]
  · simp only [hdecimal, hplain, if_true, Bool.false_eq_true, if_false, hrange]
  all_goals exact fun _ => hmark (by decide) _

/-- The digits of a number are read as the number. -/
lemma scalar?_digitsOf {n : Nat} (hn : n < 9223372036854775808) :
    scalar? (digitsOf n) = some (.integer n) := by
  have hall := Text.all_isDigit_digitsOf n
  have hdigit : ∀ {c}, isDigit c = false → c ∉ digitsOf n := fun {c} hc hmem => by
    simp [List.all_eq_true.mp hall c hmem] at hc
  have hword : ∀ {c w}, isDigit c = false → digitsOf n ≠ c :: w := by
    intro c w hc h
    exact hdigit hc (h ▸ List.mem_cons_self)
  have hread := integer?_of_digits (Text.digitsOf_ne_nil n) hall eq_zero_of_head?_digitsOf
    (by rwa [Text.natOf_digitsOf])
  rw [scalar?, if_neg (hword (by decide)), if_neg (hword (by decide)), hread,
    Text.natOf_digitsOf]

/-! ### Values -/

/-- A value that is a text, a number of 63 bits or a truth value. -/
inductive Value.IsScalar : Value → Prop
  | string (text : String) : IsScalar (.string text)
  | integer {n : Nat} : n < 9223372036854775808 → IsScalar (.integer n)
  | boolean (b : Bool) : IsScalar (.boolean b)

/-- A scalar or a list of scalars. -/
inductive Value.IsSimple : Value → Prop
  | scalar {v : Value} : v.IsScalar → IsSimple v
  | array {items : List Value} : (∀ v ∈ items, v.IsScalar) → IsSimple (.array items)

variable {v : Value}

/-- A character with which a scalar may start. -/
def Opens (c : Char) : Prop :=
  c ∉ ['#', '\r', '\n', ' ', '\t', '[', ']', '\x7b']

lemma opens_of_isDigit (h : isDigit c = true) : Opens c := by
  intro hc
  simp only [List.mem_cons, List.not_mem_nil, or_false] at hc
  rcases hc with rfl | rfl | rfl | rfl | rfl | rfl | rfl | rfl <;> exact absurd h (by decide)

lemma exists_quote_eq_cons (text : List Char) :
    ∃ c r, quote text = c :: r ∧ (c = '"' ∨ c = '\'') := by
  rw [quote]
  cases (Traits.of text).form <;> exact ⟨_, _, rfl, by simp⟩

/-- Nothing that could be skipped stands in front of a scalar. -/
lemma Value.IsScalar.exists_write_eq_cons (h : v.IsScalar) :
    ∃ c r, v.write = c :: r ∧ Opens c := by
  cases h with
  | string text =>
      obtain ⟨c, r, hq, hc⟩ := exists_quote_eq_cons text.toList
      refine ⟨c, r, by rw [Value.write, hq], ?_⟩
      rcases hc with rfl | rfl <;> simp [Opens]
  | @integer n _ =>
      rcases hd : digitsOf n with _ | ⟨c, r⟩
      · exact absurd hd (Text.digitsOf_ne_nil n)
      · have hall := Text.all_isDigit_digitsOf n
        rw [hd, List.all_cons, Bool.and_eq_true] at hall
        exact ⟨c, r, by rw [Value.write]; exact hd, opens_of_isDigit hall.1⟩
  | boolean b => cases b <;> exact ⟨_, _, rfl, by simp [Opens]⟩

/-- A text is read back from its quotes. -/
lemma plainValue?_quote (hrest : Stops rest) (text : List Char) :
    plainValue? (quote text ++ rest) = some (.string (String.ofList text), rest) := by
  have hread := quoted?_quote (hrest.head?_ne (c := '"') (by decide))
    (hrest.head?_ne (c := '\'') (by decide)) text
  obtain ⟨c, r, hq, hc⟩ := exists_quote_eq_cons text
  rw [hq, List.cons_append] at hread ⊢
  rcases hc with rfl | rfl <;> simp only [plainValue?, hread, Option.map_some]

/-- A word is read as a whole. -/
lemma plainValue?_word (hcs : cs.all isWord = true) (hne : cs ≠ []) (hrest : Stops rest) :
    plainValue? (cs ++ rest) = (scalar? cs).map (·, rest) := by
  cases cs with
  | nil => exact absurd rfl hne
  | cons c cs =>
      have hquote : ∀ d, isWord d = false → c ≠ d := by
        rintro d hd rfl
        simp [hd] at hcs
      have hword := word_append hcs hrest
      rw [List.cons_append] at hword ⊢
      rw [plainValue?, hword]
      · exact fun _ h => hquote '"' (by decide) (List.cons.inj h).1
      · exact fun _ h => hquote '\'' (by decide) (List.cons.inj h).1

/-- A scalar is read back. -/
lemma Value.IsScalar.read_plain (h : v.IsScalar) (hrest : Stops rest) :
    plainValue? (v.write ++ rest) = some (v, rest) := by
  cases h with
  | string text =>
      rw [Value.write, plainValue?_quote hrest, String.ofList_toList]
  | @integer n hn =>
      have hwords : (digitsOf n).all isWord = true := List.all_eq_true.mpr fun c hc =>
        isWord_of_isDigit (List.all_eq_true.mp (Text.all_isDigit_digitsOf n) c hc)
      rw [Value.write, show writeInteger n = digitsOf n from rfl,
        plainValue?_word hwords (Text.digitsOf_ne_nil n) hrest, scalar?_digitsOf hn]
      rfl
  | boolean b =>
      cases b <;>
        · rw [Value.write, plainValue?_word (by decide) (by decide) hrest]
          rfl

/-- A scalar is read back at any depth. -/
lemma Value.IsScalar.read (h : v.IsScalar) (hrest : Stops rest) (depth : Nat) :
    value? depth (v.write ++ rest) = some (v, rest) := by
  have hread := h.read_plain hrest
  obtain ⟨c, r, hw, hc⟩ := h.exists_write_eq_cons
  rw [hw, List.cons_append] at hread ⊢
  cases depth with
  | zero => rw [value?, hread]
  | succ depth =>
      rw [value?, hread]
      · exact fun _ hr => hc (by simp [(List.cons.inj hr).1])
      · exact fun _ hr => hc (by simp [(List.cons.inj hr).1])

/-! ### Lists -/

lemma skipTrivia_of_opens (hc : Opens c) (cs : List Char) : skipTrivia (c :: cs) = c :: cs := by
  simp only [Opens, List.mem_cons, not_or] at hc
  rw [skipTrivia]
  · simp [isSpace, hc]
  · exact hc.1
  · exact fun _ h _ => hc.2.1 h

lemma skipTrivia_of_isSpace (hc : isSpace c = true ∨ c = '\n') (cs : List Char) :
    skipTrivia (c :: cs) = skipTrivia cs := by
  rw [skipTrivia]
  · simpa using fun h hn => absurd hc (by simp [h, hn])
  · rintro rfl
    simp [isSpace] at hc
  · rintro _ rfl -
    simp [isSpace] at hc

lemma skipTrivia_of_mark (hc : c ∈ [',', ']']) (cs : List Char) :
    skipTrivia (c :: cs) = c :: cs := by
  obtain ⟨hh, hr, hs, hn⟩ : c ≠ '#' ∧ c ≠ '\r' ∧ isSpace c = false ∧ c ≠ '\n' := by
    simp only [List.mem_cons, List.not_mem_nil, or_false] at hc
    rcases hc with rfl | rfl <;> decide
  rw [skipTrivia]
  · simp [hs, hn]
  · exact hh
  · exact fun _ h _ => hr h

/-- The blanks in front of an item are passed over. -/
lemma skipTrivia_indent (cs : List Char) :
    skipTrivia ('\n' :: ' ' :: ' ' :: ' ' :: ' ' :: cs) = skipTrivia cs := by
  repeat rw [skipTrivia_of_isSpace (by decide)]

lemma Opens.ne_close (hc : Opens c) : c ≠ ']' := by
  rintro rfl
  exact hc (by decide)

variable {item : Read Value} {start : List Char}

lemma arrayItems?_nil (hskip : skipTrivia cs = ']' :: rest) :
    arrayItems? item cs = some ([], rest) := by
  rw [arrayItems?.eq_def, hskip]
  rfl

/-- The item before the bracket is the last one. -/
lemma arrayItems?_last (hskip : skipTrivia cs = c :: start) (hc : Opens c)
    (hitem : item (c :: start) = some (v, ']' :: rest)) :
    arrayItems? item cs = some ([v], rest) := by
  rw [arrayItems?.eq_def, hskip]
  split
  · rename_i heq
    exact absurd (List.cons.inj heq).1 hc.ne_close
  · rw [hitem]
    simp only [skipTrivia_of_mark (c := ']') (by decide)]

/-- After a comma the list goes on. -/
lemma arrayItems?_cons (hskip : skipTrivia cs = c :: start) (hc : Opens c)
    (hitem : item (c :: start) = some (v, ',' :: rest)) (hshorter : rest.length < cs.length) :
    arrayItems? item cs = (arrayItems? item rest).map fun (vs, r) => (v :: vs, r) := by
  rw [arrayItems?.eq_def, hskip]
  split
  · rename_i heq
    exact absurd (List.cons.inj heq).1 hc.ne_close
  · rw [hitem]
    simp only [skipTrivia_of_mark (c := ',') (by decide), dif_pos hshorter]

/-- The items of a list, each on a line of its own, are read back. -/
lemma arrayItems?_writeItems {items : List Value} (h : ∀ v ∈ items, v.IsScalar)
    (depth : Nat) (rest : List Char) :
    arrayItems? (value? depth) (writeItems items ++ ('\n' :: ']' :: rest)) =
      some (items, rest) := by
  induction items with
  | nil =>
      refine arrayItems?_nil ?_
      rw [writeItems, List.nil_append, skipTrivia_of_isSpace (by decide),
        skipTrivia_of_mark (by decide)]
  | cons v items ih =>
      have hv := h v List.mem_cons_self
      obtain ⟨c, r, hw, hc⟩ := hv.exists_write_eq_cons
      have hread := hv.read (stops_cons (c := ',') (by decide)
        (writeItems items ++ ('\n' :: ']' :: rest))) depth
      rw [hw, List.cons_append] at hread
      rw [writeItems, writeItem, hw]
      simp only [List.cons_append, List.nil_append, List.append_assoc]
      rw [arrayItems?_cons (by rw [skipTrivia_indent, skipTrivia_of_opens hc]) hc hread,
        ih fun w hw => h w (List.mem_cons_of_mem v hw)]
      · rfl
      · simp only [List.length_cons, List.length_append]
        omega

/-- A simple value is read back. -/
theorem Value.IsSimple.read (h : v.IsSimple) (hrest : Stops rest) (depth : Nat) :
    value? (depth + 1) (v.write ++ rest) = some (v, rest) := by
  cases h with
  | scalar h => exact h.read hrest _
  | @array items h =>
      match items, h with
      | [], _ =>
          have hskip : skipTrivia (']' :: rest) = ']' :: rest := skipTrivia_of_mark (by decide) _
          rw [Value.write, List.cons_append, value?, List.singleton_append, arrayItems?_nil hskip]
          rfl
      | [v], h =>
          have hv := h v List.mem_cons_self
          obtain ⟨c, r, hw, hc⟩ := hv.exists_write_eq_cons
          have hread := hv.read (stops_cons (c := ']') (by decide) rest) depth
          rw [hw, List.cons_append] at hread
          rw [Value.write, hw, List.append_assoc, List.cons_append, value?, List.cons_append,
            List.singleton_append, arrayItems?_last (skipTrivia_of_opens hc _) hc hread]
          rfl
      | v :: w :: items, h =>
          have hitems := arrayItems?_writeItems h depth rest
          simp only [writeItems, List.append_assoc] at hitems
          simp only [Value.write, List.cons_append, List.append_assoc, List.nil_append]
          rw [value?, hitems]
          rfl

/-! ### Keys -/

/-- A key that needs no quotes. -/
def IsBareKey (key : String) : Prop := key.toList ≠ [] ∧ key.toList.all isBare = true

instance : DecidablePred IsBareKey := fun _ => inferInstanceAs (Decidable (_ ∧ _))

variable {key : String}

/-- A character that a key without quotes may hold is none of the signs around it. -/
lemma ne_of_isBare (hc : isBare c = true) {d : Char} (hd : isBare d = false) : c ≠ d := by
  rintro rfl
  exact Bool.false_ne_true (hd.symm.trans hc)

lemma isSpace_eq_false (hc : isBare c = true) : isSpace c = false := by
  simp [isSpace, ne_of_isBare hc (d := ' ') (by decide), ne_of_isBare hc (d := '\t') (by decide)]

lemma IsBareKey.exists_eq_cons (hk : IsBareKey key) :
    ∃ c r, key.toList = c :: r ∧ isBare c = true := by
  obtain ⟨hne, hall⟩ := hk
  rcases hcs : key.toList with _ | ⟨c, r⟩
  · exact absurd hcs hne
  · rw [hcs, List.all_cons, Bool.and_eq_true] at hall
    exact ⟨c, r, rfl, hall.1⟩

lemma writePath_of_isBareKey (hk : IsBareKey key) : writePath [key] = key.toList := by
  have hplain : key.toList ≠ [] ∧ key.toList.all isBare = true := hk
  rw [writePath, List.map_singleton, writeKey, if_pos hplain, List.intercalate_singleton]

lemma skipSpace_of_not_isSpace (hc : isSpace c = false) (cs : List Char) :
    skipSpace (c :: cs) = c :: cs :=
  List.dropWhile_cons_of_neg (by simp [hc])

/-- A key without quotes ends at the first sign that it cannot hold. -/
lemma simpleKey?_of_isBareKey (hk : IsBareKey key) {d : Char} (hd : isBare d = false)
    (cs : List Char) : simpleKey? (key.toList ++ d :: cs) = some (key, d :: cs) := by
  obtain ⟨b, r, hb, hbare⟩ := hk.exists_eq_cons
  have hall := List.all_eq_true.mp hk.2
  have htake : (key.toList ++ d :: cs).takeWhile isBare = b :: r := by
    rw [List.takeWhile_append_of_pos hall, List.takeWhile_cons_of_neg (by simp [hd]),
      List.append_nil, hb]
  have hdrop : (key.toList ++ d :: cs).dropWhile isBare = d :: cs := by
    rw [List.dropWhile_append_of_pos hall, List.dropWhile_cons_of_neg (by simp [hd])]
  rw [simpleKey?, htake, hdrop]
  · simp only [← hb, String.ofList_toList]
  all_goals
    -- a key with quotes starts otherwise
    intro s h
    rw [hb, List.cons_append] at h
    exact ne_of_isBare hbare (by decide) (List.cons.inj h).1

/-- A key without quotes is read back if it ends at a sign other than a dot. -/
lemma key?_of_isBareKey (hk : IsBareKey key) {d : Char} (hd : isBare d = false)
    (hskip : skipSpace (d :: cs) = c :: rest) (hc : c ≠ '.') :
    key? (key.toList ++ d :: cs) = some ([key], c :: rest) := by
  obtain ⟨b, r, hb, hbare⟩ := hk.exists_eq_cons
  have hstart : skipSpace (key.toList ++ d :: cs) = key.toList ++ d :: cs := by
    rw [hb, List.cons_append, skipSpace_of_not_isSpace (isSpace_eq_false hbare)]
  rw [key?, depthLimit, keys?, hstart, simpleKey?_of_isBareKey hk hd]
  simp only [Option.bind_eq_bind, Option.bind_some, hskip]
  split
  · rename_i heq
    exact absurd (List.cons.inj heq).1 hc
  · rfl

/-! ### Lines -/

/-- A simple value after a single key without quotes, or the header of a further table
under such a key. -/
inductive Statement.IsSimple : Statement → Prop
  | pair {key : String} {v : Value} : IsBareKey key → v.IsSimple → IsSimple (.pair [key] v)
  | element {key : String} : IsBareKey key → IsSimple (.element [key])

variable {s : Statement} {ss : List Statement}

lemma Value.IsSimple.exists_write_eq_cons (h : v.IsSimple) :
    ∃ c r, v.write = c :: r ∧ isSpace c = false := by
  cases h with
  | scalar h =>
      obtain ⟨c, r, hw, hc⟩ := h.exists_write_eq_cons
      simp only [Opens, List.mem_cons, not_or] at hc
      exact ⟨c, r, hw, by simp [isSpace, hc]⟩
  | @array items _ =>
      match items with
      | [] | [_] | _ :: _ :: _ => exact ⟨_, _, rfl, by decide⟩

/-- A line that starts with a key is a pair. -/
lemma line?_of_pair? (hbare : isBare c = true) {path : Path}
    (h : pair? (value? depthLimit) (c :: cs) = some ((path, v), '\n' :: rest)) :
    line? (c :: cs) = some (some (.pair path v), rest) := by
  have hno : ∀ {d}, isBare d = false → ∀ r, c :: cs ≠ d :: r := fun hd _ heq =>
    ne_of_isBare hbare hd (List.cons.inj heq).1
  rw [line?, skipSpace_of_not_isSpace (isSpace_eq_false hbare)]
  split <;> rename_i heq
  · cases heq
  · exact absurd heq (hno (by decide) _)
  · exact absurd heq (hno (by decide) _)
  · exact absurd heq (hno (by decide) _)
  · exact absurd heq (hno (by decide) _)
  · rw [h]
    rfl

/-- A pair of a key and a value is read back from its line. -/
lemma line?_pair (hk : IsBareKey key) (hv : v.IsSimple) (rest : List Char) :
    line? ((Statement.pair [key] v).write ++ rest) = some (some (.pair [key] v), rest) := by
  obtain ⟨b, r, hb, hbare⟩ := hk.exists_eq_cons
  obtain ⟨c, w, hw, hc⟩ := hv.exists_write_eq_cons
  have hkey : key? (key.toList ++ ' ' :: '=' :: ' ' :: (v.write ++ '\n' :: rest)) =
      some ([key], '=' :: ' ' :: (v.write ++ '\n' :: rest)) :=
    key?_of_isBareKey hk (by decide) rfl (by decide)
  have hread := hv.read (stops_cons (c := '\n') (by decide) rest) 78
  have hpair : pair? (value? depthLimit)
      (key.toList ++ ' ' :: '=' :: ' ' :: (v.write ++ '\n' :: rest)) =
        some (([key], v), '\n' :: rest) := by
    have hspace : skipSpace (' ' :: (v.write ++ '\n' :: rest)) = v.write ++ '\n' :: rest := by
      rw [hw, List.cons_append]
      exact skipSpace_of_not_isSpace hc _
    rw [pair?, hkey]
    simp only [Option.bind_eq_bind, Option.bind_some, hspace, depthLimit, hread]
    rfl
  simp only [Statement.write, writePath_of_isBareKey hk, List.append_assoc, List.cons_append,
    List.nil_append]
  rw [hb, List.cons_append] at hpair ⊢
  exact line?_of_pair? hbare hpair

/-- A header is read back from its line, after an empty one. -/
lemma header?_element (hk : IsBareKey key) (rest : List Char) :
    header? ('[' :: '[' :: (key.toList ++ ']' :: ']' :: '\n' :: rest)) =
      some (.element [key], rest) := by
  have hkey : key? (key.toList ++ ']' :: ']' :: '\n' :: rest) =
      some ([key], ']' :: ']' :: '\n' :: rest) :=
    key?_of_isBareKey hk (by decide) rfl (by decide)
  rw [header?, hkey]
  rfl

lemma lines?_cons {o : Option Statement} (h : line? cs = some (o, rest))
    (hshorter : rest.length < cs.length) :
    lines? cs = (lines? rest).map (o.toList ++ ·) := by
  have hne : cs ≠ [] := by
    rintro rfl
    simp at hshorter
  rw [lines?, if_neg hne, h]
  simp only [dif_pos hshorter]

/-- The lines of a statement are read back. -/
theorem lines?_append (h : s.IsSimple) (rest : List Char) :
    lines? (s.write ++ rest) = (lines? rest).map (s :: ·) := by
  cases h with
  | pair hk hv =>
      rw [lines?_cons (line?_pair hk hv rest)]
      · rfl
      · simp only [Statement.write, List.length_append, List.length_cons]
        omega
  | @element key hk =>
      simp only [Statement.write, writePath_of_isBareKey hk, List.append_assoc, List.cons_append,
        List.nil_append]
      have hempty : ∀ r, line? ('\n' :: r) = some (none, r) := fun r => rfl
      have hheader : line? ('[' :: '[' :: (key.toList ++ ']' :: ']' :: '\n' :: rest)) =
          some (some (.element [key]), rest) := by
        rw [line?, skipSpace_of_not_isSpace (by decide)]
        simp only [header?_element hk, Option.map_some]
      rw [lines?_cons (hempty _) (by simp), lines?_cons hheader, Option.map_map]
      · rfl
      · simp only [List.length_append, List.length_cons]
        omega

lemma lines?_write (h : ∀ s ∈ ss, s.IsSimple) :
    lines? (ss.flatMap Statement.write) = some ss := by
  induction ss with
  | nil => simp [lines?]
  | cons s ss ih =>
      have hrest := ih fun s hs => h s (List.mem_cons_of_mem _ hs)
      calc lines? (s.write ++ ss.flatMap Statement.write)
          = (lines? (ss.flatMap Statement.write)).map (s :: ·) :=
            lines?_append (h s List.mem_cons_self) _
        _ = some (s :: ss) := by rw [hrest, Option.map_some]

/-- No statement starts with a byte order mark. -/
lemma Statement.IsSimple.exists_write_eq_cons (h : s.IsSimple) :
    ∃ c r, s.write = c :: r ∧ c ≠ '\uFEFF' := by
  cases h with
  | pair hk _ =>
      obtain ⟨b, r, hb, hbare⟩ := hk.exists_eq_cons
      rw [Statement.write, writePath_of_isBareKey hk, hb]
      exact ⟨b, _, rfl, ne_of_isBare hbare (by decide)⟩
  | element _ => exact ⟨'\n', _, rfl, by decide⟩

/-- A document of simple statements is read back. -/
theorem statements?_write (h : ∀ s ∈ ss, s.IsSimple) :
    statements? (write ss).toList = some ss := by
  have hlines := lines?_write h
  rw [write, String.toList_ofList]
  cases ss with
  | nil => exact hlines
  | cons s ss =>
      obtain ⟨c, r, hw, hc⟩ := (h s List.mem_cons_self).exists_write_eq_cons
      rw [List.flatMap_cons, hw, List.cons_append] at hlines ⊢
      rw [statements?, hlines]
      exact fun _ heq => hc (List.cons.inj heq).1

end MediaGraph.Toml
