/-
How references to ports are spelled.

* `Text.IsCore`: what is left of a text without the blanks around it;
* `Text.Numeral`, `Text.Unsigned`: decimal numerals, leading zeros allowed, and
  numerals after an optional plus sign;
* `Text.trim_eq_iff`, `Text.unsigned?_eq_some_iff`: the functions that trim a text
  and read a number do what these say;
* `PortRef.Spells`: the grammar of references;
* `PortRef.parse?_grammar`: a text is read as a reference exactly if the grammar
  spells that reference so, and a plain name with an index is read back, whatever
  blanks stand around the two.
-/
import MediaGraph.Proofs.References

namespace MediaGraph

/-! ### Texts -/

namespace Text

variable {cs core : List Char} {c : Char} {n bound : Nat}

/-- A text is `core` with blanks before and after it. -/
def Pads (cs core : List Char) : Prop :=
  ∃ front back, cs = front ++ core ++ back ∧
    (∀ c ∈ front, isBlank c = true) ∧ ∀ c ∈ back, isBlank c = true

/-- What is left of a text without the blanks around it. -/
structure IsCore (core cs : List Char) : Prop where
  trimmed : Trimmed core
  pads : Pads cs core

/-- A text falls into its core and the blanks that `trim` takes away. -/
lemma pads_trim (cs : List Char) : Pads cs (trim cs) := by
  have hfront := List.takeWhile_append_dropWhile (p := isBlank) (l := cs)
  have hback := List.takeWhile_append_dropWhile (p := isBlank)
    (l := (cs.dropWhile isBlank).reverse)
  refine ⟨cs.takeWhile isBlank, ((cs.dropWhile isBlank).reverse.takeWhile isBlank).reverse,
    ?_, fun c hc => List.mem_takeWhile_imp hc, fun c hc => ?_⟩
  · rw [trim, trimEnd, List.append_assoc, ← List.reverse_append, hback,
      List.reverse_reverse, hfront]
  · exact List.mem_takeWhile_imp (List.mem_reverse.mp hc)

/-- Blanks at the end do not matter. -/
lemma trimEnd_append_blanks (h : Trimmed core) {back : List Char}
    (hback : ∀ c ∈ back, isBlank c = true) : trimEnd (core ++ back) = core := by
  rw [trimEnd, List.reverse_append, List.dropWhile_append_of_pos
    fun c hc => hback c (List.mem_reverse.mp hc)]
  exact trimEnd_eq_self h.2

/-- A text without its outer blanks is its core, and nothing else is. -/
theorem trim_eq_iff : trim cs = core ↔ IsCore core cs := by
  constructor
  · rintro rfl
    exact ⟨trimmed_trim cs, pads_trim cs⟩
  · rintro ⟨htrimmed, front, back, rfl, hfront, hback⟩
    rw [trim, List.append_assoc, List.dropWhile_append_of_pos hfront]
    rcases core with _ | ⟨c, rest⟩
    · rw [List.nil_append, List.dropWhile_eq_nil_iff.mpr hback]
      rfl
    · have hfirst : isBlank c = false := htrimmed.1 c rfl
      rw [List.cons_append, List.dropWhile_cons_of_neg (by simp [hfirst]),
        ← List.cons_append]
      exact trimEnd_append_blanks htrimmed hback

/-! ### Numbers -/

/-- The decimal numerals and their numbers, leading zeros allowed. -/
inductive Numeral : List Char → Nat → Prop where
  | digit {d : Nat} : d < 10 → Numeral [digitOf d] d
  | push {cs : List Char} {n d : Nat} : Numeral cs n → d < 10 →
      Numeral (cs ++ [digitOf d]) (10 * n + d)

/-- Numerals after an optional plus sign. -/
inductive Unsigned : List Char → Nat → Prop where
  | bare {cs : List Char} {n : Nat} : Numeral cs n → Unsigned cs n
  | plus {cs : List Char} {n : Nat} : Numeral cs n → Unsigned ('+' :: cs) n

/-- Every ASCII digit is that of a value below ten. -/
lemma exists_eq_digitOf (h : isDigit c = true) : ∃ d < 10, c = digitOf d := by
  simp only [isDigit, Bool.and_eq_true, decide_eq_true_eq, Char.le_def,
    UInt32.le_iff_toNat_le] at h
  have hlow : 48 ≤ c.toNat := h.1
  have hhigh : c.toNat ≤ 57 := h.2
  refine ⟨c.toNat - 48, by omega, ?_⟩
  have hvalue : '0'.toNat + (c.toNat - 48) = c.toNat := by
    rw [show '0'.toNat = 48 from rfl]
    omega
  rw [digitOf, hvalue, Char.ofNat_toNat]

/-- A numeral has digits only, one at least, and stands for its number. -/
lemma Numeral.digits (h : Numeral cs n) :
    cs ≠ [] ∧ cs.all isDigit = true ∧ natOf cs = n := by
  induction h with
  | digit hd =>
      refine ⟨List.cons_ne_nil _ _, by simp [isDigit_digitOf _ hd], ?_⟩
      simp [natOf, digitValue_digitOf _ hd]
  | push _ hd ih =>
      refine ⟨by simp, by simp [ih.2.1, isDigit_digitOf _ hd], ?_⟩
      rw [natOf_append_singleton, ih.2.2, digitValue_digitOf _ hd]

/-- Digits make a numeral. -/
lemma numeral_natOf (hne : cs ≠ []) (hall : cs.all isDigit = true) :
    Numeral cs (natOf cs) := by
  induction cs using List.reverseRecOn with
  | nil => exact absurd rfl hne
  | append_singleton cs c ih =>
      rw [List.all_append, Bool.and_eq_true] at hall
      obtain ⟨d, hd, rfl⟩ := exists_eq_digitOf (c := c) (by simpa using hall.2)
      rw [natOf_append_singleton, digitValue_digitOf d hd]
      rcases eq_or_ne cs [] with rfl | hcs
      · simpa [natOf] using Numeral.digit hd
      · exact .push (ih hcs hall.1) hd

lemma digits?_eq_some_iff : digits? bound cs = some n ↔ Numeral cs n ∧ n < bound := by
  rw [digits?]
  constructor
  · intro h
    split at h
    · rename_i hcs
      obtain rfl := Option.some.inj h
      exact ⟨numeral_natOf hcs.1 hcs.2.1, hcs.2.2⟩
    · cases h
  · rintro ⟨h, hn⟩
    obtain ⟨hne, hall, rfl⟩ := h.digits
    exact if_pos ⟨hne, hall, hn⟩

/-- Exactly the numbers below the bound are read, from digits after an optional plus
sign. -/
theorem unsigned?_eq_some_iff : unsigned? bound cs = some n ↔ Unsigned cs n ∧ n < bound := by
  rw [unsigned?.eq_def]
  split
  · rename_i rest
    rw [digits?_eq_some_iff]
    refine and_congr_left fun _ => ⟨.plus, fun h => ?_⟩
    cases h with
    | bare h =>
        -- the plus sign is no digit
        have hplus := List.all_eq_true.mp h.digits.2.1 '+' List.mem_cons_self
        exact absurd hplus (by decide)
    | plus h => exact h
  · rename_i hplus
    rw [digits?_eq_some_iff]
    refine and_congr_left fun _ => ⟨.bare, fun h => ?_⟩
    cases h with
    | bare h => exact h
    | plus h => exact absurd rfl (hplus _)

end Text

/-! ### References -/

namespace PortRef

variable {cs a b : List Char} {s name : String} {r : PortRef} {i : Nat}

/-- The grammar of references to ports. -/
inductive Spells : List Char → PortRef → Prop where
  /-- A name alone stands for the port with the index 0. -/
  | bare {cs name : List Char} : ':' ∉ cs → Text.IsCore name cs → name ≠ [] →
      Spells cs ⟨String.ofList name, 0⟩
  /-- The first colon parts the name from the index. -/
  | indexed {a b name number : List Char} {i : Nat} : ':' ∉ a →
      Text.IsCore name a → name ≠ [] → Text.IsCore number b →
      Text.Unsigned number i → i < Text.bound32 →
      Spells (a ++ ':' :: b) ⟨String.ofList name, i⟩

/-- The parts of a reference are read as the grammar says. -/
lemma ofParts?_unsigned? : ofParts? a (Text.unsigned? Text.bound32 (Text.trim b)) = some r ↔
    ∃ name number, Text.IsCore name a ∧ name ≠ [] ∧ Text.IsCore number b ∧
      Text.Unsigned number r.index ∧ r.index < Text.bound32 ∧
      r.node = String.ofList name := by
  rw [ofParts?_eq_some, Text.unsigned?_eq_some_iff]
  constructor
  · rintro ⟨hne, hnumber, hnode⟩
    exact ⟨_, _, Text.trim_eq_iff.mp rfl, hne, Text.trim_eq_iff.mp rfl, hnumber.1,
      hnumber.2, hnode⟩
  · rintro ⟨name, number, hname, hne, hcore, hnumber, hindex, hnode⟩
    obtain rfl := Text.trim_eq_iff.mpr hname
    obtain rfl := Text.trim_eq_iff.mpr hcore
    exact ⟨hne, ⟨hnumber, hindex⟩, hnode⟩

/-- A text is split at its first colon in one way. -/
lemma append_colon_inj {a' b' : List Char} (ha : ':' ∉ a) (ha' : ':' ∉ a')
    (h : a ++ ':' :: b = a' ++ ':' :: b') : a = a' ∧ b = b' := by
  have hname : ∀ {a b : List Char}, ':' ∉ a →
      (a ++ ':' :: b).takeWhile (· ≠ ':') = a := by
    intro a b ha
    have hall : ∀ c ∈ a, decide (c ≠ ':') = true := fun c hc => by
      simpa using fun he : c = ':' => ha (he ▸ hc)
    rw [List.takeWhile_append_of_pos hall]
    simp
  have heq : a = a' := by rw [← hname (b := b) ha, h, hname ha']
  subst heq
  exact ⟨rfl, (List.cons.inj (List.append_cancel_left h)).2⟩

/-- References are read by their grammar. -/
lemma ofChars?_eq_some_iff : ofChars? cs = some r ↔ Spells cs r := by
  by_cases hcolon : ':' ∈ cs
  · obtain ⟨a, b, rfl, ha⟩ := List.eq_append_cons_of_mem hcolon
    rw [ofChars?_append_colon ha, ofParts?_unsigned?]
    constructor
    · obtain ⟨node, index⟩ := r
      rintro ⟨name, number, hname, hne, hcore, hnumber, hindex, rfl⟩
      exact .indexed ha hname hne hcore hnumber hindex
    · generalize hcs : a ++ ':' :: b = cs
      rintro (⟨hcolon', -, -⟩ | ⟨ha', hname, hne, hcore, hnumber, hindex⟩)
      · exact absurd (hcs ▸ hcolon) hcolon'
      · obtain ⟨rfl, rfl⟩ := append_colon_inj ha ha' hcs
        exact ⟨_, _, hname, hne, hcore, hnumber, hindex, rfl⟩
  · rw [ofChars?_of_notMem hcolon, ofParts?_eq_some]
    constructor
    · obtain ⟨node, index⟩ := r
      rintro ⟨hne, hindex, rfl⟩
      obtain rfl := Option.some.inj hindex
      exact .bare hcolon (Text.trim_eq_iff.mp rfl) hne
    · rintro (⟨-, hname, hne⟩ | _)
      · obtain rfl := Text.trim_eq_iff.mpr hname
        exact ⟨hne, rfl, rfl⟩
      · simp at hcolon

/-- The digits of a number are a numeral, which has no outer blanks. -/
lemma unsigned_digitsOf (k : Nat) : Text.Unsigned (Text.digitsOf k) k ∧
    Text.Trimmed (Text.digitsOf k) := by
  have hnumeral := Text.numeral_natOf (Text.digitsOf_ne_nil k) (Text.all_isDigit_digitsOf k)
  rw [Text.natOf_digitsOf] at hnumeral
  exact ⟨.bare hnumeral, Text.trim_digitsOf k ▸ Text.trimmed_trim _⟩

/-- A plain name stays one colon away from what follows, with blanks around it. -/
lemma IsPlain.notMem_of_pads (h : IsPlain name) (ha : Text.Pads a name.toList) :
    ':' ∉ a := by
  obtain ⟨front, back, rfl, hfront, hback⟩ := ha
  have hblank : ¬ Text.isBlank ':' = true := by decide
  simp only [List.mem_append, not_or]
  exact ⟨⟨fun hc => hblank (hfront _ hc), h.colon⟩, fun hc => hblank (hback _ hc)⟩

/-- A text is read as a reference exactly if the grammar spells that reference so. A
plain name, a colon and an index below `2 ^ 32` are read back as that name and that
index, whatever blanks stand around the name and around the index. -/
theorem parse?_grammar : (∀ s r, parse? s = some r ↔ Spells s.toList r) ∧
    ∀ name i, IsPlain name → name ≠ "" → i < Text.bound32 →
      ∀ left right : String, Text.Pads left.toList name.toList →
        Text.Pads right.toList (toString i).toList →
          parse? (left ++ ":" ++ right) = some ⟨name, i⟩ := by
  refine ⟨fun s r => ofChars?_eq_some_iff, fun name i hplain hne hi left right hleft hright => ?_⟩
  obtain ⟨hnumber, htrimmed⟩ := unsigned_digitsOf i
  rw [Text.toList_toString] at hright
  have htext : (left ++ ":" ++ right).toList = left.toList ++ ':' :: right.toList := by
    rw [String.toList_append, String.toList_append, List.append_assoc]
    rfl
  have hchars : name.toList ≠ [] := fun h => hne (String.toList_eq_nil_iff.mp h)
  have hspells : Spells (left ++ ":" ++ right).toList ⟨String.ofList name.toList, i⟩ := by
    rw [htext]
    exact .indexed (hplain.notMem_of_pads hleft) ⟨hplain.trimmed, hleft⟩ hchars
      ⟨htrimmed, hright⟩ hnumber hi
  rw [String.ofList_toList] at hspells
  exact ofChars?_eq_some_iff.mpr hspells

/-- A tab, a line break and two more kinds of blanks around a name and an index. -/
theorem parse?_grammar_blanks : IsPlain "mix" ∧ "mix" ≠ "" ∧ 12 < Text.bound32 ∧
    Text.Pads "\tmix ".toList "mix".toList ∧
    Text.Pads "\u00a012\r\n".toList (toString 12).toList ∧
    parse? ("\tmix " ++ ":" ++ "\u00a012\r\n") = some ⟨"mix", 12⟩ := by
  have hplain : IsPlain "mix" := ⟨by decide, Text.trimmed_trim "mix".toList⟩
  have hleft : Text.Pads "\tmix ".toList "mix".toList :=
    ⟨['\t'], [' '], rfl, List.all_eq_true.mp rfl, List.all_eq_true.mp rfl⟩
  have hright : Text.Pads "\u00a012\r\n".toList (toString 12).toList :=
    ⟨['\u00a0'], ['\r', '\n'], by decide, List.all_eq_true.mp rfl, List.all_eq_true.mp rfl⟩
  exact ⟨hplain, by decide, by decide, hleft, hright,
    parse?_grammar.2 "mix" 12 hplain (by decide) (by decide) _ _ hleft hright⟩

/-- A plus sign and leading zeros are read, and `2 ^ 32` is too large. -/
example : parse? "mix: +007" = some ⟨"mix", 7⟩ ∧ parse? "mix:4294967296" = none := by
  decide

end PortRef

end MediaGraph
