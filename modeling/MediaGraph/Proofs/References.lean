/-
Which ports a link can name.

* `Text.trimmed_trim`: a text without its outer blanks has none;
* `PortRef.IsPlain`: a name without a colon and without outer blanks;
* `PortRef.isPlain_of_parse?`, `PortRef.parse?_text`: a reference names a node by a
  plain name, and a plain name with an index, written out, is read back;
* `Accepted.isPlain_of_resolve`, `Accepted.resolve_text`: so it is in accepted
  descriptions;
* `Description.denotable_iff`: a port of an accepted description has a reference
  exactly if the name of its node is plain, which the check of names does not ask for.
-/
import Mathlib.Data.List.DropRight
import MediaGraph.Proofs.Faithful
import MediaGraph.Proofs.RoundTrip

namespace MediaGraph

/-! ### Texts -/

namespace Text

variable {cs : List Char}

/-- What is left of a text without its outer blanks was there before. -/
lemma mem_of_mem_trim {c : Char} (h : c ∈ trim cs) : c ∈ cs := by
  rw [trim, trimEnd, List.mem_reverse] at h
  exact List.dropWhile_subset _ (List.mem_reverse.mp (List.dropWhile_subset _ h))

/-- A text without its outer blanks has none. -/
theorem trimmed_trim (cs : List Char) : Trimmed (trim cs) := by
  have hfirst : ∀ {l : List Char} {c : Char}, (l.dropWhile isBlank).head? = some c →
      isBlank c = false := by
    intro l c hc
    have hnot := List.head?_dropWhile_not isBlank l
    rwa [hc] at hnot
  constructor
  · intro c hc
    -- the first character is that of the text without the blanks before it
    obtain ⟨rest, hrest⟩ := List.head?_eq_some_iff.mp hc
    obtain ⟨blanks, hblanks⟩ := List.rdropWhile_prefix isBlank (cs.dropWhile isBlank)
    rw [show (cs.dropWhile isBlank).rdropWhile isBlank = c :: rest from hrest] at hblanks
    exact hfirst (l := cs) (by rw [← hblanks]; rfl)
  · intro c hc
    rw [trim, trimEnd, List.getLast?_reverse] at hc
    exact hfirst hc

/-- A number is written with its digits. -/
lemma toList_toString (k : Nat) : (toString k).toList = digitsOf k := by
  have hdigit : ∀ k < 10, k.digitChar = digitOf k := by decide
  rw [Nat.toString_eq_ofList_toDigits, String.toList_ofList]
  fun_induction digitsOf k with
  | case1 k hk => rw [Nat.toDigits_of_lt_base hk, hdigit k hk]
  | case2 k hk ih =>
      rw [Nat.toDigits_of_base_le (by decide) (Nat.not_lt.mp hk), ih,
        hdigit _ (Nat.mod_lt k (by decide))]

/-- The digits of a number are read back, if it is not too large. -/
lemma unsigned?_digitsOf {bound k : Nat} (hk : k < bound) :
    unsigned? bound (digitsOf k) = some k := by
  have hall := all_isDigit_digitsOf k
  have hread : digits? bound (digitsOf k) = some k := by
    rw [digits?, natOf_digitsOf, if_pos ⟨digitsOf_ne_nil k, hall, hk⟩]
  rw [unsigned?.eq_def]
  split
  · rename_i rest hplus
    rw [hplus] at hall
    exact absurd (List.all_eq_true.mp hall '+' (by simp)) (by decide)
  · exact hread

/-- No digit is a blank. -/
lemma trim_digitsOf (k : Nat) : trim (digitsOf k) = digitsOf k := by
  have hblank : ∀ c ∈ digitsOf k, isBlank c = false := by
    intro c hc
    have hdigit := List.all_eq_true.mp (all_isDigit_digitsOf k) c hc
    simp only [isDigit, Bool.and_eq_true, decide_eq_true_eq, Char.le_def,
      UInt32.le_iff_toNat_le] at hdigit
    have hlow : 48 ≤ c.toNat := hdigit.1
    have hhigh : c.toNat ≤ 57 := hdigit.2
    simp only [isBlank, Bool.or_eq_false_iff, Bool.and_eq_false_iff, decide_eq_false_iff_not]
    omega
  exact trim_eq_self ⟨fun c hc => hblank c (List.mem_of_mem_head? hc),
    fun c hc => hblank c (List.mem_of_mem_getLast? hc)⟩

end Text

/-! ### References -/

namespace PortRef

variable {cs index : List Char} {s name : String} {r : PortRef}

/-- A name without a colon and without outer blanks. -/
structure IsPlain (name : String) : Prop where
  colon : ':' ∉ name.toList
  trimmed : Text.Trimmed name.toList

lemma ofParts?_eq_some {o : Option Nat} : ofParts? cs o = some r ↔
    Text.trim cs ≠ [] ∧ o = some r.index ∧ r.node = String.ofList (Text.trim cs) := by
  rw [ofParts?.eq_def]
  split
  · simp_all
  · simp
  · rename_i hne
    constructor
    · rintro ⟨⟩
      exact ⟨hne, rfl, rfl⟩
    · rintro ⟨-, hindex, hnode⟩
      obtain rfl := Option.some.inj hindex
      rw [← hnode]

/-- Without a colon all of a reference is a name. -/
lemma ofChars?_of_notMem (h : ':' ∉ cs) : ofChars? cs = ofParts? cs (some 0) := by
  have hdrop : cs.dropWhile (· ≠ ':') = [] :=
    List.dropWhile_eq_nil_iff.mpr fun c hc => by
      simpa using fun he : c = ':' => h (he ▸ hc)
  rw [ofChars?, hdrop]

/-- The first colon parts the name from the index. -/
lemma ofChars?_append_colon (h : ':' ∉ cs) : ofChars? (cs ++ ':' :: index) =
    ofParts? cs (Text.unsigned? Text.bound32 (Text.trim index)) := by
  have hname : ∀ c ∈ cs, decide (c ≠ ':') = true := fun c hc => by
    simpa using fun he : c = ':' => h (he ▸ hc)
  rw [ofChars?, List.dropWhile_append_of_pos hname, List.takeWhile_append_of_pos hname]
  simp

/-- A reference names a node by a plain name. -/
lemma isPlain_of_parse? (h : parse? s = some r) : IsPlain r.node := by
  have hparts : ∀ {cs : List Char} {o : Option Nat}, ':' ∉ cs →
      ofParts? cs o = some r → IsPlain r.node := by
    intro cs o hcolon hok
    obtain ⟨-, -, hnode⟩ := ofParts?_eq_some.mp hok
    rw [hnode]
    constructor
    · rw [String.toList_ofList]
      exact fun hmem => hcolon (Text.mem_of_mem_trim hmem)
    · rw [String.toList_ofList]
      exact Text.trimmed_trim cs
  rw [parse?] at h
  by_cases hcolon : ':' ∈ s.toList
  · obtain ⟨before, after, hs, hbefore⟩ := List.eq_append_cons_of_mem hcolon
    rw [hs, ofChars?_append_colon hbefore] at h
    exact hparts hbefore h
  · rw [ofChars?_of_notMem hcolon] at h
    exact hparts hcolon h

/-- A plain name with an index, written out, is read back. -/
lemma parse?_text {k : Nat} (h : IsPlain name) (hne : name.toList ≠ [])
    (hk : k < Text.bound32) : parse? (text ⟨name, k⟩) = some ⟨name, k⟩ := by
  have htext : (text ⟨name, k⟩).toList = name.toList ++ ':' :: Text.digitsOf k := by
    rw [← Text.toList_toString, text, String.toList_append, String.toList_append,
      List.append_assoc]
    rfl
  have htrim : Text.trim name.toList = name.toList := Text.trim_eq_self h.trimmed
  rw [parse?, htext, ofChars?_append_colon h.colon, Text.trim_digitsOf,
    Text.unsigned?_digitsOf hk, ofParts?_eq_some, htrim]
  exact ⟨hne, rfl, String.ofList_toList.symm⟩

end PortRef

/-! ### Ports of a description -/

namespace NodeSpec

variable {n : NodeSpec}

/-- The number of ports of one direction has at most 32 bits. -/
lemma InRange.portCount_lt (h : n.InRange) (direction : Direction) :
    n.portCount direction < Text.bound32 := by
  have hinputs : n.inputs.getD defaultInputs < Text.bound32 := by
    rcases hn : n.inputs with _ | k
    · decide
    · exact h.inputs k hn
  cases direction <;> cases hk : n.kind <;>
    simp only [portCount, inputCount, outputCount, hk]
  case input.mixer => exact hinputs
  all_goals decide

end NodeSpec

namespace Description

variable {d : Description} {direction : Direction} {reference : String} {place : PortPlace}
  {spec : NodeSpec}

/-- A reference that stands for a port spells the name of its node, which is plain. -/
lemma Accepted.isPlain_of_resolve (h : d.Accepted)
    (hspec : d.nodes[place.node]? = some spec)
    (hok : d.resolve direction reference = .ok place) : PortRef.IsPlain spec.name := by
  obtain ⟨r, n, hr, hn, hname, -⟩ := h.resolve_eq_ok.mp hok
  obtain rfl := Option.some.inj (hspec.symm.trans hn)
  rw [hname]
  exact PortRef.isPlain_of_parse? hr

/-- The name of a node and the index of one of its ports, written out, stand for that
port if the name is plain. -/
lemma Accepted.resolve_text (h : d.Accepted) (hspec : d.nodes[place.node]? = some spec)
    (hindex : place.index < spec.portCount direction)
    (hrange : place.index < Text.bound32) (hplain : PortRef.IsPlain spec.name) :
    d.resolve direction (PortRef.text ⟨spec.name, place.index⟩) = .ok place := by
  have hne : spec.name.toList ≠ [] := by
    intro hnil
    have hblank := h.name hspec
    rw [isBlankName, hnil] at hblank
    cases hblank
  exact h.resolve_eq_ok.mpr
    ⟨_, spec, PortRef.parse?_text hplain hne hrange, hspec, rfl, rfl, hindex⟩

end Description

namespace Assembly

variable {τ : Type} [Processor τ] {d : Description} {a : Assembly τ}
  {direction : Direction} {place : PortPlace} {spec : NodeSpec}

/-- In a graph that was built, exactly the references that stand for a place of the
description stand for the port at that place. -/
lemma exists_portAt (hok : build d = .ok a) (hspec : d.nodes[place.node]? = some spec)
    (hindex : place.index < spec.portCount direction) :
    ∃ p, a.graph.portAt? direction place = some p ∧ ∀ reference,
      a.resolve direction reference = .ok p ↔
        d.resolve direction reference = .ok place := by
  obtain ⟨hd, h⟩ := follows_of_build hok
  have hn : a.nodes = named 0 d.nodes := (represents_of_build hok).nodes
  obtain ⟨p, hp⟩ := h.exists_portAt? hspec hindex
  refine ⟨p, hp, fun reference => ?_⟩
  rw [resolve_eq_ok_of_size hd h hn (size_ports_of_build hok)]
  constructor
  · rintro ⟨place', hplace', hp'⟩
    rwa [(h.wf.portAt?_inj hp hp').2]
  · exact fun hplace => ⟨place, hplace, hp⟩

end Assembly

namespace Description

/-- A port of an accepted description can be linked exactly if the name of its node is
plain. Then the name and the index of the port, written out, stand for it, and every
graph that is built has the same references for it as the description. -/
theorem denotable_iff {τ : Type} [Processor τ] {d : Description} (hd : d.InRange)
    (hvalid : d.validate = .ok ()) {direction : Direction} {place : PortPlace}
    {spec : NodeSpec} (hspec : d.nodes[place.node]? = some spec)
    (hindex : place.index < spec.portCount direction) :
    ((∃ reference, d.resolve direction reference = .ok place) ↔
        PortRef.IsPlain spec.name) ∧
      (PortRef.IsPlain spec.name →
        d.resolve direction (PortRef.text ⟨spec.name, place.index⟩) = .ok place) ∧
      ∀ a : Assembly τ, Assembly.build d = .ok a →
        ∃ p, a.graph.portAt? direction place = some p ∧ ∀ reference,
          a.resolve direction reference = .ok p ↔
            d.resolve direction reference = .ok place := by
  have haccepted := accepted_of_validate hvalid
  have hrange : place.index < Text.bound32 :=
    Nat.lt_trans hindex ((hd.nodes spec (List.mem_of_getElem? hspec)).portCount_lt _)
  have hnatural := haccepted.resolve_text hspec hindex hrange
  exact ⟨⟨fun ⟨_, hok⟩ => haccepted.isPlain_of_resolve hspec hok,
      fun hplain => ⟨_, hnatural hplain⟩⟩,
    hnatural, fun a hok => Assembly.exists_portAt hok hspec hindex⟩

/-- The second input of the mixer of two sources. -/
theorem denotable_iff_fanIn : Catalogue.fanIn.InRange ∧
    Catalogue.fanIn.validate = .ok () ∧
    ((∃ reference, Catalogue.fanIn.resolve .input reference = .ok ⟨2, 1⟩) ↔
      PortRef.IsPlain "mix") := by
  have hfits := inRange_of_mem_catalogue (d := Catalogue.fanIn) (by simp [Catalogue.all])
  have hvalid : Catalogue.fanIn.validate = .ok () := by decide +kernel
  have hspec : Catalogue.fanIn.nodes[(⟨2, 1⟩ : PortPlace).node]? =
      some { name := "mix", kind := .mixer, inputs := some 2 } := rfl
  exact ⟨hfits, hvalid, (denotable_iff (τ := Empty) hfits hvalid hspec (by decide)).1⟩

/-- A source whose name has a colon, and a sink. -/
def coloned : Description where
  name := "coloned"
  nodes := [{ name := "a:b", kind := .source }, { name := "out", kind := .sink }]
  script := [{ mode := .pull, node := "out" }]

/-- The description is accepted, yet no reference stands for the output of its
source. -/
theorem not_denotable : coloned.validate = .ok () ∧
    (coloned.nodes[0]?.map (·.portCount .output)) = some 1 ∧
    ¬ ∃ reference, coloned.resolve .output reference = .ok ⟨0, 0⟩ := by
  have hvalid : coloned.validate = .ok () := by decide +kernel
  refine ⟨hvalid, rfl, fun ⟨reference, hok⟩ => ?_⟩
  have hplain := (accepted_of_validate hvalid).isPlain_of_resolve rfl hok
  exact hplain.colon (by decide)

end Description

end MediaGraph
