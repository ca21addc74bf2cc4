/-
Descriptions come back from their documents, and from the files that they were saved to.

* `Fields`, `Fields.present`: fields that may be missing, and the record of those that are
  there;
* `NodeSpec.fields`, `LinkSpec.fields`, `StepSpec.fields`, `Description.outline`: what the
  documents consist of;
* `Description.InRange`: every number has at most 32 bits;
* `NodeSpec.InRange.ofValue?_record` and its like: every part of a description is read back;
* `Description.InRange.ofToml?_toToml`: so is the description;
* `Description.inRange_of_ofToml?`: no other description is read from any text;
* `Description.round_trip`: and loading gives what was saved.
-/
import MediaGraph.Description.Catalogue
import MediaGraph.Description.Document
import MediaGraph.Description.File
import MediaGraph.Proofs.Files
import MediaGraph.Proofs.Toml.Outlines

namespace MediaGraph

open Toml (Record Outline Statement Value IsBareKey pairLines)

/-! ### Fields -/

/-- Fields that may be missing. -/
abbrev Fields := List (String × Option Value)

namespace Fields

variable {fs : Fields}

/-- The names of the fields. -/
def keys (fs : Fields) : List String := fs.map Prod.fst

/-- The record of the fields that are there. -/
def present (fs : Fields) : Record := fs.filterMap fun f => f.2.map (f.1, ·)

/-- The values are simple. -/
def IsSimple (fs : Fields) : Prop := ∀ f ∈ fs, ∀ v ∈ f.2, v.IsSimple

/-- The names are all different, and none of them needs quotes. -/
structure Proper (fs : Fields) : Prop where
  nodup : fs.keys.Nodup
  bare : ∀ key ∈ fs.keys, IsBareKey key

lemma Proper.of_keys (keys : List String) (h : fs.keys = keys) (hnodup : keys.Nodup)
    (hbare : ∀ key ∈ keys, IsBareKey key) : fs.Proper :=
  ⟨h ▸ hnodup, h ▸ hbare⟩

lemma present_cons (key : String) (value : Option Value) (fs : Fields) :
    present ((key, value) :: fs) = (value.map (key, ·)).toList ++ fs.present := by
  cases value <;> rfl

lemma keys_present_sublist (fs : Fields) : fs.present.keys.Sublist fs.keys := by
  induction fs with
  | nil => exact List.Sublist.slnil
  | cons f fs ih =>
      obtain ⟨key, _ | v⟩ := f
      · exact ih.cons key
      · exact ih.cons_cons key

/-- A field stands under its name. -/
lemma Proper.lookup_present (h : fs.Proper) (key : String) :
    fs.present.lookup key = (fs.lookup key).join := by
  replace h := h.nodup
  induction fs with
  | nil => rfl
  | cons f fs ih =>
      obtain ⟨k, value⟩ := f
      rw [keys, List.map_cons, List.nodup_cons] at h
      rw [present_cons, List.lookup_append, ih h.2]
      by_cases hk : key = k
      · subst hk
        have hnone : fs.lookup key = none := List.lookup_eq_none_iff.mpr fun f hf => by
          have hmem : f.1 ∈ fs.map Prod.fst := List.mem_map_of_mem hf
          have hne : key ≠ f.1 := fun heq => h.1 (heq ▸ hmem)
          simpa using hne
        cases value <;> simp [hnone]
      · have hne : (key == k) = false := beq_false_of_ne hk
        cases value <;> simp [List.lookup_cons, hne]

lemma IsSimple.present (h : fs.IsSimple) (hproper : fs.Proper) : fs.present.IsSimple := by
  intro e he
  obtain ⟨⟨key, value⟩, hf, hvalue⟩ := List.mem_filterMap.mp he
  obtain ⟨v, rfl, rfl⟩ := Option.map_eq_some_iff.mp hvalue
  exact ⟨hproper.bare key (List.mem_map_of_mem hf), h _ hf v rfl⟩

end Fields

/-! ### Documents -/

/-- The value of a switch that is on. -/
def switchValue (on : Bool) : Option Value := if on then some (.boolean true) else none

/-- The value of a list that has items. -/
def numbersValue (ns : List Nat) : Option Value :=
  if ns.isEmpty then none else some (.array (ns.map numberValue))

/-- The fields of a node. -/
def NodeSpec.fields (n : NodeSpec) : Fields :=
  [("name", some (.string n.name)), ("kind", some (.string n.kind.text)),
    ("inputs", n.inputs.map numberValue), ("buffers", n.buffers.map numberValue),
    ("async", switchValue n.async), ("required_in", n.requiredIn.map numberValue),
    ("optional_inputs", numbersValue n.optionalInputs)]

/-- The fields of a link. -/
def LinkSpec.fields (l : LinkSpec) : Fields :=
  [("from", some (.string l.source)), ("to", some (.string l.target))]

/-- The fields of a step. -/
def StepSpec.fields (s : StepSpec) : Fields :=
  [("mode", some (.string s.mode.text)), ("node", some (.string s.node)),
    ("repeat", some (numberValue s.times))]

/-- The fields of a description. -/
def Description.fields (d : Description) : Fields :=
  [("name", some (.string d.name)), ("description", d.summary.map .string),
    ("allow_cycles", switchValue d.allowCycles)]

lemma NodeSpec.proper_fields (n : NodeSpec) : n.fields.Proper :=
  .of_keys ["name", "kind", "inputs", "buffers", "async", "required_in", "optional_inputs"] rfl
    (by decide) (by decide)

lemma LinkSpec.proper_fields (l : LinkSpec) : l.fields.Proper :=
  .of_keys ["from", "to"] rfl (by decide) (by decide)

lemma StepSpec.proper_fields (s : StepSpec) : s.fields.Proper :=
  .of_keys ["mode", "node", "repeat"] rfl (by decide) (by decide)

lemma Description.proper_fields (d : Description) : d.fields.Proper :=
  .of_keys ["name", "description", "allow_cycles"] rfl (by decide) (by decide)

/-- The outline of a description. -/
def Description.outline (d : Description) : Outline where
  fields := d.fields.present
  lists := [("nodes", d.nodes.map (·.fields.present)),
    ("links", d.links.map (·.fields.present)),
    ("activations", d.script.map (·.fields.present))]

lemma NodeSpec.toStatements_eq (n : NodeSpec) :
    n.toStatements = .element ["nodes"] :: pairLines n.fields.present.pairs := by
  obtain ⟨name, kind, _ | _, _ | _, _ | _, _ | _, _ | _⟩ := n <;> rfl

lemma LinkSpec.toStatements_eq (l : LinkSpec) :
    l.toStatements = .element ["links"] :: pairLines l.fields.present.pairs := rfl

lemma StepSpec.toStatements_eq (s : StepSpec) :
    s.toStatements = .element ["activations"] :: pairLines s.fields.present.pairs := rfl

/-- A list of records has a section for each of them. -/
lemma listLines_map {α : Type} {key : String} {fields : α → Fields} {lines : α → List Statement}
    (h : ∀ a, lines a = .element [key] :: pairLines (fields a).present.pairs) (items : List α) :
    Toml.listLines (key, items.map fun a => (fields a).present) = items.flatMap lines := by
  simp only [Toml.listLines, List.flatMap_map, ← h]

/-- The document of a description is that of its outline. -/
lemma Description.toStatements_eq (d : Description) :
    d.toStatements = d.outline.statements := by
  have hfront : pairLines (Record.pairs (d.outline.fields ++ Outline.blanks d.outline.lists)) =
      [.pair ["name"] (.string d.name)] ++ settingLine "description" (d.summary.map .string) ++
        switchLine "allow_cycles" d.allowCycles ++ emptyLine "nodes" d.nodes ++
        emptyLine "links" d.links ++ emptyLine "activations" d.script := by
    obtain ⟨name, _ | _, _ | _, _ | _, _ | _, _ | _⟩ := d <;> rfl
  have hlists : d.outline.lists.flatMap Toml.listLines =
      d.nodes.flatMap NodeSpec.toStatements ++ (d.links.flatMap LinkSpec.toStatements ++
        d.script.flatMap StepSpec.toStatements) := by
    rw [← listLines_map NodeSpec.toStatements_eq, ← listLines_map LinkSpec.toStatements_eq,
      ← listLines_map StepSpec.toStatements_eq]
    simp only [outline, List.flatMap_cons, List.flatMap_nil, List.append_nil]
  rw [Outline.statements, hfront, hlists, toStatements]
  simp only [List.append_assoc]

/-! ### Numbers of 32 bits -/

/-- The numbers of a node have at most 32 bits. -/
structure NodeSpec.InRange (n : NodeSpec) : Prop where
  inputs : ∀ k ∈ n.inputs, k < Text.bound32
  buffers : ∀ k ∈ n.buffers, k < Text.bound32
  requiredIn : ∀ k ∈ n.requiredIn, k < Text.bound32
  optionalInputs : ∀ k ∈ n.optionalInputs, k < Text.bound32

/-- Every number of a description has at most 32 bits. -/
structure Description.InRange (d : Description) : Prop where
  nodes : ∀ n ∈ d.nodes, n.InRange
  times : ∀ s ∈ d.script, s.times < Text.bound32

lemma isScalar_numberValue {n : Nat} (h : n < Text.bound32) : (numberValue n).IsScalar :=
  .integer (Nat.lt_trans h (by decide))

/-! ### Simple documents -/

lemma isSimple_some {w : Value} (h : w.IsSimple) : ∀ v ∈ some w, v.IsSimple := by
  intro v hv
  rwa [← Option.some.inj hv]

lemma isSimple_map {α : Type} {f : α → Value} {value : Option α}
    (h : ∀ a ∈ value, (f a).IsScalar) : ∀ v ∈ value.map f, v.IsSimple := by
  intro v hv
  obtain ⟨a, ha, rfl⟩ := Option.map_eq_some_iff.mp hv
  exact .scalar (h a ha)

lemma isSimple_switchValue (on : Bool) : ∀ v ∈ switchValue on, v.IsSimple := by
  cases on with
  | false => exact fun _ => nofun
  | true => exact isSimple_some (.scalar (.boolean true))

lemma isSimple_numbersValue {ns : List Nat} (h : ∀ n ∈ ns, n < Text.bound32) :
    ∀ v ∈ numbersValue ns, v.IsSimple := by
  rw [numbersValue]
  split
  · exact fun _ => nofun
  · exact isSimple_some
      (.array (List.forall_mem_map.mpr fun n hn => isScalar_numberValue (h n hn)))

lemma isSimple_text (text : String) : ∀ v ∈ some (Value.string text), v.IsSimple :=
  isSimple_some (.scalar (.string text))

lemma NodeSpec.InRange.isSimple {n : NodeSpec} (h : n.InRange) : n.fields.IsSimple := by
  have hnumber : ∀ {value : Option Nat}, (∀ k ∈ value, k < Text.bound32) →
      ∀ v ∈ value.map numberValue, v.IsSimple :=
    fun h => isSimple_map fun k hk => isScalar_numberValue (h k hk)
  simp only [Fields.IsSimple, NodeSpec.fields, List.forall_mem_cons]
  exact ⟨isSimple_text _, isSimple_text _, hnumber h.inputs, hnumber h.buffers,
    isSimple_switchValue _, hnumber h.requiredIn, isSimple_numbersValue h.optionalInputs,
    List.forall_mem_nil _⟩

lemma LinkSpec.isSimple_fields (l : LinkSpec) : l.fields.IsSimple := by
  simp only [Fields.IsSimple, LinkSpec.fields, List.forall_mem_cons]
  exact ⟨isSimple_text _, isSimple_text _, List.forall_mem_nil _⟩

lemma StepSpec.isSimple_fields {s : StepSpec} (h : s.times < Text.bound32) :
    s.fields.IsSimple := by
  simp only [Fields.IsSimple, StepSpec.fields, List.forall_mem_cons]
  exact ⟨isSimple_text _, isSimple_text _, isSimple_some (.scalar (isScalar_numberValue h)),
    List.forall_mem_nil _⟩

namespace Description

variable {d : Description}

lemma isSimple_fields (d : Description) : d.fields.IsSimple := by
  simp only [Fields.IsSimple, Description.fields, List.forall_mem_cons]
  exact ⟨isSimple_text _, isSimple_map fun text _ => .string text, isSimple_switchValue _,
    List.forall_mem_nil _⟩

/-- What holds of the fields of all nodes, links and steps holds of the records of the
outline. -/
lemma forall_records {P : Record → Prop} (hnode : ∀ n ∈ d.nodes, P n.fields.present)
    (hlink : ∀ l ∈ d.links, P l.fields.present) (hstep : ∀ s ∈ d.script, P s.fields.present) :
    ∀ l ∈ d.outline.lists, ∀ r ∈ l.2, P r := by
  simp only [outline, List.forall_mem_cons, List.forall_mem_map]
  exact ⟨hnode, hlink, hstep, List.forall_mem_nil _⟩

lemma distinct_outline (d : Description) : d.outline.Distinct where
  keys := by
    have hkeys : (d.fields.keys ++ d.outline.lists.map Prod.fst).Nodup :=
      show ["name", "description", "allow_cycles", "nodes", "links", "activations"].Nodup by decide
    exact hkeys.sublist (d.fields.keys_present_sublist.append_right _)
  records :=
    have hrecord : ∀ {fs : Fields}, fs.Proper → fs.present.keys.Nodup :=
      fun h => h.nodup.sublist (Fields.keys_present_sublist _)
    forall_records (fun n _ => hrecord n.proper_fields) (fun l _ => hrecord l.proper_fields)
      fun s _ => hrecord s.proper_fields

lemma InRange.isSimple_outline (h : d.InRange) : d.outline.IsSimple where
  fields := d.isSimple_fields.present d.proper_fields
  keys := by
    simp only [outline, List.forall_mem_cons]
    exact ⟨by decide, by decide, by decide, List.forall_mem_nil _⟩
  records := forall_records
    (fun n hn => (h.nodes n hn).isSimple.present n.proper_fields)
    (fun l _ => l.isSimple_fields.present l.proper_fields)
    fun s hs => (StepSpec.isSimple_fields (h.times s hs)).present s.proper_fields

/-- The text of a description yields the entries of its outline. -/
lemma InRange.read?_toToml (h : d.InRange) : Toml.read? d.toToml = some d.outline.entries := by
  rw [toToml, toStatements_eq, Outline.read?_write d.distinct_outline h.isSimple_outline]

end Description

/-! ### Reading -/

lemma fieldOf?_present {fs : Fields} (h : fs.Proper) (place : Nat) (key : String) :
    fieldOf? (.table fs.present) place key = (fs.lookup key).join :=
  h.lookup_present key

lemma numberOf?_numberValue {n : Nat} (h : n < Text.bound32) :
    numberOf? (numberValue n) = some n := by
  rw [numberValue, numberOf?, if_pos ⟨Int.natCast_nonneg n, Int.ofNat_lt.mpr h⟩, Int.toNat_natCast]

lemma defaulted_some {α : Type} (read : Value → Option α) (default : α) (v : Value) :
    defaulted read default (some v) = read v := by
  rw [defaulted]

/-- A setting is read back, whether it is set or not. -/
lemma setting_map {α : Type} {f : α → Value} {read : Value → Option α} {value : Option α}
    (h : ∀ a ∈ value, read (f a) = some a) : setting read (value.map f) = some value := by
  cases value with
  | none => rfl
  | some a => simp [setting, defaulted, h a rfl]

lemma defaulted_switchValue (on : Bool) : defaulted switchOf? false (switchValue on) = some on := by
  cases on <;> rfl

/-- A list is read back item by item. -/
lemma listOf?_map {α : Type} {f : α → Value} {read : Value → Option α} {items : List α}
    (h : ∀ a ∈ items, read (f a) = some a) : listOf? read (.array (items.map f)) = some items := by
  rw [listOf?]
  induction items with
  | nil => rfl
  | cons a items ih =>
      rw [List.forall_mem_cons] at h
      simp [h.1, ih h.2]

lemma defaulted_numbersValue {ns : List Nat} (h : ∀ n ∈ ns, n < Text.bound32) :
    defaulted (listOf? numberOf?) [] (numbersValue ns) = some ns := by
  rw [numbersValue]
  split
  · rename_i hempty
    rw [List.isEmpty_iff.mp hempty]
    rfl
  · exact listOf?_map fun n hn => numberOf?_numberValue (h n hn)

lemma NodeKind.ofValue?_text (kind : NodeKind) :
    NodeKind.ofValue? (.string kind.text) = some kind := by
  cases kind <;> rfl

lemma Mode.ofValue?_text (mode : Mode) : Mode.ofValue? (.string mode.text) = some mode := by
  cases mode <;> rfl

/-- A node is read back. -/
lemma NodeSpec.InRange.ofValue?_record {n : NodeSpec} (h : n.InRange) :
    NodeSpec.ofValue? (.table n.fields.present) = some n := by
  have hsetting : ∀ {value : Option Nat}, (∀ k ∈ value, k < Text.bound32) →
      setting numberOf? (value.map numberValue) = some value :=
    fun h => setting_map fun k hk => numberOf?_numberValue (h k hk)
  simp only [NodeSpec.ofValue?, fieldOf?_present n.proper_fields]
  simp [NodeSpec.fields, List.lookup_cons, required, textOf?, NodeKind.ofValue?_text,
    hsetting h.inputs, hsetting h.buffers, defaulted_switchValue, hsetting h.requiredIn,
    defaulted_numbersValue h.optionalInputs]

/-- A link is read back. -/
lemma LinkSpec.ofValue?_record (l : LinkSpec) :
    LinkSpec.ofValue? (.table l.fields.present) = some l := by
  simp only [LinkSpec.ofValue?, fieldOf?_present l.proper_fields]
  rfl

/-- A step is read back. -/
lemma StepSpec.ofValue?_record {s : StepSpec} (h : s.times < Text.bound32) :
    StepSpec.ofValue? (.table s.fields.present) = some s := by
  simp only [StepSpec.ofValue?, fieldOf?_present s.proper_fields]
  simp [StepSpec.fields, List.lookup_cons, required, textOf?, Mode.ofValue?_text, defaulted_some,
    numberOf?_numberValue h]

/-! ### Only such numbers are read -/

lemma lt_of_numberOf? {v : Value} {n : Nat} (h : numberOf? v = some n) : n < Text.bound32 := by
  cases v <;> simp only [numberOf?, reduceCtorEq] at h
  split at h
  · cases h
    omega
  · cases h

lemma lt_of_setting {field : Option Value} {value : Option Nat}
    (h : setting numberOf? field = some value) : ∀ k ∈ value, k < Text.bound32 := by
  intro k hk
  cases field with
  | none =>
      cases h
      cases hk
  | some v =>
      obtain ⟨n, hn, rfl⟩ := Option.map_eq_some_iff.mp h
      cases hk
      exact lt_of_numberOf? hn

/-- Every item of a list was read by itself. -/
lemma exists_of_mem_list {α : Type} {read : Value → Option α} {field : Option Value}
    {values : List α} (h : defaulted (listOf? read) [] field = some values) {a : α}
    (ha : a ∈ values) : ∃ v, read v = some a := by
  have key : ∀ (items : List Value) (values : List α), items.mapM read = some values →
      a ∈ values → ∃ v, read v = some a := by
    intro items
    induction items with
    | nil =>
        intro values h ha
        cases h
        cases ha
    | cons v items ih =>
        intro values h ha
        simp only [List.mapM_cons, Option.bind_eq_bind, Option.bind_eq_some_iff, Option.pure_def,
          Option.some.injEq] at h
        obtain ⟨b, hb, rest, hrest, rfl⟩ := h
        rcases List.mem_cons.mp ha with rfl | ha
        · exact ⟨v, hb⟩
        · exact ih rest hrest ha
  rcases field with _ | v
  · cases h
    cases ha
  · cases v <;> simp only [defaulted, listOf?, reduceCtorEq] at h
    exact key _ values h ha

/-- The numbers of a node that was read have at most 32 bits. -/
lemma NodeSpec.inRange_of_ofValue? {v : Value} {n : NodeSpec} (h : ofValue? v = some n) :
    n.InRange := by
  simp only [ofValue?, Option.bind_eq_bind, Option.bind_eq_some_iff, Option.pure_def,
    Option.some.injEq] at h
  obtain ⟨-, -, -, -, inputs, hinputs, buffers, hbuffers, -, -, required, hrequired, optional,
    hoptional, rfl⟩ := h
  refine ⟨lt_of_setting hinputs, lt_of_setting hbuffers, lt_of_setting hrequired,
    fun k hk => ?_⟩
  obtain ⟨w, hw⟩ := exists_of_mem_list hoptional hk
  exact lt_of_numberOf? hw

/-- The number of a step that was read has at most 32 bits. -/
lemma StepSpec.times_lt_of_ofValue? {v : Value} {s : StepSpec} (h : ofValue? v = some s) :
    s.times < Text.bound32 := by
  simp only [ofValue?, Option.bind_eq_bind, Option.bind_eq_some_iff, Option.pure_def,
    Option.some.injEq] at h
  obtain ⟨-, -, -, -, times, htimes, rfl⟩ := h
  cases hfield : fieldOf? v 2 "repeat" with
  | none =>
      rw [hfield] at htimes
      cases htimes
      exact (by decide : 1 < Text.bound32)
  | some w =>
      rw [hfield] at htimes
      exact lt_of_numberOf? htimes

/-! ### Whole descriptions -/

namespace Description

variable {d : Description}

/-- A field of a description is read from its document. -/
lemma fieldOf?_entries (d : Description) (place : Nat) (key : String) :
    fieldOf? (.table d.outline.entries) place key =
      (d.fields.lookup key).join.or
        ((d.outline.lists.lookup key).map fun rs => .array (rs.map .table)) := by
  rw [fieldOf?, Outline.lookup_entries d.distinct_outline]
  exact congrArg (Option.or · _) (d.proper_fields.lookup_present key)

/-- A list of a description is read back record by record. -/
lemma defaulted_records {α : Type} {fields : α → Fields} {read : Value → Option α}
    {items : List α} (h : ∀ a ∈ items, read (.table (fields a).present) = some a) :
    defaulted (listOf? read) []
      (some (.array ((items.map fun a => (fields a).present).map .table))) = some items := by
  rw [defaulted_some, List.map_map]
  exact listOf?_map h

/-- The entries of a description are read back as the description. -/
lemma InRange.ofValue?_entries (h : d.InRange) :
    Description.ofValue? (.table d.outline.entries) = some d := by
  have hsummary : setting textOf? (d.summary.map .string) = some d.summary :=
    setting_map fun _ _ => rfl
  have hnodes := defaulted_records fun n hn => (h.nodes n hn).ofValue?_record
  have hlinks := defaulted_records fun l (_ : l ∈ d.links) => l.ofValue?_record
  have hscript := defaulted_records fun s hs => StepSpec.ofValue?_record (h.times s hs)
  simp only [Description.ofValue?, fieldOf?_entries]
  simp [-List.map_map, Description.fields, outline, List.lookup_cons, required, textOf?, hsummary,
    defaulted_switchValue, hnodes, hlinks, hscript]

/-- A description is read back from its document. -/
lemma InRange.ofToml?_toToml (h : d.InRange) : ofToml? d.toToml = some d := by
  rw [ofToml?, h.read?_toToml, Option.bind_some, h.ofValue?_entries]

/-- Every number of a description that was read has at most 32 bits. -/
lemma inRange_of_ofToml? {text : String}
    (h : ofToml? text = some d) : d.InRange := by
  obtain ⟨entries, -, h⟩ := Option.bind_eq_some_iff.mp h
  simp only [ofValue?, Option.bind_eq_bind, Option.bind_eq_some_iff, Option.pure_def,
    Option.some.injEq] at h
  obtain ⟨-, -, -, -, -, -, nodes, hnodes, -, -, script, hscript, rfl⟩ := h
  refine ⟨fun n hn => ?_, fun s hs => ?_⟩
  · obtain ⟨v, hv⟩ := exists_of_mem_list hnodes hn
    exact NodeSpec.inRange_of_ofValue? hv
  · obtain ⟨v, hv⟩ := exists_of_mem_list hscript hs
    exact StepSpec.times_lt_of_ofValue? hv

/-! ### Files -/

/-- A computation goes on from where its first part ended. -/
lemma run_bind_of_run {α β : Type} {x : StateM FileTree α} {f : α → StateM FileTree β}
    {t u : FileTree} {a : α} (h : x.run t = (a, u)) : (x >>= f).run t = (f a).run u := by
  rw [StateT.run_bind, h]
  rfl

lemma run_get (t : FileTree) : (get : StateM FileTree FileTree).run t = (t, t) := rfl

/-- A text that was written is read. -/
lemma run_readText {path text : String} {t u : FileTree}
    (h : t.write path text.toUTF8 = .ok u) :
    (FileSystem.readText path : StateM FileTree _).run u = (.ok text, u) := by
  have htext : String.fromUTF8? text.toUTF8 = some text := dif_pos text.isValidUTF8
  dsimp only [FileSystem.readText]
  rw [run_bind_of_run (run_get u), FileTree.read_write h]
  dsimp only
  rw [htext]
  rfl

/-- Writing a text to a tree succeeds only if the file is written. -/
lemma write_of_run_writeText {path text : String} {t u : FileTree}
    (h : (FileSystem.writeText path text : StateM FileTree _).run t = (.ok (), u)) :
    t.write path text.toUTF8 = .ok u := by
  dsimp only [FileSystem.writeText] at h
  rw [run_bind_of_run (run_get t)] at h
  rcases hwrite : t.write path text.toUTF8 with e | t'
  all_goals
    rw [hwrite] at h
    cases h
  rfl

/-- Loading reads the text of the file as a document. -/
lemma run_load {path text : String} {u : FileTree}
    (h : (FileSystem.readText path : StateM FileTree _).run u = (.ok text, u))
    (hd : ofToml? text = some d) : (load path : StateM FileTree _).run u = (.ok d, u) := by
  rw [load, run_bind_of_run h]
  dsimp only
  rw [hd]
  rfl

/-- Saving ends with writing the document to a tree. -/
lemma exists_write_of_save {path : String} {t u : FileTree}
    (h : (d.save path : StateM FileTree _).run t = (.ok (), u)) :
    ∃ t', FileTree.write t' path d.toToml.toUTF8 = .ok u := by
  rcases hparent : (makeParent path : StateM FileTree _).run t with ⟨_ | ⟨⟩, t'⟩
  all_goals rw [save, run_bind_of_run hparent] at h
  · cases h
  refine ⟨t', write_of_run_writeText ?_⟩
  rcases hwrite : (FileSystem.writeText path d.toToml : StateM FileTree _).run t' with
    ⟨_ | ⟨⟩, t''⟩
  all_goals
    dsimp only at h
    rw [run_bind_of_run hwrite] at h
    cases h
  rfl

/-- A description whose numbers have at most 32 bits is read back from its document, and
loading it from a file to which it was saved gives it back and changes nothing. -/
theorem round_trip (d : Description) (h : d.InRange) :
    ofToml? d.toToml = some d ∧
      ∀ (path : String) (t u : FileTree),
        (d.save path : StateM FileTree _).run t = (.ok (), u) →
          (load path : StateM FileTree _).run u = (.ok d, u) := by
  refine ⟨h.ofToml?_toToml, fun path t u hsave => ?_⟩
  obtain ⟨t', hwrite⟩ := exists_write_of_save hsave
  exact run_load (run_readText hwrite) h.ofToml?_toToml

/-- No bundled description has a larger number. -/
lemma inRange_of_mem_catalogue (hd : d ∈ Catalogue.all) : d.InRange := by
  have hall : ∀ d ∈ Catalogue.all, (∀ n ∈ d.nodes, (∀ k ∈ n.inputs, k < Text.bound32) ∧
      (∀ k ∈ n.buffers, k < Text.bound32) ∧ (∀ k ∈ n.requiredIn, k < Text.bound32) ∧
        ∀ k ∈ n.optionalInputs, k < Text.bound32) ∧
      ∀ s ∈ d.script, s.times < Text.bound32 := by decide
  obtain ⟨hnodes, htimes⟩ := hall d hd
  refine ⟨fun n hn => ?_, htimes⟩
  obtain ⟨hinputs, hbuffers, hrequired, hoptional⟩ := hnodes n hn
  exact ⟨hinputs, hbuffers, hrequired, hoptional⟩

/-- In an empty tree, saving a graph of two sources succeeds. -/
theorem round_trip_fanIn : Catalogue.fanIn.InRange ∧
    ofToml? Catalogue.fanIn.toToml = some Catalogue.fanIn ∧
    ∃ u : FileTree, (save Catalogue.fanIn "fan_in.toml" : StateM FileTree _).run {} = (.ok (), u) ∧
      (load "fan_in.toml" : StateM FileTree _).run u = (.ok Catalogue.fanIn, u) := by
  have hfits := inRange_of_mem_catalogue (d := Catalogue.fanIn) (by simp [Catalogue.all])
  obtain ⟨htext, hfile⟩ := round_trip Catalogue.fanIn hfits
  have hsave : (save Catalogue.fanIn "fan_in.toml" : StateM FileTree _).run {} =
      (.ok (), { entries := [("fan_in.toml", .file Catalogue.fanIn.toToml.toUTF8)] }) := by
    rfl
  exact ⟨hfits, htext, _, hsave, hfile _ _ _ hsave⟩

end Description

end MediaGraph
