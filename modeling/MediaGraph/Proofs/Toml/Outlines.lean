/-
Documents that are outlines: values under keys, and then lists of records, each record
with a header of its own.

* `Record`, `Outline`: values under keys, and lists of such records besides;
* `Outline.statements`, `Outline.entries`: the document of an outline, and the entries
  that it has to yield;
* `Table.fill_record`: a record fills an empty table;
* `exists_addSections_listLines`: a further record is a further table of its list;
* `Outline.tableOf?_statements`: the document of an outline yields its entries;
* `Outline.lookup_entries`: what stands under a key.
-/
import MediaGraph.Proofs.Toml.Lines
import Mathlib.Data.List.Nodup

namespace MediaGraph.Toml

lemma entryValues_eq_map (es : List (String × Item)) :
    entryValues es = es.map fun e => (e.1, e.2.value) := by
  induction es with
  | nil => rfl
  | cons e es ih => rw [entryValues, ih, List.map_cons]

lemma tableValues_eq_map (tables : List (List (String × Item))) :
    tableValues tables = tables.map fun es => .table (entryValues es) := by
  induction tables with
  | nil => rfl
  | cons es tables ih => rw [tableValues, ih, List.map_cons]

/-! ### Records and outlines -/

/-- Values under keys. -/
abbrev Record := List (String × Value)

namespace Record

/-- The keys of a record. -/
def keys (r : Record) : List String := r.map Prod.fst

/-- A pair for each value. -/
def pairs (r : Record) : List (Path × Value) := r.map fun e => ([e.1], e.2)

/-- The values as items that nothing can be added to. -/
def close (r : Record) : List (String × Item) := r.map fun e => (e.1, .closed e.2)

lemma entryValues_close (r : Record) : entryValues r.close = r := by
  simp [entryValues_eq_map, close, Item.value, Function.comp_def]

lemma keys_close (r : Record) : r.close.map Prod.fst = r.keys := by
  simp only [close, keys, List.map_map]
  rfl

end Record

/-- The lines of pairs. -/
def pairLines (ps : List (Path × Value)) : List Statement :=
  ps.map fun p => .pair p.1 p.2

/-- No key needs quotes, and the values are simple. -/
def Record.IsSimple (r : Record) : Prop := ∀ e ∈ r, IsBareKey e.1 ∧ e.2.IsSimple

lemma Record.IsSimple.pairLines {r : Record} (h : r.IsSimple) :
    ∀ s ∈ pairLines r.pairs, s.IsSimple := by
  simp only [Toml.pairLines, Record.pairs, List.map_map, List.forall_mem_map]
  exact fun e he => .pair (h e he).1 (h e he).2

/-- The lines of a list of records. -/
def listLines (list : String × List Record) : List Statement :=
  list.2.flatMap fun r => .element [list.1] :: pairLines r.pairs

/-- Values under keys, and lists of records under further keys. -/
structure Outline where
  fields : Record
  lists : List (String × List Record)

namespace Outline

/-- The lists without records, as values. -/
def blanks (lists : List (String × List Record)) : Record :=
  (lists.filter (·.2.isEmpty)).map fun l => (l.1, .array [])

/-- The lists with records, as values. -/
def arrays (lists : List (String × List Record)) : Record :=
  (lists.filter (!·.2.isEmpty)).map fun l => (l.1, .array (l.2.map .table))

variable (o : Outline)

/-- The document of an outline. A list without records is written as a value. -/
def statements : List Statement :=
  pairLines (Record.pairs (o.fields ++ blanks o.lists)) ++ o.lists.flatMap listLines

/-- The entries that the document has to yield. -/
def entries : Record := o.fields ++ blanks o.lists ++ arrays o.lists

/-- No key occurs twice, neither in the outline nor in a record of its lists. -/
structure Distinct : Prop where
  keys : (o.fields.keys ++ o.lists.map Prod.fst).Nodup
  records : ∀ l ∈ o.lists, ∀ r ∈ l.2, Record.keys r |>.Nodup

end Outline

/-! ### Tables -/

namespace Table

variable {t : Table} {key : String} {item item' : Item} {v : Value} {r : Record}
  {es es' : List (String × Item)}

/-- The table with further entries. -/
def extend (t : Table) (es : List (String × Item)) : Table :=
  { t with entries := t.entries ++ es }

/-- Nothing stands under a key yet. -/
def Fresh (t : Table) (key : String) : Prop := key ∉ t.entries.map Prod.fst

@[simp]
lemma extend_extend (t : Table) (es es' : List (String × Item)) :
    (t.extend es).extend es' = t.extend (es ++ es') := by
  simp [extend]

lemma fresh_extend : (t.extend es).Fresh key ↔ t.Fresh key ∧ key ∉ es.map Prod.fst := by
  simp [Fresh, extend, not_or]

lemma Fresh.extend_of_ne {k : String} (h : t.Fresh key) (hne : key ≠ k) :
    (t.extend [(k, item)]).Fresh key :=
  fresh_extend.mpr ⟨h, by simpa using hne⟩

lemma Fresh.get?_eq_none (h : t.Fresh key) : t.get? key = none := by
  rw [get?, List.lookup_eq_none_iff]
  intro e he
  simpa using fun heq => h (List.mem_map.mpr ⟨e, he, heq.symm⟩)

lemma Fresh.put_eq (h : t.Fresh key) : t.put key item = t.extend [(key, item)] := by
  rw [put, h.get?_eq_none]
  rfl

lemma Fresh.get?_extend (h : t.Fresh key) : (t.extend [(key, item)]).get? key = some item := by
  have hnone := h.get?_eq_none
  rw [get?] at hnone
  simp [get?, extend, List.lookup_append, hnone]

/-- The item that was put last is replaced. -/
lemma Fresh.put_extend (h : t.Fresh key) :
    (t.extend [(key, item)]).put key item' = t.extend [(key, item')] := by
  have hmap : (t.entries.map fun e => if e.1 = key then (key, item') else e) = t.entries :=
    (List.map_congr_left fun e he =>
      if_neg fun heq => h (List.mem_map.mpr ⟨e, he, heq⟩)).trans (List.map_id _)
  rw [put, h.get?_extend]
  simp [extend, hmap]

/-- A single key that is fresh takes a value. -/
lemma insertPair_of_fresh (hd : t.dotted = false) (h : t.Fresh key) :
    t.insertPair [key] v = some (t.extend [(key, .closed v)]) := by
  rw [← h.put_eq]
  simp [insertPair, descend, hd, h.get?_eq_none]

lemma fill_cons (p : Path × Value) (ps : List (Path × Value)) (t : Table) :
    fill (p :: ps) t = (t.insertPair p.1 p.2).bind (fill ps) := rfl

/-- A record is added to a table that has none of its keys. -/
lemma fill_pairs (hd : t.dotted = false) (hr : r.keys.Nodup)
    (hfresh : ∀ k ∈ r.keys, t.Fresh k) : fill r.pairs t = some (t.extend r.close) := by
  induction r generalizing t with
  | nil => simp [Record.pairs, Record.close, fill, extend]
  | cons e r ih =>
      simp only [Record.keys, List.map_cons, List.nodup_cons, List.forall_mem_cons] at hr hfresh
      have hrest := ih (t := t.extend [(e.1, .closed e.2)]) hd hr.2 fun k hk =>
        (hfresh.2 k hk).extend_of_ne fun hke => hr.1 (hke ▸ hk)
      calc fill (Record.pairs (e :: r)) t
          = (t.insertPair [e.1] e.2).bind (fill (Record.pairs r)) := fill_cons _ _ t
        _ = fill (Record.pairs r) (t.extend [(e.1, .closed e.2)]) := by
            rw [insertPair_of_fresh hd hfresh.1, Option.bind_some]
        _ = some (t.extend (Record.close (e :: r))) := by
            rw [hrest, extend_extend]
            rfl

/-- A record fills an empty table. -/
lemma fill_record (hr : r.keys.Nodup) : fill r.pairs {} = some { entries := r.close } :=
  fill_pairs rfl hr fun _ _ => List.not_mem_nil

/-- The first record of a list. -/
lemma openElement_of_fresh (h : t.Fresh key) (hr : r.keys.Nodup) :
    t.openElement [key] r.pairs = some (t.extend [(key, .tables [] r.close)]) := by
  rw [← h.put_eq]
  simp [openElement, descend, h.get?_eq_none, fill_record hr]

/-- A further record of a list. -/
lemma openElement_extend (h : t.Fresh key) (hr : r.keys.Nodup)
    (earlier : List (List (String × Item))) (last : List (String × Item)) :
    (t.extend [(key, .tables earlier last)]).openElement [key] r.pairs =
      some (t.extend [(key, .tables (earlier ++ [last]) r.close)]) := by
  simp [openElement, descend, h.get?_extend, h.put_extend, fill_record hr]

end Table

/-! ### Documents -/

variable {t : Table} {key : String} {r : Record} {rs : List Record} {rest : List Statement}
  {ls : List (String × List Record)}

/-- What follows the pairs of a section starts with a header. -/
def Headed (rest : List Statement) : Prop := splitPairs rest = ([], rest)

lemma headed_listLines_append (hrest : Headed rest) (l : String × List Record) :
    Headed (listLines l ++ rest) := by
  obtain ⟨key, rs⟩ := l
  cases rs with
  | nil => exact hrest
  | cons r rs => rfl

lemma headed_lists (ls : List (String × List Record)) : Headed (ls.flatMap listLines) := by
  induction ls with
  | nil => rfl
  | cons l ls ih => exact headed_listLines_append ih l

/-- The pairs of a section end at the next header. -/
lemma splitPairs_pairLines (hrest : Headed rest) (ps : List (Path × Value)) :
    splitPairs (pairLines ps ++ rest) = (ps, rest) := by
  induction ps with
  | nil => exact hrest
  | cons p ps ih =>
      show splitPairs (.pair p.1 p.2 :: (pairLines ps ++ rest)) = (p :: ps, rest)
      rw [splitPairs, ih]

/-- Pairs in front of a document fill its table. -/
lemma addSections_pairLines (ps : List (Path × Value)) (t : Table) :
    addSections (pairLines ps ++ rest) t = (t.fill ps).bind (addSections rest) := by
  induction ps generalizing t with
  | nil => rfl
  | cons p ps ih =>
      show addSections (.pair p.1 p.2 :: (pairLines ps ++ rest)) t = _
      rw [addSections, Table.fill_cons, Option.bind_assoc]
      exact congrArg _ (funext ih)

/-- A header with the lines of a record opens a table. -/
lemma addSections_element (hrest : Headed rest) (t : Table) :
    addSections (.element [key] :: (pairLines r.pairs ++ rest)) t =
      (t.openElement [key] r.pairs).bind (addSections rest) := by
  rw [addSections, splitPairs_pairLines hrest]

/-- The first record of a list is followed by the others. -/
lemma addSections_listLines_cons (hrest : Headed rest) (t : Table) :
    addSections (listLines (key, r :: rs) ++ rest) t =
      (t.openElement [key] r.pairs).bind (addSections (listLines (key, rs) ++ rest)) := by
  show addSections
    (.element [key] :: (pairLines r.pairs ++ listLines (key, rs)) ++ rest) t = _
  rw [List.cons_append, List.append_assoc,
    addSections_element (headed_listLines_append hrest _)]

/-- Further records of a list are further tables of an array. -/
lemma exists_addSections_listLines (hkey : t.Fresh key) (hrs : ∀ r ∈ rs, r.keys.Nodup)
    (hrest : Headed rest) (earlier : List (List (String × Item)))
    (last : List (String × Item)) :
    ∃ item : Item,
      item.value = .array (tableValues earlier ++ .table (entryValues last) :: rs.map .table) ∧
      addSections (listLines (key, rs) ++ rest) (t.extend [(key, .tables earlier last)]) =
        addSections rest (t.extend [(key, item)]) := by
  induction rs generalizing earlier last with
  | nil => exact ⟨.tables earlier last, by rw [Item.value]; rfl, rfl⟩
  | cons r rs ih =>
      rw [List.forall_mem_cons] at hrs
      obtain ⟨item, hitem, hrun⟩ := ih hrs.2 (earlier ++ [last]) r.close
      refine ⟨item, ?_, ?_⟩
      · rw [hitem, Record.entryValues_close]
        simp [tableValues_eq_map]
      · rw [addSections_listLines_cons hrest, Table.openElement_extend hkey hrs.1,
          Option.bind_some, hrun]

/-- Lists of records under fresh keys become arrays of tables. -/
lemma exists_addSections_lists (hkeys : (ls.map Prod.fst).Nodup)
    (hrecords : ∀ l ∈ ls, ∀ r ∈ l.2, Record.keys r |>.Nodup)
    (hfresh : ∀ l ∈ ls, l.2 ≠ [] → t.Fresh l.1) :
    ∃ u : Table, addSections (ls.flatMap listLines) t = some u ∧
      entryValues u.entries = entryValues t.entries ++ Outline.arrays ls := by
  induction ls generalizing t with
  | nil => exact ⟨t, by simp [addSections], by simp [Outline.arrays]⟩
  | cons l ls ih =>
      obtain ⟨key, rs⟩ := l
      rw [List.map_cons, List.nodup_cons] at hkeys
      rw [List.forall_mem_cons] at hrecords hfresh
      cases rs with
      | nil => exact ih hkeys.2 hrecords.2 hfresh.2
      | cons r rs =>
          have hkey : t.Fresh key := hfresh.1 (List.cons_ne_nil _ _)
          have hrs := List.forall_mem_cons.mp hrecords.1
          obtain ⟨item, hitem, hrun⟩ := exists_addSections_listLines hkey hrs.2
            (headed_lists ls) [] r.close
          obtain ⟨u, hu, hentries⟩ := ih (t := t.extend [(key, item)]) hkeys.2 hrecords.2
            fun l hl hne => (hfresh.2 l hl hne).extend_of_ne fun heq =>
              hkeys.1 (List.mem_map.mpr ⟨l, hl, heq⟩)
          refine ⟨u, ?_, ?_⟩
          · rw [List.flatMap_cons, addSections_listLines_cons (headed_lists ls),
              Table.openElement_of_fresh hkey hrs.1, Option.bind_some, hrun, hu]
          · rw [Record.entryValues_close] at hitem
            rw [hentries, entryValues_eq_map, entryValues_eq_map, Table.extend]
            simp [hitem, tableValues, Outline.arrays]

namespace Outline

variable {o : Outline}

lemma keys_blanks_sublist (ls : List (String × List Record)) :
    (blanks ls).keys.Sublist (ls.map Prod.fst) := by
  rw [blanks, Record.keys, List.map_map]
  exact List.filter_sublist.map _

lemma mem_keys_blanks {ls : List (String × List Record)} {key : String} :
    key ∈ (blanks ls).keys ↔ (key, []) ∈ ls := by
  simp [blanks, Record.keys]

/-- The document of an outline yields its entries. -/
theorem tableOf?_statements (h : o.Distinct) : tableOf? o.statements = some o.entries := by
  obtain ⟨hnodup, hrecords⟩ := h
  have hblanks := keys_blanks_sublist o.lists
  have hfront : (Record.keys (o.fields ++ blanks o.lists)).Nodup := by
    rw [Record.keys, List.map_append]
    exact hnodup.sublist (hblanks.append_left _)
  have hfill := Table.fill_pairs (t := {}) rfl hfront fun _ _ => List.not_mem_nil
  rw [List.nodup_append] at hnodup
  obtain ⟨-, hlists, hdisjoint⟩ := hnodup
  -- a list with records has no line in front of the sections
  have hfresh : ∀ l ∈ o.lists, l.2 ≠ [] →
      (Table.extend {} (Record.close (o.fields ++ blanks o.lists))).Fresh l.1 := by
    rintro ⟨key, rs⟩ hl hne
    have hkey : key ∈ o.lists.map Prod.fst := List.mem_map_of_mem hl
    rw [Table.fresh_extend, Record.keys_close, Record.keys, List.map_append, List.mem_append]
    refine ⟨List.not_mem_nil, ?_⟩
    rintro (hfield | hblank)
    · exact hdisjoint _ hfield _ hkey rfl
    · have hnil := mem_keys_blanks.mp hblank
      exact hne (Prod.ext_iff.mp (List.inj_on_of_nodup_map hlists hl hnil rfl)).2
  obtain ⟨u, hu, hentries⟩ := exists_addSections_lists hlists hrecords hfresh
  have hrun : addSections o.statements {} = some u := by
    rw [statements, addSections_pairLines, hfill, Option.bind_some, hu]
  have hvalues : entryValues u.entries = o.entries := by
    rw [hentries, entries]
    exact congrArg (· ++ arrays o.lists) (Record.entryValues_close _)
  rw [tableOf?, hrun, Option.map_some, hvalues]

/-- A list is found as a value or as an array of tables. -/
lemma lookup_lists {ls : List (String × List Record)} (h : (ls.map Prod.fst).Nodup)
    (key : String) : (blanks ls ++ arrays ls).lookup key =
      (ls.lookup key).map fun rs => .array (rs.map .table) := by
  induction ls with
  | nil => rfl
  | cons l ls ih =>
      obtain ⟨k, rs⟩ := l
      rw [List.map_cons, List.nodup_cons] at h
      have hrest := ih h.2
      rw [List.lookup_append] at hrest ⊢
      cases rs with
      | nil =>
          show (List.lookup key ((k, .array []) :: blanks ls)).or (List.lookup key (arrays ls)) = _
          by_cases hk : key = k
          · rw [hk, List.lookup_cons_self, List.lookup_cons_self]
            rfl
          · have hne : (key == k) = false := beq_false_of_ne hk
            simp only [List.lookup_cons, hne, hrest]
      | cons r rs =>
          show (List.lookup key (blanks ls)).or
            (List.lookup key ((k, .array ((r :: rs).map .table)) :: arrays ls)) = _
          by_cases hk : key = k
          · have hnone : (blanks ls).lookup k = none := List.lookup_eq_none_iff.mpr fun e he => by
              have hmem := (keys_blanks_sublist ls).subset (List.mem_map_of_mem he)
              have hne : k ≠ e.1 := fun heq => h.1 (heq ▸ hmem)
              simpa using hne
            rw [hk, hnone, List.lookup_cons_self, List.lookup_cons_self]
            rfl
          · have hne : (key == k) = false := beq_false_of_ne hk
            simp only [List.lookup_cons, hne, hrest]

/-- What stands under a key is a value of the outline, or one of its lists. -/
theorem lookup_entries (h : o.Distinct) (key : String) :
    o.entries.lookup key = (o.fields.lookup key).or
      ((o.lists.lookup key).map fun rs => .array (rs.map .table)) := by
  obtain ⟨hnodup, -⟩ := h
  have hlists := (List.nodup_append.mp hnodup).2.1
  rw [entries, List.append_assoc, List.lookup_append, lookup_lists hlists]

/-! ### Texts -/

/-- Every key needs no quotes, and every value is simple. -/
structure IsSimple (o : Outline) : Prop where
  fields : o.fields.IsSimple
  keys : ∀ l ∈ o.lists, IsBareKey l.1
  records : ∀ l ∈ o.lists, ∀ r ∈ l.2, Record.IsSimple r

lemma IsSimple.blanks (h : o.IsSimple) : (Outline.blanks o.lists).IsSimple := by
  intro e he
  have hkey := mem_keys_blanks.mp (List.mem_map_of_mem he)
  obtain ⟨l, -, rfl⟩ := List.mem_map.mp he
  exact ⟨h.keys (l.1, []) hkey, .array (List.forall_mem_nil _)⟩

/-- The document of a simple outline consists of simple statements. -/
lemma IsSimple.statements (h : o.IsSimple) : ∀ s ∈ o.statements, s.IsSimple := by
  intro s hs
  rw [Outline.statements, List.mem_append, List.mem_flatMap] at hs
  rcases hs with hs | ⟨l, hl, hs⟩
  · have hfront : Record.IsSimple (o.fields ++ Outline.blanks o.lists) :=
      List.forall_mem_append.mpr ⟨h.fields, h.blanks⟩
    exact hfront.pairLines s hs
  · obtain ⟨r, hr, hs⟩ := List.mem_flatMap.mp hs
    rcases List.mem_cons.mp hs with rfl | hs
    · exact .element (h.keys l hl)
    · exact (h.records l hl r hr).pairLines s hs

/-- The text of a simple outline yields its entries. -/
theorem read?_write (hdistinct : o.Distinct) (hsimple : o.IsSimple) :
    read? (write o.statements) = some o.entries := by
  rw [read?, statements?_write hsimple.statements, Option.bind_some,
    tableOf?_statements hdistinct]

end Outline

end MediaGraph.Toml
