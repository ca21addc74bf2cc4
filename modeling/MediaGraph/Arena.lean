/-
Arenas: growing stores whose entries are named by handles.

A handle is given out once, when its entry is inserted, and never again: an
erased entry leaves a hole behind.

* `Handle`: the name of a node, of a port or of a slot; handles of different
  kinds have different types.
* `Handle.bound`, `Handle.wrapped`: how many handles of a kind have a number of
  their own, and what becomes of the numbers past them.
* `Arena`: the cells in order of creation, a hole being `none`.
* `Arena.get?_insert`, `Arena.get?_erase`, `Arena.get?_modify`: what each
  operation does to the entry of any handle.
* `Arena.ext_get?`: two arenas with equally many cells and the same entries
  are equal.
-/

namespace MediaGraph

/-! ### Handles -/

/-- The kinds of entry that a graph is made of. -/
inductive Kind where
  | node
  | port
  | slot
deriving DecidableEq, Repr

/-- The name of an entry: its place in the order of creation. -/
@[ext]
structure Handle (kind : Kind) where
  index : Nat
deriving DecidableEq, Repr

/-- The name of a node. -/
abbrev NodeId := Handle .node

/-- The name of a port. -/
abbrev PortId := Handle .port

/-- The name of the slot behind a link. -/
abbrev SlotId := Handle .slot

namespace Handle

variable {kind : Kind}

/-- How many handles of a kind have a number of their own, `2 ^ 32`. -/
def bound : Nat := 4294967296

/-- The handle that is read back from the 32 bits in which a number is kept:
past the bound the numbers start over. -/
def wrapped (h : Handle kind) : Handle kind := ⟨h.index % bound⟩

theorem wrapped_of_lt {h : Handle kind} (hlt : h.index < bound) :
    h.wrapped = h := by
  rw [wrapped, Nat.mod_eq_of_lt hlt]

end Handle

/-! ### Arenas -/

/-- A store of entries under handles of one kind. -/
structure Arena (kind : Kind) (α : Type) where
  cells : Array (Option α)
deriving DecidableEq, Repr

namespace Arena

variable {kind : Kind} {α : Type}

/-- The arena in which nothing was ever created. -/
def empty : Arena kind α := ⟨#[]⟩

/-- The number of entries ever created, holes included. -/
def size (a : Arena kind α) : Nat := a.cells.size

/-- The live entry of a handle. -/
def get? (a : Arena kind α) (h : Handle kind) : Option α :=
  a.cells[h.index]?.join

/-- Whether a handle names a live entry. -/
def contains (a : Arena kind α) (h : Handle kind) : Bool :=
  (a.get? h).isSome

/-- The handle that the next created entry gets. It is a new one past
`Handle.bound` as well; what keeps it in 32 bits reads back an earlier one. -/
def fresh (a : Arena kind α) : Handle kind := ⟨a.size⟩

/-- Creates an entry under the fresh handle. -/
def insert (a : Arena kind α) (x : α) : Arena kind α :=
  ⟨a.cells.push (some x)⟩

/-- Leaves a hole at a handle. -/
def erase (a : Arena kind α) (h : Handle kind) : Arena kind α :=
  ⟨a.cells.modify h.index fun _ => none⟩

/-- Changes the entry of a handle, if it is live. -/
def modify (a : Arena kind α) (h : Handle kind) (f : α → α) : Arena kind α :=
  ⟨a.cells.modify h.index (Option.map f)⟩

/-- The live entries, in order of creation. -/
def values (a : Arena kind α) : List α :=
  a.cells.toList.filterMap id

/-- The handles of the live entries, in order of creation. -/
def handles (a : Arena kind α) : List (Handle kind) :=
  ((List.range a.size).map Handle.mk).filter a.contains

/-! ### The entry of a handle after each operation -/

theorem get?_eq_some_iff {a : Arena kind α} {h : Handle kind} {x : α} :
    a.get? h = some x ↔ a.cells[h.index]? = some (some x) := by
  rcases hc : a.cells[h.index]? with _ | _ | y <;> simp [get?, hc]

theorem get?_of_size_le {a : Arena kind α} {h : Handle kind}
    (hs : a.size ≤ h.index) : a.get? h = none := by
  simp only [size] at hs
  simp [get?, Array.getElem?_eq_none hs]

/-- A live handle was created. -/
theorem index_lt_size {a : Arena kind α} {h : Handle kind} {x : α}
    (hx : a.get? h = some x) : h.index < a.size := by
  rcases Nat.lt_or_ge h.index a.size with hlt | hge
  · exact hlt
  · simp [get?_of_size_le hge] at hx

/-- As long as there are numbers enough, a live handle is read back. -/
theorem wrapped_of_get? {a : Arena kind α} {h : Handle kind} {x : α}
    (hsize : a.size ≤ Handle.bound) (hx : a.get? h = some x) : h.wrapped = h :=
  Handle.wrapped_of_lt (Nat.lt_of_lt_of_le (index_lt_size hx) hsize)

@[simp] theorem get?_empty (h : Handle kind) :
    (empty : Arena kind α).get? h = none := by
  simp [get?, empty]

theorem get?_insert (a : Arena kind α) (x : α) (h : Handle kind) :
    (a.insert x).get? h = if h = a.fresh then some x else a.get? h := by
  obtain ⟨i⟩ := h
  simp only [get?, insert, fresh, size, Handle.mk.injEq, Array.getElem?_push]
  split <;> simp

theorem get?_erase (a : Arena kind α) (h h' : Handle kind) :
    (a.erase h).get? h' = if h = h' then none else a.get? h' := by
  by_cases hh : h = h'
  · subst hh
    rcases hc : a.cells[h.index]? with _ | _ | y <;>
      simp [get?, erase, Array.getElem?_modify, hc]
  · have hi : h.index ≠ h'.index := fun e => hh (Handle.ext e)
    simp [get?, erase, Array.getElem?_modify, hh, hi]

theorem get?_modify (a : Arena kind α) (h h' : Handle kind) (f : α → α) :
    (a.modify h f).get? h' =
      if h = h' then (a.get? h').map f else a.get? h' := by
  by_cases hh : h = h'
  · subst hh
    rcases hc : a.cells[h.index]? with _ | _ | y <;>
      simp [get?, modify, Array.getElem?_modify, hc]
  · have hi : h.index ≠ h'.index := fun e => hh (Handle.ext e)
    simp [get?, modify, Array.getElem?_modify, hh, hi]

@[simp] theorem get?_erase_self (a : Arena kind α) (h : Handle kind) :
    (a.erase h).get? h = none := by
  simp [get?_erase]

@[simp] theorem get?_modify_self (a : Arena kind α) (h : Handle kind)
    (f : α → α) : (a.modify h f).get? h = (a.get? h).map f := by
  simp [get?_modify]

theorem get?_modify_ne (a : Arena kind α) {h h' : Handle kind} (f : α → α)
    (hne : h ≠ h') : (a.modify h f).get? h' = a.get? h' := by
  simp [get?_modify, hne]

@[simp] theorem size_empty : (empty : Arena kind α).size = 0 := rfl

@[simp] theorem size_insert (a : Arena kind α) (x : α) :
    (a.insert x).size = a.size + 1 := by
  simp [size, insert]

@[simp] theorem size_erase (a : Arena kind α) (h : Handle kind) :
    (a.erase h).size = a.size := by
  simp [size, erase]

@[simp] theorem size_modify (a : Arena kind α) (h : Handle kind)
    (f : α → α) : (a.modify h f).size = a.size := by
  simp [size, modify]

theorem contains_iff {a : Arena kind α} {h : Handle kind} :
    a.contains h = true ↔ ∃ x, a.get? h = some x := by
  simp [contains, Option.isSome_iff_exists]

/-- The listed handles are the live ones. -/
theorem mem_handles {a : Arena kind α} {h : Handle kind} :
    h ∈ a.handles ↔ ∃ x, a.get? h = some x := by
  simp only [handles, List.mem_filter, List.mem_map, List.mem_range,
    contains_iff]
  constructor
  · exact fun hh => hh.2
  · rintro ⟨x, hx⟩
    exact ⟨⟨h.index, index_lt_size hx, rfl⟩, x, hx⟩

/-- The entry of a live handle is one of the live entries. -/
theorem mem_values {a : Arena kind α} {h : Handle kind} {x : α}
    (hx : a.get? h = some x) : x ∈ a.values :=
  List.mem_filterMap.mpr ⟨some x, Array.mem_toList_iff.mpr
    (Array.mem_of_getElem? (get?_eq_some_iff.mp hx)), rfl⟩

/-- The cells of an arena are determined by their number and the live
entries. -/
theorem ext_get? {a b : Arena kind α} (hs : a.size = b.size)
    (hg : ∀ h, a.get? h = b.get? h) : a = b := by
  obtain ⟨as⟩ := a
  obtain ⟨bs⟩ := b
  simp only [size] at hs
  congr 1
  apply Array.ext hs
  intro i hi hj
  have := hg ⟨i⟩
  simpa [get?, hi, hj] using this

end Arena

end MediaGraph
