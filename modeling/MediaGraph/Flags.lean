/-
Flags of nodes and of ports.

* `NodeFlags`: whether a node is asynchronous, so that it may be asked to
  produce again within the activation that it drives.
* `PortFlags`: whether an input is optional, so that its node does not wait
  for it.
* `contains`, `union`: flags as sets.
-/

namespace MediaGraph

/-- The flags of a node. -/
@[ext]
structure NodeFlags where
  async : Bool := false
deriving DecidableEq, Repr

namespace NodeFlags

/-- Every flag of `b` is also a flag of `a`. -/
def contains (a b : NodeFlags) : Bool := b.async → a.async

/-- The flags of either. -/
def union (a b : NodeFlags) : NodeFlags := ⟨a.async || b.async⟩

@[simp] theorem contains_none (a : NodeFlags) : a.contains {} = true := by
  simp [contains]

theorem contains_union_right (a b : NodeFlags) :
    (a.union b).contains b = true := by
  simp +contextual [contains, union]

end NodeFlags

/-- The flags of a port. -/
@[ext]
structure PortFlags where
  optional : Bool := false
deriving DecidableEq, Repr

namespace PortFlags

/-- Every flag of `b` is also a flag of `a`. -/
def contains (a b : PortFlags) : Bool := b.optional → a.optional

/-- The flags of either. -/
def union (a b : PortFlags) : PortFlags := ⟨a.optional || b.optional⟩

@[simp] theorem contains_none (a : PortFlags) : a.contains {} = true := by
  simp [contains]

theorem contains_union_right (a b : PortFlags) :
    (a.union b).contains b = true := by
  simp +contextual [contains, union]

end PortFlags

end MediaGraph
