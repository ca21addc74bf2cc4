/-
References to ports of named nodes.

A reference is `node` or `node:index`; blanks around the two parts do not
matter, and a missing index is 0.

* `PortRef`: a node name and an index.
* `PortRef.ofChars?`, `PortRef.parse?`: the reading of a reference.
* `PortRef.text`: the reference written out.
-/
import MediaGraph.Text.Blank
import MediaGraph.Text.Decimal

namespace MediaGraph

/-- A port of a named node, by its place among the ports of a direction. -/
@[ext]
structure PortRef where
  node : String
  index : Nat
deriving DecidableEq, Repr

namespace PortRef

/-- The reference to a port of a node whose name may not be empty. -/
def ofParts? (node : List Char) (index : Option Nat) : Option PortRef :=
  match Text.trim node, index with
  | [], _ => none
  | _, none => none
  | name, some i => some ⟨String.ofList name, i⟩

/-- Reads a reference: the first colon parts the name from the index. -/
def ofChars? (cs : List Char) : Option PortRef :=
  match cs.dropWhile (· ≠ ':') with
  | [] => ofParts? cs (some 0)
  | _ :: index => ofParts? (cs.takeWhile (· ≠ ':'))
      (Text.unsigned? Text.bound32 (Text.trim index))

/-- Reads a reference. -/
def parse? (s : String) : Option PortRef := ofChars? s.toList

/-- The reference written out in full. -/
def text (r : PortRef) : String := s!"{r.node}:{r.index}"

end PortRef

end MediaGraph
