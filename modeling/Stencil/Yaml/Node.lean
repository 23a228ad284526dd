/-!
# YAML nodes

What a YAML document holds.  A scalar is kept as it is written, together with whether it stands
without quotes, since only then can it be anything but a text.
-/

namespace Stencil.Yaml

/-- A node of a document. -/
inductive Node where
  /-- A scalar, and whether it stands without quotes. -/
  | scalar (text : String) (plain : Bool)
  /-- A sequence. -/
  | sequence (items : List Node)
  /-- A mapping, its entries in the order of the document. -/
  | mapping (entries : List (Node × Node))
  deriving Inhabited

namespace Node

/-- The node that stands where nothing is written. -/
def absent : Node := .scalar "" true

/-- The text of a scalar, whatever it looks like. -/
def text? : Node → Option String
  | scalar s _ => some s
  | _ => none

end Node

end Stencil.Yaml
