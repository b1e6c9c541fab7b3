import Stencil.Render.Error
import Stencil.Text.Blank
import Stencil.Text.Pieces
import Stencil.Value.Json
/-!
# Values as collections

Membership, the entries of arrays and objects, and the pieces of a text.
-/

namespace Stencil

namespace Value

/-- Whether `container` holds `item`: a text as a part, an array as an item, an object as a key.
`null` holds nothing. -/
def contains (container item : Value) : Except RenderError Bool :=
  match container with
  | null => .ok false
  | string s => .ok (Text.occurs item.display.toList s.toList)
  | array items => .ok (items.any fun x => x.equal item)
  | object members => .ok (Table.has members item.display)
  | other => .error (.unsupportedContainer other.kind)

/-- Where an entry of a collection stands. -/
inductive Position
  | index (i : Nat)
  | key (k : String)
  deriving DecidableEq

/-- The entries of an array or an object in order. -/
def entries (container : Value) : Except RenderError (List (Position × Value)) :=
  match container with
  | array items => .ok (items.zipIdx.map fun e => (.index e.2, e.1))
  | object members => .ok (members.map fun e => (.key e.1, e.2))
  | other => .error (.notIterable other.kind)

/-- The number at the head of a text. -/
def numberOfText (text : String) : Except RenderError Number :=
  match Number.ofText? text.toList with
  | some n => .ok n
  | none => .error (.invalidNumber text)

end Value

namespace Text

/-- The pieces of a text between separators, without blanks around them and without the empty
ones. -/
def fields (text sep : String) : List String :=
  (((cutAt sep.toList text.toList).map trim).filter fun w => !w.isEmpty).map String.ofList

end Text

end Stencil
