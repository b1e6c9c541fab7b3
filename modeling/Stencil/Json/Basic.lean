import Stencil.Number.Basic
import Stencil.Table
/-!
# JSON values

JSON with integers and floating-point numbers kept apart. The members of an object are a table;
`sorted` puts them in the order of their keys at every level.
-/

namespace Stencil

/-- A JSON value. -/
inductive Json
  | null
  | bool (b : Bool)
  | number (n : Number)
  | string (s : String)
  | array (items : List Json)
  | object (members : List (String × Json))

namespace Json

instance : Inhabited Json := ⟨null⟩

mutual

/-- The value with the members of every object in the order of their keys. -/
def sorted : Json → Json
  | array items => array (sortedItems items)
  | object members => object (Table.sorted (sortedMembers members))
  | j => j

def sortedItems : List Json → List Json
  | [] => []
  | j :: js => sorted j :: sortedItems js

def sortedMembers : List (String × Json) → List (String × Json)
  | [] => []
  | (k, j) :: js => (k, sorted j) :: sortedMembers js

end

/-- The members of an object. -/
def members? : Json → Option (Table Json)
  | object members => some members
  | _ => none

end Json

end Stencil
