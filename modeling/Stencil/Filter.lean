import Stencil.Text.Slug
import Stencil.Value.Collection
/-!
# Filters

A filter makes a value from another or fails. The standard filters work on the text that a value
shows, or on the items of an array and the characters of a text alike.
-/

namespace Stencil

/-- What a name after a bar does with the value before it. -/
abbrev Filter := Value → Except RenderError Value

namespace Filter

/-- The filter that changes the text a value shows. -/
def ofText (f : List Char → List Char) : Filter := fun v =>
  .ok (.string (String.ofList (f v.display.toList)))

/-- The text of one character. -/
def charValue (c : Char) : Value :=
  .string (String.ofList [c])

/-- How many characters `truncate` keeps. -/
def truncateLength : Nat := 160

/-- A long text cut down, with an ellipsis in place of the rest. -/
def truncated (cs : List Char) : List Char :=
  if cs.length ≤ truncateLength then cs else cs.take truncateLength ++ ['…']

/-- The number of characters, items or members; `null` has none. -/
def length : Filter
  | .null => .ok (.ofNat 0)
  | .string s => .ok (.ofNat s.toList.length)
  | .array items => .ok (.ofNat items.length)
  | .object members => .ok (.ofNat members.length)
  | v => .error (.function "length" (v.kind.name ++ " 类型没有长度"))

/-- The first item or character; `null` if there is none. -/
def first : Filter
  | .array items => .ok (items.headD .null)
  | .string s => .ok ((s.toList.head?.map charValue).getD .null)
  | _ => .ok .null

/-- The last item or character; `null` if there is none. -/
def last : Filter
  | .array items => .ok (items.getLastD .null)
  | .string s => .ok ((s.toList.getLast?.map charValue).getD .null)
  | _ => .ok .null

/-- The items or characters backwards; any other value stays as it is. -/
def reversed : Filter
  | .array items => .ok (.array items.reverse)
  | .string s => .ok (.string (String.ofList s.toList.reverse))
  | v => .ok v

/-- The value in JSON, its members in their own order. -/
def json : Filter := fun v =>
  .ok (.string v.json.compact)

/-- The filters that every engine can have. -/
def standard : Table Filter :=
  [("upper", ofText Text.upper), ("lower", ofText Text.lower),
    ("capitalize", ofText Text.capitalize), ("trim", ofText Text.trim),
    ("slugify", ofText Text.slug), ("truncate", ofText truncated), ("length", length),
    ("first", first), ("last", last), ("reverse", reversed), ("json", json)]

end Filter

end Stencil
