import Stencil.Json.Reader
import Stencil.Json.Writer
import Stencil.Value.Basic
/-!
# Values and JSON

A value becomes JSON with its members in the order of the value (`json`) or of their keys
(`toJson`); functions and the numbers that JSON cannot hold become `null`. Every JSON value is a
value. `display` is the text that a template shows.
-/

namespace Stencil

namespace Value

/-- A number in JSON. -/
def numberJson : Number → Json
  | .int n => .number (.int n)
  | .float x => if x.isFinite then .number (.float x) else .null

mutual

/-- The value as JSON, members in their own order. -/
def json : Value → Json
  | null => .null
  | bool b => .bool b
  | number n => numberJson n
  | string s => .string s
  | array items => .array (jsonItems items)
  | object members => .object (jsonMembers members)
  | function _ => .null

def jsonItems : List Value → List Json
  | [] => []
  | v :: vs => json v :: jsonItems vs

def jsonMembers : List (String × Value) → List (String × Json)
  | [] => []
  | (k, v) :: ms => (k, json v) :: jsonMembers ms

end

/-- The value as JSON, members in the order of their keys. -/
def toJson (v : Value) : Json :=
  v.json.sorted

mutual

/-- A JSON value as a value. -/
def ofJson : Json → Value
  | .null => null
  | .bool b => bool b
  | .number n => number n
  | .string s => string s
  | .array items => array (ofJsonItems items)
  | .object members => object (ofJsonMembers members)

def ofJsonItems : List Json → List Value
  | [] => []
  | j :: js => ofJson j :: ofJsonItems js

def ofJsonMembers : List (String × Json) → List (String × Value)
  | [] => []
  | (k, j) :: ms => (k, ofJson j) :: ofJsonMembers ms

end

mutual

/-- The text that a value shows: nothing for `null`, the items of an array between commas, the
JSON of an object. -/
def display : Value → String
  | null => ""
  | bool b => if b then "true" else "false"
  | number n => n.display
  | string s => s
  | array items => ",".intercalate (displayItems items)
  | object members => (toJson (object members)).compact
  | function f => "[function " ++ f.name ++ "]"

def displayItems : List Value → List String
  | [] => []
  | v :: vs => display v :: displayItems vs

end

end Value

end Stencil
