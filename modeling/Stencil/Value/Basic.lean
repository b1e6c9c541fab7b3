import Stencil.Number.Basic
import Stencil.Table
/-!
# Values

What templates compute with: JSON-like data and functions. A function is known by its name and
origin, so that two functions are equal only if they are the same one; what it does is decided
where it is called.
-/

namespace Stencil

/-- A function that a template can call. -/
inductive Callable
  /-- The `cycle` of a loop, in the turn that counts `turn` from zero. No two turns have the same
  serial number. -/
  | cycle (turn serial : Nat)
  /-- The built-in element modifier. -/
  | click
  /-- A function of the host program. -/
  | host (name : String)
  deriving DecidableEq

/-- The name under which a function is shown. -/
def Callable.name : Callable → String
  | cycle _ _ => "cycle"
  | click => "click"
  | host name => name

/-- A value of the template language. -/
inductive Value
  | null
  | bool (b : Bool)
  | number (n : Number)
  | string (s : String)
  | array (items : List Value)
  | object (members : List (String × Value))
  | function (f : Callable)

/-- The kinds of values that error messages tell apart. -/
inductive Kind
  | null
  | bool
  | number
  | string
  | array
  | object
  | function
  deriving DecidableEq

/-- The word for a kind. -/
def Kind.name : Kind → String
  | null => "null"
  | bool => "bool"
  | number => "number"
  | string => "string"
  | array => "array"
  | object => "object"
  | function => "function"

namespace Value

instance : Inhabited Value := ⟨null⟩

/-- The kind of a value. -/
def kind : Value → Kind
  | null => .null
  | bool _ => .bool
  | number _ => .number
  | string _ => .string
  | array _ => .array
  | object _ => .object
  | function _ => .function

/-- The integer `n` as a value, for counts and positions. -/
def ofNat (n : Nat) : Value :=
  number (.int (Int64.ofNat n))

/-- The number that a value is. -/
def number? : Value → Option Number
  | number n => some n
  | _ => none

/-- The text that a value is. -/
def string? : Value → Option String
  | string s => some s
  | _ => none

/-- The items of an array. -/
def items? : Value → Option (List Value)
  | array items => some items
  | _ => none

/-- The members of an object. -/
def members? : Value → Option (Table Value)
  | object members => some members
  | _ => none

/-! ## Truth -/

mutual

/-- Numbers are true above zero, texts and arrays if they are not empty, objects if one of their
members is true. -/
def truthy : Value → Bool
  | null => false
  | bool b => b
  | number n => n.isPositive
  | string s => !s.isEmpty
  | array items => !items.isEmpty
  | object members => anyTruthy members
  | function _ => true

def anyTruthy : List (String × Value) → Bool
  | [] => false
  | (_, v) :: ms => truthy v || anyTruthy ms

end

/-! ## Equality -/

mutual

/-- Numbers are compared as numbers, arrays item by item, objects without regard to the order of
their members, functions by identity. Values of different kinds differ. -/
def equal : Value → Value → Bool
  | null, null => true
  | bool a, bool b => a == b
  | number a, number b => a.equal b
  | string a, string b => a == b
  | array as, array bs => equalItems as bs
  | object as, object bs => as.length == bs.length && equalMembers as bs
  | function a, function b => a == b
  | _, _ => false

def equalItems : List Value → List Value → Bool
  | [], [] => true
  | a :: as, b :: bs => equal a b && equalItems as bs
  | _, _ => false

/-- Whether every member on the left has an equal one under the same key on the right. -/
def equalMembers : List (String × Value) → List (String × Value) → Bool
  | [], _ => true
  | (k, a) :: as, bs =>
    (match Table.get? bs k with
      | some b => equal a b
      | none => false) && equalMembers as bs

end

/-! ## Arrays in arrays -/

/-- The items with every array among them replaced by its own items, one level deep. -/
def flatten : List Value → List Value
  | [] => []
  | array items :: vs => items ++ flatten vs
  | v :: vs => v :: flatten vs

end Value

end Stencil
