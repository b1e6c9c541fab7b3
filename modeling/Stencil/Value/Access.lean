import Stencil.Number.Numeral
import Stencil.Value.Collection
/-!
# Access to parts of values

Parts are reached by a path, whose segments all have to exist, or by a computed key, which may
lead nowhere.
-/

namespace Stencil

namespace Value

/-- The part of an object or an array under one segment of a path. -/
def part? : Value → String → Option Value
  | object members, segment => Table.get? members segment
  | array items, segment => (Number.natural? segment.toList).bind fun i => items[i]?
  | _, _ => none

/-- The value at the end of a path; `trail` is how the path up to `v` is told in errors. -/
def follow (trail : String) (v : Value) : List String → Except RenderError Value
  | [] => .ok v
  | segment :: segments =>
    match v with
    | object _ | array _ =>
      let further := trail ++ "." ++ segment
      match v.part? segment with
      | some w => follow further w segments
      | none => .error (.undefinedVariable further)
    | null => .error (.undefinedVariable trail)
    | other => .error (.notIndexable other.kind)

/-- The position in an array that a key stands for: a whole number or the text of one. -/
def position? : Value → Option Int
  | number n => n.whole?
  | string s => (Number.integer? (Text.trim s.toList)).map Int64.toInt
  | _ => none

/-- The item at a position; `null` outside the array. -/
def itemAt (items : List Value) (position : Int) : Value :=
  if 0 ≤ position then items[position.toNat]?.getD null else null

/-- The part of an array or an object under a computed key; `null` if there is none. -/
def atKey (v key : Value) : Except RenderError Value :=
  match v with
  | array items =>
    match key.position? with
    | some i => .ok (itemAt items i)
    | none => .error (.nonNumericIndex key.display)
  | object members => .ok ((Table.get? members key.display).getD null)
  | other => .error (.notIndexable other.kind)

end Value

end Stencil
