import Stencil.Render.Error
import Stencil.Scope
/-!
# Loops

The values that a loop gives to its names, turn by turn, and the record `loop` that tells a turn
where it stands. All turns are bound before the first one begins.
-/

namespace Stencil

namespace Loop

/-- The values that an element gives to the names. An array is dealt out, one item to each name;
anything else needs a single name. -/
def bindElement (names : List String) : Value → Except RenderError (List Value)
  | .array values =>
    if values.length = names.length then .ok values
    else .error (.loopArity names.length values.length)
  | v => if names.length = 1 then .ok [v] else .error (.loopArity names.length 1)

/-- The elements of an array, bound one after the other. -/
def bindAll (names : List String) : List Value → Except RenderError (List (List Value))
  | [] => .ok []
  | v :: vs => do
    let bound ← bindElement names v
    return bound :: (← bindAll names vs)

/-- The values of the names in every turn of a loop over `source`. An object gives two names its
keys and values; `null` gives no turn. -/
def bindings (names : List String) (source : Value) : Except RenderError (List (List Value)) :=
  match source with
  | .null => .ok []
  | .array items => bindAll names items
  | .object members =>
    if names.length = 2 then .ok (members.map fun m => [.string m.1, m.2])
    else .error (.objectLoopArity names.length)
  | v => .error (.notIterable v.kind)

/-- What a turn can ask about itself: `turn` counts from zero, `index` from one. -/
def record (turn total serial : Nat) : Value :=
  let index := turn + 1
  .object [("index", .ofNat index), ("even", .bool (index % 2 == 0)),
    ("odd", .bool (index % 2 != 0)), ("first", .bool (turn == 0)), ("last", .bool (index == total)),
    ("total", .ofNat total), ("cycle", .function (.cycle turn serial))]

/-- The scope of a turn, which is an opened one with the names and the record written to it. -/
def turnScope (s : Scope) (names : List String) (values : List Value) (record : Value) : Scope :=
  ((names.zip values).foldl (fun s e => s.assign e.1 e.2) s).assign "loop" record

end Loop

end Stencil
