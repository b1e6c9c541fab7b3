import Stencil.Render.Error
import Stencil.Template.Node
import Stencil.Value.Json
/-!
# Operators

What the operators between two operands do with values. Both operands have been evaluated before,
also those of `and` and `or`.
-/

namespace Stencil

namespace BinaryOp

/-- The order of two texts or of two numbers. -/
def order? : Value → Value → Option Ordering
  | .string a, .string b => some (compare a b)
  | .number a, .number b => a.compare? b
  | _, _ => none

/-- Whether a comparison holds of operands in a given order. -/
def holds : BinaryOp → Ordering → Bool
  | lt, o => o == .lt
  | le, o => o != .gt
  | gt, o => o == .gt
  | ge, o => o != .lt
  | _, _ => false

/-- The operator is not made for these operands. -/
def mismatch (op : BinaryOp) (a b : Value) : RenderError :=
  .typeMismatch op.symbol a.kind b.kind

/-- A comparison of two values. -/
def compared (op : BinaryOp) (a b : Value) : Except RenderError Value :=
  match order? a b with
  | some o => .ok (.bool (op.holds o))
  | none => .error (op.mismatch a b)

/-- An operation on two numbers. -/
def calculated (op : BinaryOp) (f : Number → Number → Option Number) (a b : Value) :
    Except RenderError Value :=
  match a, b with
  | .number m, .number n =>
    match f m n with
    | some r => .ok (.number r)
    | none => .error .divisionByZero
  | _, _ => .error (op.mismatch a b)

/-- The sum of numbers; texts are put together with the text of the other value, arrays with
arrays. -/
def added (a b : Value) : Except RenderError Value :=
  match a, b with
  | .string _, _ => .ok (.string (a.display ++ b.display))
  | _, .string _ => .ok (.string (a.display ++ b.display))
  | .array xs, .array ys => .ok (.array (xs ++ ys))
  | _, _ => add.calculated (fun m n => some (m.add n)) a b

/-- The value of an operator. `and` gives a truth value, `or` one of its operands. -/
def apply (op : BinaryOp) (a b : Value) : Except RenderError Value :=
  match op with
  | and => .ok (.bool (a.truthy && b.truthy))
  | or => .ok (if a.truthy then a else b)
  | eq => .ok (.bool (a.equal b))
  | ne => .ok (.bool (!a.equal b))
  | lt | le | gt | ge => op.compared a b
  | add => added a b
  | sub => op.calculated (fun m n => some (m.sub n)) a b
  | mul => op.calculated (fun m n => some (m.mul n)) a b
  | div => op.calculated Number.div? a b

end BinaryOp

end Stencil
