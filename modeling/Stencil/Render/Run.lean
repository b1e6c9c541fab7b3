import Stencil.Render.Host
import Stencil.Scope
/-!
# The state of a rendering

A rendering reads and writes variables, and leaves behind the edits of the document it makes. It
never looks at the document; the position of the next node is all it knows of it. The state
outlives an error, so that what was written before can be seen.
-/

namespace Stencil

/-- What a rendering has done so far. -/
structure Run where
  scope : Scope
  /-- The edits, the latest one first. -/
  edits : List Edit
  /-- The position of the next node that is created. -/
  next : NodeId
  /-- How many turns of loops have begun; each turn gets its number as its serial number. -/
  turns : Nat

namespace Run

/-- The state at the start, with the given variables and next position. -/
def start (frame : Frame) (next : NodeId) : Run :=
  ⟨.ofFrame frame, [], next, 0⟩

/-- The state after one more edit. -/
def write (r : Run) (e : Edit) : Run :=
  { r with edits := e :: r.edits, next := r.next + e.created }

/-- The state after several edits. -/
def writeAll (r : Run) (edits : List Edit) : Run :=
  edits.foldl write r

end Run

/-- A part of a rendering. -/
abbrev Rendering := EStateM RenderError Run

namespace Rendering

variable {α : Type}

/-- Stops with an error. -/
def fail (e : RenderError) : Rendering α := fun r => .error e r

/-- A result that does not depend on the state. -/
def ofResult : Except RenderError α → Rendering α
  | .ok a => pure a
  | .error e => fail e

/-- Writes an edit. -/
def edit (e : Edit) : Rendering Unit := fun r => .ok () (r.write e)

/-- Writes the edit that creates a node, and gives its position. -/
def create (e : Edit) : Rendering NodeId := fun r => .ok r.next (r.write e)

/-- Makes changes of a node one after the other. -/
def change (node : NodeId) : List Change → Rendering Unit
  | [] => pure ()
  | c :: cs => do
    modify fun r => r.writeAll (c.edits node r.next)
    change node cs

/-- Adds a text to a node. -/
def addText (node : NodeId) (content : String) : Rendering Unit :=
  change node [.text content]

/-- Calls a function in a node: writes its edits, and comes to its answer. -/
def perform (node : NodeId) (f : HostFunction) (args : List Value) : Rendering Value := do
  let reply := f ⟨node, (← get).next⟩ args
  modify fun r => r.writeAll reply.edits
  ofResult reply.answer

/-- Changes the scope. -/
def modifyScope (f : Scope → Scope) : Rendering Unit :=
  modify fun r => { r with scope := f r.scope }

/-- Does something and then changes the scope, also after an error. -/
def thenScope (body : Rendering α) (leave : Scope → Scope) : Rendering α := fun r =>
  match body r with
  | .ok a r => .ok a { r with scope := leave r.scope }
  | .error e r => .error e { r with scope := leave r.scope }

/-- Does something in a frame of its own. -/
def inFrame (body : Rendering α) : Rendering α := do
  modifyScope Scope.opened
  thenScope body Scope.closed

/-- Does something in another scope, and comes back to the one from before. -/
def inScope (s : Scope) (body : Rendering α) : Rendering α := do
  let outer := (← get).scope
  modifyScope fun _ => s
  thenScope body fun _ => outer

end Rendering

end Stencil
