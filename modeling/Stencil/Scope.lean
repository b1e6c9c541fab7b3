import Stencil.Render.Error
/-!
# Scopes

A scope is a stack of frames. Opening copies the frame on top, so that everything outside can be
seen inside; only the frame on top is read and written, so that nothing written inside is seen
outside.
-/

namespace Stencil

/-- Variables with their values. -/
abbrev Frame := Table Value

/-- A stack of frames, the one in use first. -/
structure Scope where
  frames : List Frame

namespace Scope

/-- The scope with one frame. -/
def ofFrame (f : Frame) : Scope := ⟨[f]⟩

/-- The frame in use; empty if there is none. -/
def top (s : Scope) : Frame :=
  s.frames.headD []

/-- The value of a variable. -/
def get? (s : Scope) (name : String) : Option Value :=
  Table.get? s.top name

/-- Writes a variable, in a new frame if there is none. -/
def assign (s : Scope) (name : String) (value : Value) : Scope :=
  ⟨Table.insert s.top name value :: s.frames.tail⟩

/-- Puts a copy of the frame in use on top. -/
def opened (s : Scope) : Scope :=
  ⟨s.top :: s.frames⟩

/-- Takes the frame in use away. -/
def closed (s : Scope) : Scope :=
  ⟨s.frames.tail⟩

/-- The value of a variable. If it has none, the default becomes its value. -/
def find (s : Scope) (name : String) (default : Option Value) :
    Except RenderError (Value × Scope) :=
  match s.get? name, default with
  | some v, _ => .ok (v, s)
  | none, some v => .ok (v, s.assign name v)
  | none, none => .error (.undefinedVariable name)

@[simp] theorem top_opened (s : Scope) : s.opened.top = s.top := rfl

@[simp] theorem closed_opened (s : Scope) : s.opened.closed = s := rfl

@[simp] theorem closed_assign_opened (s : Scope) (name : String) (value : Value) :
    (s.opened.assign name value).closed = s := rfl

end Scope

end Stencil
