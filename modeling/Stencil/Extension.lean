import Stencil.Value.Basic
/-!
# Extensions

A host can put functions behind names of the language. They are registered under a category and
an identifier, and the reader of templates asks for them: for instance for the modifiers of
elements.
-/

namespace Stencil

/-- Functions under categories and identifiers, each pair at most once. -/
abbrev Extensions := List ((String × String) × Callable)

namespace Extensions

/-- The category of the names behind the tag of an element. -/
def elementModifier : String := "element.modifier"

/-- The function under a category and an identifier. -/
def find? : Extensions → String → String → Option Callable
  | [], _, _ => none
  | (key, f) :: es, category, identifier =>
    if key = (category, identifier) then some f else find? es category identifier

/-- Registers a function, in place of the one that was there. -/
def register : Extensions → String → String → Callable → Extensions
  | [], category, identifier, f => [((category, identifier), f)]
  | (key, g) :: es, category, identifier, f =>
    if key = (category, identifier) then (key, f) :: es
    else (key, g) :: register es category identifier f

/-- Registers a modifier of elements. -/
def modifier (es : Extensions) (identifier : String) (f : Callable) : Extensions :=
  es.register elementModifier identifier f

/-- The registered modifier of elements with a name. -/
def modifier? (es : Extensions) (identifier : String) : Option Callable :=
  es.find? elementModifier identifier

/-- The extensions of the language itself. -/
def standard : Extensions :=
  modifier [] "click" .click

theorem find?_register_self (es : Extensions) (category identifier : String) (f : Callable) :
    find? (es.register category identifier f) category identifier = some f := by
  induction es with
  | nil => simp [register, find?]
  | cons e es ih =>
    obtain ⟨key, g⟩ := e
    by_cases h : key = (category, identifier) <;> simp [register, find?, h, ih]

end Extensions

end Stencil
