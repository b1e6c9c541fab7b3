import Stencil.Render.Host
import Stencil.Template.Node
/-!
# Attributes and lines

How the pieces of a line are put together, and what a value does as an attribute of an element.
-/

namespace Stencil

/-- The pieces that attributes put right behind the piece before. -/
def closesUp : List String := ["-", "_", ":", ";", "."]

/-- The pieces that attributes follow up without a blank. -/
def opensUp : List String := ["-", "_", ".", ":", "#"]

/-- Whether a blank stands between two pieces. Content has one everywhere, an attribute not around
the marks that join names. -/
def OutputMode.spaced (mode : OutputMode) (before after : String) : Bool :=
  match mode with
  | .content => true
  | .attribute => !opensUp.contains before && !closesUp.contains after

/-- The pieces of a line put together. -/
def OutputMode.join (mode : OutputMode) : List String → String
  | [] => ""
  | [p] => p
  | p :: q :: ps => p ++ (if mode.spaced p q then " " else "") ++ mode.join (q :: ps)

/-- The class that a value stands for: the texts in an array, the keys of the members that are
true, or the words of a text. -/
def Value.classText : Value → String
  | .array items =>
    " ".intercalate (((Value.flatten items).map Value.display).filter fun s => !s.isEmpty)
  | .object members => " ".intercalate ((members.filter fun m => m.2.truthy).map Prod.fst)
  | v => " ".intercalate (Text.fields v.display " ")

/-- What an attribute changes. The members of an object become data attributes of their own. -/
def attributeChanges (name : String) (value : Value) : List Change :=
  if name = "class" then [.className value.classText]
  else match name, value with
    | "data", .object members =>
      members.map fun m => .attribute ("data-" ++ m.1) m.2.display
    | _, _ => [.attribute name value.display]

end Stencil
