import Stencil.Template.Grammar
import Stencil.Template.Operation
import Stencil.Template.Statement
/-!
# The standard grammar

The binding powers and rules of the template language, from the assignment of attributes, which
binds least, to brackets, paths and filters, which bind most.
-/

namespace Stencil

namespace Grammar

/-- A word with a power and rules to register. -/
structure Registration where
  text : String
  power : Nat
  prefixRule : Option PrefixRule
  infixRule : Option InfixRule

/-- The grammar with a word registered. -/
def add (g : Grammar) (r : Registration) : Grammar :=
  g.register r.text r.power r.prefixRule r.infixRule

/-- The words of the standard grammar that have a symbol. -/
def standardRegistrations : List Registration :=
  [⟨"+", 50, none, none⟩, ⟨"-", 50, none, none⟩, ⟨"*", 60, none, none⟩, ⟨"/", 60, none, none⟩,
    ⟨"==", 40, none, none⟩, ⟨"!=", 40, none, none⟩, ⟨"<", 40, none, none⟩,
    ⟨"<=", 40, none, none⟩, ⟨">", 40, none, none⟩, ⟨">=", 40, none, none⟩,
    ⟨"and", 30, none, some Operation.logical⟩, ⟨"or", 30, none, some Operation.logical⟩,
    ⟨"in", 80, none, some Operation.membership⟩, ⟨"not", 80, some Operation.negation, none⟩,
    ⟨"?", 20, none, some Operation.conditional⟩, ⟨"=", 10, none, some Operation.attributePair⟩,
    ⟨"(", 80, some Operation.group, some Operation.call⟩,
    ⟨"[", 80, some Operation.array, some Operation.index⟩,
    ⟨"\x7b", 80, some Operation.object, none⟩,
    ⟨".", 80, none, some Operation.path⟩, ⟨"|", 80, none, some Operation.filtered⟩,
    ⟨"#", 0, some Statement.comment, none⟩,
    ⟨"if", 0, some Statement.choice, none⟩, ⟨"else", 0, some Statement.branch, none⟩,
    ⟨"for", 0, some Statement.loop, none⟩, ⟨"render", 0, some Statement.render, none⟩,
    ⟨"set", 0, some Statement.assignment, none⟩, ⟨"elem", 0, some Statement.element, none⟩,
    ⟨"elex", 0, some Statement.elementText, none⟩]

/-- The standard vocabulary with the standard rules. -/
def standard : Grammar :=
  standardRegistrations.foldl add (ofVocabulary .standard)

end Grammar

end Stencil
