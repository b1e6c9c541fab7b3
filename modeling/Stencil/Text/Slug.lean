import Stencil.Text.Alphanumeric
import Stencil.Text.Case
/-!
# Slugs

The lower-cased words of a text, a word being a run of letters and digits, with one hyphen
between any two.
-/

namespace Stencil

namespace Text

/-- The runs of letters and digits of a text. -/
def alphanumericRuns (cs : List Char) : List (List Char) :=
  (cs.splitOnP fun c => !isAlphanumeric c).filter fun w => !w.isEmpty

/-- The slug of a text. -/
def slug (cs : List Char) : List Char :=
  List.intercalate ['-'] (alphanumericRuns (lower cs))

end Text

end Stencil
