import Stencil.Text.AlphanumericTable
import Stencil.Text.Ranges
/-!
# Letters and digits

ASCII is decided by comparison, everything beyond it by the table.
-/

namespace Stencil

namespace Text

/-- Whether `c` is a letter or a digit of any script. -/
def isAlphanumeric (c : Char) : Bool :=
  if c.toNat < 0x80 then c.isAlphanum else inRanges alphanumericRanges c

end Text

end Stencil
