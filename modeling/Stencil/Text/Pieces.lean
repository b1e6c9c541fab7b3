/-!
# Parts of texts

A text is cut at a separator (`cutAt`), searched for another text (`occurs`), or brought to a
width. A cut keeps empty pieces.
-/

namespace Stencil

namespace Text

/-- Cuts at every occurrence of a separator of one character or more, from the left; `skip`
characters still belong to the separator found last. -/
def cutFrom (sep : List Char) : Nat → List Char → List (List Char)
  | _, [] => [[]]
  | skip + 1, _ :: cs => cutFrom sep skip cs
  | 0, c :: cs =>
    if sep.isPrefixOf (c :: cs) then [] :: cutFrom sep (sep.length - 1) cs
    else (cutFrom sep 0 cs).modifyHead (c :: ·)

/-- Cuts `cs` at every occurrence of `sep`. The empty separator stands before, between and after
all characters. -/
def cutAt (sep cs : List Char) : List (List Char) :=
  if sep.isEmpty then [] :: cs.map (fun c => [c]) ++ [[]] else cutFrom sep 0 cs

/-- Whether `needle` occurs in a text. -/
def occurs (needle : List Char) : List Char → Bool
  | [] => needle.isEmpty
  | c :: cs => needle.isPrefixOf (c :: cs) || occurs needle cs

/-- `s` with blanks in front, so that it has at least `width` characters. -/
def padLeft (width : Nat) (s : String) : String :=
  String.ofList (s.toList.leftpad width ' ')

/-- `s` with blanks after it, so that it has at least `width` characters. -/
def padRight (width : Nat) (s : String) : String :=
  String.ofList (s.toList.rightpad width ' ')

/-- A cut leaves at least one piece. -/
theorem cutFrom_ne_nil (sep : List Char) (skip : Nat) (cs : List Char) :
    cutFrom sep skip cs ≠ [] := by
  fun_induction cutFrom sep skip cs with
  | case1 => simp
  | case2 skip c cs ih => exact ih
  | case3 => simp
  | case4 c cs _ ih => simpa using ih

end Text

end Stencil
