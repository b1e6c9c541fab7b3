import Stencil.Json.Basic
/-!
# Trees of elements and texts

What a document shows of a node: elements with attributes and children, texts, and places where
there is no node. A tree is written as HTML, as its text alone, or as JSON.
-/

namespace Stencil

/-- An element, a text, or the place of a node that does not exist. -/
inductive Tree
  | element (tag : String) (className : Option String) (attributes : List (String × String))
    (children : List Tree)
  | text (content : String)
  | missing

namespace Tree

instance : Inhabited Tree := ⟨missing⟩

/-- Elements without an end tag, as long as they are empty. -/
def voidTags : List String :=
  ["meta", "link", "input", "br", "hr", "img", "source", "area", "base", "col", "embed", "track",
    "wbr"]

/-- One character of a text in HTML. -/
def escapedChar (c : Char) : List Char :=
  match c with
  | '&' => ['&', 'a', 'm', 'p', ';']
  | '<' => ['&', 'l', 't', ';']
  | '>' => ['&', 'g', 't', ';']
  | c => [c]

/-- One character of an attribute in HTML. -/
def escapedAttributeChar (c : Char) : List Char :=
  if c == '"' then ['&', 'q', 'u', 'o', 't', ';'] else escapedChar c

/-- A text in HTML. -/
def escaped (s : String) : String :=
  String.ofList (s.toList.flatMap escapedChar)

/-- The value of an attribute in HTML. -/
def escapedAttribute (s : String) : String :=
  String.ofList (s.toList.flatMap escapedAttributeChar)

/-- An attribute with the blank before it. -/
def attributeHtml (name value : String) : String :=
  " " ++ name ++ "=\"" ++ escapedAttribute value ++ "\""

/-- All attributes of an element, its class first. -/
def attributesHtml (className : Option String) (attributes : List (String × String)) : String :=
  (match className with
    | some c => attributeHtml "class" c
    | none => "") ++ String.join (attributes.map fun a => attributeHtml a.1 a.2)

mutual

/-- The tree in HTML. -/
def html : Tree → String
  | element tag className attributes children =>
    let opening := "<" ++ tag ++ attributesHtml className attributes
    if voidTags.contains tag && children.isEmpty then opening ++ " />"
    else opening ++ ">" ++ htmlAll children ++ "</" ++ tag ++ ">"
  | text content => escaped content
  | missing => ""

/-- Trees one after the other in HTML. -/
def htmlAll : List Tree → String
  | [] => ""
  | t :: ts => html t ++ htmlAll ts

end

mutual

/-- The texts of the tree one after the other. -/
def textContent : Tree → String
  | element _ _ _ children => textContentAll children
  | text content => content
  | missing => ""

def textContentAll : List Tree → String
  | [] => ""
  | t :: ts => textContent t ++ textContentAll ts

end

mutual

/-- The tree as JSON. -/
def json : Tree → Json
  | element tag className attributes children =>
    .object [("tag", .string tag),
      ("class", match className with
        | some c => .string c
        | none => .null),
      ("attributes", .object (attributes.map fun a => (a.1, .string a.2))),
      ("children", .array (jsonAll children))]
  | text content => .object [("text", .string content)]
  | missing => .null

def jsonAll : List Tree → List Json
  | [] => []
  | t :: ts => json t :: jsonAll ts

end

/-- The children of an element. -/
def children : Tree → List Tree
  | element _ _ _ children => children
  | _ => []

/-- The children in HTML, without the element around them. -/
def innerHtml (t : Tree) : String :=
  htmlAll t.children

end Tree

end Stencil
