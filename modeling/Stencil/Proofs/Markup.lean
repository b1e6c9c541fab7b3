import Stencil.Proofs.Forest
/-!
# Markup

How a tree stands in its HTML, character by character. A text is escaped so that it contains no
`<`, the value of an attribute so that it contains no quotation mark either. The marks that are
left are those of the tags, and those in the names of tags and attributes, which stand there as
they are.
-/

namespace Stencil

namespace Tree

/-! ## Escaped characters -/

/-- The mark that opens a tag is escaped in texts. -/
theorem not_mem_escapedChar (c : Char) : '<' ∉ escapedChar c := by
  unfold escapedChar
  split
  iterate 3 decide
  next hlt _ => exact fun hmem => hlt (List.mem_singleton.1 hmem).symm

/-- In attributes the quotation mark is escaped as well. -/
theorem not_mem_escapedAttributeChar (c : Char) :
    '<' ∉ escapedAttributeChar c ∧ '"' ∉ escapedAttributeChar c := by
  unfold escapedAttributeChar
  split
  · decide
  · next hquote =>
    refine ⟨not_mem_escapedChar c, ?_⟩
    unfold escapedChar
    split
    iterate 3 decide
    exact fun hmem => hquote (beq_iff_eq.2 (List.mem_singleton.1 hmem).symm)

/-- Escaping goes character by character. -/
theorem toList_escaped (s : String) : (escaped s).toList = s.toList.flatMap escapedChar :=
  String.toList_ofList

theorem toList_escapedAttribute (s : String) :
    (escapedAttribute s).toList = s.toList.flatMap escapedAttributeChar :=
  String.toList_ofList

theorem not_mem_escaped (s : String) : '<' ∉ (escaped s).toList := by
  rw [toList_escaped, List.mem_flatMap]
  rintro ⟨c, -, hmem⟩
  exact not_mem_escapedChar c hmem

/-- No value of an attribute opens a tag or ends itself. -/
theorem not_mem_escapedAttribute (s : String) :
    '<' ∉ (escapedAttribute s).toList ∧ '"' ∉ (escapedAttribute s).toList := by
  rw [toList_escapedAttribute]
  simp only [List.mem_flatMap, not_exists, not_and]
  exact ⟨fun c _ => (not_mem_escapedAttributeChar c).1,
    fun c _ => (not_mem_escapedAttributeChar c).2⟩

/-- A text with another text in place of each `c`. -/
def replaced (c : Char) (other : String) (s : List Char) : List Char :=
  s.flatMap fun x => if x = c then other.toList else [x]

theorem replaced_append (c : Char) (other : String) (s t : List Char) :
    replaced c other (s ++ t) = replaced c other s ++ replaced c other t :=
  List.flatMap_append

/-- Texts are escaped as if the marks were replaced one after the other, the ampersand first. -/
theorem escaped_eq_replaced (s : String) : (escaped s).toList =
    replaced '>' "&gt;" (replaced '<' "&lt;" (replaced '&' "&amp;" s.toList)) := by
  rw [toList_escaped]
  induction s.toList with
  | nil => rfl
  | cons c cs ih =>
    rw [← List.singleton_append, replaced_append, replaced_append, replaced_append, ← ih,
      List.flatMap_append, List.flatMap_singleton]
    congr 1
    unfold escapedChar
    split
    iterate 3 decide
    simp_all [replaced]

/-- In values of attributes the quotation mark is replaced last. -/
theorem escapedAttribute_eq_replaced (s : String) :
    (escapedAttribute s).toList = replaced '"' "&quot;" (escaped s).toList := by
  rw [toList_escapedAttribute, toList_escaped]
  induction s.toList with
  | nil => rfl
  | cons c cs ih =>
    rw [List.flatMap_cons, List.flatMap_cons, replaced_append, ← ih]
    congr 1
    unfold escapedAttributeChar
    split
    · next hquote =>
      rw [beq_iff_eq.1 hquote]
      decide
    · unfold escapedChar
      split
      iterate 3 decide
      simp_all [replaced]

/-! ## Tags -/

/-- The class of an element among its attributes, which it leads. -/
def allAttributes (className : Option String) (attributes : List (String × String)) :
    List (String × String) :=
  (className.map ("class", ·)).toList ++ attributes

/-- What follows the attributes of an element: the end of its start tag, its children and its end
tag. -/
def afterAttributes (tag : String) (children : List Tree) : List Char :=
  if voidTags.contains tag && children.isEmpty then [' ', '/', '>']
  else '>' :: ((htmlAll children).toList ++ '<' :: '/' :: (tag.toList ++ ['>']))

/-- An attribute is a blank, its name as it is, and its escaped value between quotation marks. -/
theorem toList_attributeHtml (name value : String) :
    (attributeHtml name value).toList =
      ' ' :: (name.toList ++ '=' :: '"' :: ((escapedAttribute value).toList ++ ['"'])) := by
  simp [attributeHtml]

/-- The class stands before the other attributes, and is written like them. -/
theorem toList_attributesHtml (className : Option String) (attributes : List (String × String)) :
    (attributesHtml className attributes).toList =
      (allAttributes className attributes).flatMap fun a => (attributeHtml a.1 a.2).toList := by
  cases className <;> simp [attributesHtml, allAttributes, String.toList_join, List.flatMap_map]

/-- An element is its tag and attributes, with what comes behind these. -/
theorem toList_html (tag : String) (className : Option String)
    (attributes : List (String × String)) (children : List Tree) :
    (html (.element tag className attributes children)).toList =
      '<' :: (tag.toList ++ ((attributesHtml className attributes).toList ++
        afterAttributes tag children)) := by
  rw [html, afterAttributes]
  split <;> simp

theorem toList_htmlAll_cons (t : Tree) (ts : List Tree) :
    (htmlAll (t :: ts)).toList = (html t).toList ++ (htmlAll ts).toList := by
  rw [htmlAll, String.toList_append]

/-! ## Names in trees -/

/-- A tree of elements whose tags are of one kind and whose attributes have names of another, and
of texts. -/
inductive Named (tag name : String → Prop) : Tree → Prop
  | element {t : String} (className : Option String) {attributes : List (String × String)}
    {children : List Tree} : tag t → (∀ a ∈ attributes, name a.1) →
    (∀ c ∈ children, Named tag name c) → Named tag name (.element t className attributes children)
  | text (content : String) : Named tag name (.text content)

end Tree

namespace Document

variable {d : Document} {tag name : String → Prop}

/-- The names in a tree are those of the nodes that can be reached from its root. -/
theorem named_tree (h : d.WellFormed) {id : Nat} (hid : id < d.size)
    (hnames : ∀ path x el, d.Path id path x → d.element? x = some el →
      tag el.tag ∧ ∀ a ∈ el.attributes, name a.1) : (d.tree id).Named tag name := by
  induction id using h.wellFounded.induction with
  | h id ih =>
    rw [tree_eq h]
    cases hget : d.get? id with
    | none => exact absurd hid (Nat.not_lt.2 (Array.getElem?_eq_none_iff.1 hget))
    | some node =>
      cases node with
      | text content => exact .text content
      | element el =>
        have hel : d.element? id = some el := by rw [element?, hget]
        obtain ⟨htag, hattributes⟩ := hnames [] id el .stay hel
        refine .element el.className htag hattributes fun t ht => ?_
        obtain ⟨x, hx, rfl⟩ := List.mem_map.1 ht
        have hchild : x ∈ d.children id := by rw [children_of_element? hel]; exact hx
        refine ih x hchild (h.behind id x hchild).2 fun path y el hpath => ?_
        exact hnames (path ++ [x]) y el ((Path.stay.down hchild).trans hpath)

end Document

end Stencil
