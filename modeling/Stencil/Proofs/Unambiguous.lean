import Mathlib.Data.List.Chain
import Stencil.Proofs.Growth
import Stencil.Proofs.Markup
/-!
# Reading HTML back

HTML tells of which tree it is. A run of characters ends where the first mark stands that it cannot
contain: a text at a `<`, a tag at a blank or at `>`, the name of an attribute at `=`, its value at
a quotation mark. So two trees with the same HTML have the same parts one after the other. What
cannot be told is only where one text ends and the next one begins, and whether a text is there
that is empty.
-/

namespace Stencil

/-! ## Runs of characters -/

section Runs

variable {α β : Type}

/-- A run ends at the first mark that it cannot contain. -/
theorem append_inj_of_stop {p : α → Prop} {l l' s s' : List α} (hl : ∀ a ∈ l, p a)
    (hl' : ∀ a ∈ l', p a) (hs : ∀ a ∈ s.head?, ¬ p a) (hs' : ∀ a ∈ s'.head?, ¬ p a)
    (h : l ++ s = l' ++ s') : l = l' ∧ s = s' := by
  induction l generalizing l' with
  | nil =>
    cases l' with
    | nil => exact ⟨rfl, h⟩
    | cons a l' =>
      rw [List.nil_append] at h
      subst h
      exact absurd (hl' a List.mem_cons_self) (hs a rfl)
  | cons a l ih =>
    cases l' with
    | nil =>
      rw [List.nil_append] at h
      subst h
      exact absurd (hl a List.mem_cons_self) (hs' a rfl)
    | cons b l' =>
      obtain ⟨rfl, htail⟩ := List.cons.inj h
      obtain ⟨rfl, rfl⟩ := ih (fun x hx => hl x (List.mem_cons_of_mem a hx))
        (fun x hx => hl' x (List.mem_cons_of_mem a hx)) htail
      exact ⟨rfl, rfl⟩

/-- A code loses nothing if no code word begins with another one. -/
theorem flatMap_injective_of_prefixFree {f : α → List β} (hne : ∀ a, f a ≠ [])
    (hf : ∀ a b, f a <+: f b → a = b) {xs ys : List α} (h : xs.flatMap f = ys.flatMap f) :
    xs = ys := by
  induction xs generalizing ys with
  | nil =>
    cases ys with
    | nil => rfl
    | cons y ys => exact absurd (List.append_eq_nil_iff.1 h.symm).1 (hne y)
  | cons x xs ih =>
    cases ys with
    | nil => exact absurd (List.append_eq_nil_iff.1 h).1 (hne x)
    | cons y ys =>
      rw [List.flatMap_cons, List.flatMap_cons] at h
      have hx : f x <+: f y ++ ys.flatMap f := h ▸ List.prefix_append _ _
      obtain rfl : x = y :=
        (List.prefix_or_prefix_of_prefix hx (List.prefix_append _ _)).elim (hf x y)
          fun hyx => (hf y x hyx).symm
      rw [ih (List.append_cancel_left h)]

end Runs

namespace Tree

/-- No escaped character begins with another one: an `&` that stands for itself is escaped. -/
theorem escapedChar_prefixFree {c c' : Char} (h : escapedChar c <+: escapedChar c') : c = c' := by
  unfold escapedChar at h
  split at h <;> grind

/-- The same in attributes, where the quotation mark is escaped too. -/
theorem escapedAttributeChar_prefixFree {c c' : Char}
    (h : escapedAttributeChar c <+: escapedAttributeChar c') : c = c' := by
  unfold escapedAttributeChar escapedChar at h
  split at h <;> split at h <;> grind

/-- So a text can be read back from its escaped characters. -/
theorem escaped_inj {s s' : String} (h : (escaped s).toList = (escaped s').toList) : s = s' := by
  rw [toList_escaped, toList_escaped] at h
  refine String.toList_inj.1 (flatMap_injective_of_prefixFree (fun c => ?_) (fun _ _ => ?_) h)
  · unfold escapedChar
    split <;> exact List.cons_ne_nil _ _
  · exact escapedChar_prefixFree

theorem escapedAttribute_inj {s s' : String}
    (h : (escapedAttribute s).toList = (escapedAttribute s').toList) : s = s' := by
  rw [toList_escapedAttribute, toList_escapedAttribute] at h
  refine String.toList_inj.1 (flatMap_injective_of_prefixFree (fun c => ?_) (fun _ _ => ?_) h)
  · unfold escapedAttributeChar escapedChar
    split
    · exact List.cons_ne_nil _ _
    · split <;> exact List.cons_ne_nil _ _
  · exact escapedAttributeChar_prefixFree

/-! ## Start tags -/

/-- A name that stands out in markup: it is not empty, and contains neither a blank nor a mark. -/
def Plain (name : String) : Prop :=
  name ≠ "" ∧ ∀ c ∈ name.toList, c ∉ [' ', '<', '>', '/', '=', '&', '"']

-- the characters of the name are gone through, not all characters there are
instance (name : String) : Decidable (Plain name) :=
  @instDecidableAnd _ _ inferInstance (List.decidableBAll _ _)

/-- A plain name has a first character, which is none of the marks. -/
theorem Plain.exists_cons {name : String} (h : Plain name) :
    ∃ c cs, name.toList = c :: cs ∧ c ∉ [' ', '<', '>', '/', '=', '&', '"'] := by
  cases hname : name.toList with
  | nil => exact absurd (String.toList_eq_nil_iff.1 hname) h.1
  | cons c cs => exact ⟨c, cs, rfl, h.2 c (hname ▸ List.mem_cons_self)⟩

/-- How a start tag goes on when there are no more attributes. -/
def EndsTag (rest : List Char) : Prop :=
  ∃ r, rest = '>' :: r ∨ rest = ' ' :: '/' :: r

/-- Behind the attributes comes the end of the tag, whether the element is void or not. -/
theorem endsTag_afterAttributes (tag : String) (children : List Tree) (rest : List Char) :
    EndsTag (afterAttributes tag children ++ rest) := by
  unfold afterAttributes
  split
  · exact ⟨_, .inr rfl⟩
  · exact ⟨_, .inl rfl⟩

/-- An attribute cannot be taken for the end of a tag. -/
theorem EndsTag.ne_attribute {rest : List Char} (h : EndsTag rest) {name : String}
    (hname : Plain name) (value : String) (r : List Char) :
    rest ≠ (attributeHtml name value).toList ++ r := by
  obtain ⟨c, cs, hcons, hc⟩ := hname.exists_cons
  rw [toList_attributeHtml, hcons]
  obtain ⟨r', rfl | rfl⟩ := h
  · simp
  · rintro heq
    obtain ⟨rfl, -⟩ := List.cons.inj (List.cons.inj heq).2
    simp at hc

/-- The name of an attribute ends at the first `=`, and its value at the first quotation mark. -/
theorem attribute_inj {name name' value value' : String} (h : Plain name) (h' : Plain name')
    {r r' : List Char} (heq : (attributeHtml name value).toList ++ r =
      (attributeHtml name' value').toList ++ r') : name = name' ∧ value = value' ∧ r = r' := by
  have hstop : ∀ {name}, Plain name → ∀ c ∈ name.toList, c ≠ '=' := by
    rintro name hname c hc rfl
    simpa using hname.2 _ hc
  have hquote : ∀ value, ∀ c ∈ (escapedAttribute value).toList, c ≠ '"' := by
    rintro value c hc rfl
    exact (not_mem_escapedAttribute value).2 hc
  simp only [toList_attributeHtml, List.cons_append, List.append_assoc, List.cons.injEq,
    true_and, List.nil_append] at heq
  obtain ⟨hname, hvalue⟩ := append_inj_of_stop (hstop h) (hstop h') (by simp) (by simp) heq
  simp only [List.cons.injEq, true_and] at hvalue
  obtain ⟨hvalue, hrest⟩ :=
    append_inj_of_stop (hquote value) (hquote value') (by simp) (by simp) hvalue
  exact ⟨String.toList_inj.1 hname, escapedAttribute_inj hvalue, (List.cons.inj hrest).2⟩

/-- Attributes are told apart from the end of the tag by the blank and the name behind it. The
induction is on the attributes of one side. -/
theorem attributes_inj {as as' : List (String × String)} (h : ∀ a ∈ as, Plain a.1)
    (h' : ∀ a ∈ as', Plain a.1) {rest rest' : List Char} (hrest : EndsTag rest)
    (hrest' : EndsTag rest')
    (heq : (as.flatMap fun a => (attributeHtml a.1 a.2).toList) ++ rest =
      (as'.flatMap fun a => (attributeHtml a.1 a.2).toList) ++ rest') :
    as = as' ∧ rest = rest' := by
  induction as generalizing as' with
  | nil =>
    cases as' with
    | nil => exact ⟨rfl, heq⟩
    | cons a' as' =>
      rw [List.flatMap_cons, List.append_assoc] at heq
      exact absurd heq (hrest.ne_attribute (h' a' List.mem_cons_self) _ _)
  | cons a as ih =>
    cases as' with
    | nil =>
      rw [List.flatMap_cons, List.append_assoc] at heq
      exact absurd heq.symm (hrest'.ne_attribute (h a List.mem_cons_self) _ _)
    | cons a' as' =>
      rw [List.flatMap_cons, List.flatMap_cons, List.append_assoc, List.append_assoc] at heq
      obtain ⟨hname, hvalue, htail⟩ :=
        attribute_inj (h a List.mem_cons_self) (h' a' List.mem_cons_self) heq
      obtain ⟨rfl, hrest⟩ := ih (fun b hb => h b (List.mem_cons_of_mem a hb))
        (fun b hb => h' b (List.mem_cons_of_mem a' hb)) htail
      exact ⟨by rw [Prod.ext hname hvalue], hrest⟩

/-- The class can be told from the other attributes if none of them has its name. -/
theorem allAttributes_inj {className className' : Option String}
    {attributes attributes' : List (String × String)} (h : ∀ a ∈ attributes, a.1 ≠ "class")
    (h' : ∀ a ∈ attributes', a.1 ≠ "class")
    (heq : allAttributes className attributes = allAttributes className' attributes') :
    className = className' ∧ attributes = attributes' := by
  cases className with
  | none =>
    cases className' with
    | none => exact ⟨rfl, heq⟩
    | some c' =>
      obtain rfl : attributes = ("class", c') :: attributes' := heq
      exact absurd rfl (h _ List.mem_cons_self)
  | some c =>
    cases className' with
    | none =>
      obtain rfl : ("class", c) :: attributes = attributes' := heq
      exact absurd rfl (h' _ List.mem_cons_self)
    | some c' =>
      have hcons : ("class", c) :: attributes = ("class", c') :: attributes' := heq
      obtain ⟨hclass, rfl⟩ := List.cons.inj hcons
      exact ⟨congrArg some (Prod.mk.inj hclass).2, rfl⟩

/-- A name of an attribute that is not a class. -/
def PlainAttribute (name : String) : Prop :=
  Plain name ∧ name ≠ "class"

/-- The class is an attribute with a plain name. -/
theorem plain_allAttributes {className : Option String} {attributes : List (String × String)}
    (h : ∀ a ∈ attributes, PlainAttribute a.1) :
    ∀ a ∈ allAttributes className attributes, Plain a.1 := by
  intro a ha
  rcases List.mem_append.1 ha with ha | ha
  · obtain ⟨c, -, rfl⟩ := Option.map_eq_some_iff.1 (Option.mem_toList.1 ha)
    have hclass : Plain "class" := by decide
    exact hclass
  · exact (h a ha).1

/-- A start tag tells the tag, the class and the attributes, and where it ends. -/
theorem startTag_inj {tag tag' : String} {className className' : Option String}
    {attributes attributes' : List (String × String)} (htag : Plain tag) (htag' : Plain tag')
    (h : ∀ a ∈ attributes, PlainAttribute a.1) (h' : ∀ a ∈ attributes', PlainAttribute a.1)
    {rest rest' : List Char} (hrest : EndsTag rest) (hrest' : EndsTag rest')
    (heq : tag.toList ++ ((attributesHtml className attributes).toList ++ rest) =
      tag'.toList ++ ((attributesHtml className' attributes').toList ++ rest')) :
    tag = tag' ∧ className = className' ∧ attributes = attributes' ∧ rest = rest' := by
  have hstop : ∀ {tag}, Plain tag → ∀ c ∈ tag.toList, c ≠ ' ' ∧ c ≠ '>' := by
    rintro tag htag c hc
    have hmark := htag.2 c hc
    simp only [List.mem_cons, not_or] at hmark
    exact ⟨hmark.1, hmark.2.2.1⟩
  -- after the tag comes a blank, before an attribute or before the short end, or else `>`
  have hhead : ∀ (className : Option String) (attributes : List (String × String)) {rest},
      EndsTag rest → ∀ c ∈ ((attributesHtml className attributes).toList ++ rest).head?,
        ¬ (c ≠ ' ' ∧ c ≠ '>') := by
    intro className attributes rest hrest c hc
    rw [toList_attributesHtml] at hc
    cases hall : allAttributes className attributes with
    | nil =>
      rw [hall] at hc
      obtain ⟨r, rfl | rfl⟩ := hrest <;> simp at hc <;> simp [← hc]
    | cons a as =>
      rw [hall, List.flatMap_cons, toList_attributeHtml] at hc
      simp at hc
      simp [← hc]
  obtain ⟨htags, hafter⟩ := append_inj_of_stop (hstop htag) (hstop htag')
    (hhead className attributes hrest) (hhead className' attributes' hrest') heq
  rw [toList_attributesHtml, toList_attributesHtml] at hafter
  obtain ⟨hall, hrest⟩ := attributes_inj (plain_allAttributes h) (plain_allAttributes h') hrest
    hrest' hafter
  obtain ⟨hclass, hattributes⟩ :=
    allAttributes_inj (fun a ha => (h a ha).2) (fun a ha => (h' a ha).2) hall
  exact ⟨String.toList_inj.1 htags, hclass, hattributes, hrest⟩

/-! ## Merged texts -/

/-- A tree put in front of others. A text is merged with the text that it comes to stand before,
and left out if it is empty. -/
def prepended : Tree → List Tree → List Tree
  | text s, text s' :: ts => text (s ++ s') :: ts
  | text s, ts => if s = "" then ts else text s :: ts
  | t, ts => t :: ts

mutual

/-- The tree with adjacent texts merged and empty texts left out, all the way down. -/
def merged : Tree → Tree
  | element tag className attributes children =>
    element tag className attributes (mergedAll children)
  | text content => text content
  | missing => missing

/-- Trees side by side with adjacent texts merged and empty texts left out. -/
def mergedAll : List Tree → List Tree
  | [] => []
  | t :: ts => prepended (merged t) (mergedAll ts)

end

/-- Two texts in front of something else are merged into one. -/
theorem prepended_text_text (s s' : String) {ts : List Tree}
    (h : ∀ t ∈ ts.head?, ∀ content, t ≠ .text content) :
    prepended (.text s) (prepended (.text s') ts) = prepended (.text (s ++ s')) ts := by
  have hplain : ∀ s, prepended (.text s) ts = if s = "" then ts else .text s :: ts := by
    intro s
    rcases ts with - | ⟨t, ts⟩
    · rfl
    · cases t with
      | text content => exact absurd rfl (h _ rfl content)
      | _ => rfl
  rw [hplain, hplain]
  by_cases hs' : s' = ""
  · subst hs'
    rw [if_pos rfl, hplain, String.append_empty]
  · rw [if_neg hs', if_neg fun hempty => hs' (String.append_eq_empty_iff.1 hempty).2]
    rfl

/-! ## Trees side by side -/

/-- Where the children of an element end, and where all ends. -/
def EndsForest (rest : List Char) : Prop :=
  rest = [] ∨ ∃ r, rest = '<' :: '/' :: r

/-- Trees with names of these kinds of which the first one is an element, if there is one. -/
inductive OpensWithTag (tag name : String → Prop) : List Tree → Prop
  | nil : OpensWithTag tag name []
  | cons {t : String} {className : Option String} {attributes : List (String × String)}
    {children ts : List Tree} : tag t → (∀ a ∈ attributes, name a.1) →
    (∀ c ∈ children, c.Named tag name) → (∀ t ∈ ts, t.Named tag name) →
    OpensWithTag tag name (.element t className attributes children :: ts)

/-- All begins with a text, which may be empty, and goes on with an element if at all. -/
theorem exists_leading {tag name : String → Prop} {ts : List Tree}
    (h : ∀ t ∈ ts, t.Named tag name) :
    ∃ s tail, OpensWithTag tag name tail ∧
      (htmlAll ts).toList = (escaped s).toList ++ (htmlAll tail).toList ∧
      mergedAll ts = prepended (.text s) (mergedAll tail) := by
  induction ts with
  | nil => exact ⟨"", [], .nil, rfl, rfl⟩
  | cons t ts ih =>
    have hts : ∀ t ∈ ts, t.Named tag name := fun t ht => h t (List.mem_cons_of_mem _ ht)
    cases h t List.mem_cons_self with
    | element className htag hattributes hchildren =>
      exact ⟨"", _, .cons htag hattributes hchildren hts, rfl, rfl⟩
    | text content =>
      obtain ⟨s, tail, htail, hhtml, hmerged⟩ := ih hts
      refine ⟨content ++ s, tail, htail, ?_, ?_⟩
      · rw [toList_htmlAll_cons, hhtml, html, toList_escaped, toList_escaped, toList_escaped,
          String.toList_append, List.flatMap_append, List.append_assoc]
      · rw [mergedAll, merged, hmerged, prepended_text_text]
        cases htail <;> simp [mergedAll, merged, prepended]

/-- Where a text ends, a tag begins, or all ends. -/
theorem head_eq_lt {tag name : String → Prop} {tail : List Tree} {rest : List Char}
    (htail : OpensWithTag tag name tail) (hrest : EndsForest rest) :
    ∀ c ∈ ((htmlAll tail).toList ++ rest).head?, ¬ c ≠ '<' := by
  cases htail with
  | nil => obtain rfl | ⟨r, rfl⟩ := hrest <;> simp [htmlAll]
  | cons => simp [toList_htmlAll_cons, toList_html]

/-- The children of an element have less HTML than the element, so that inductions on the length
reach them. -/
theorem length_children_lt (tag : String) (className : Option String)
    (attributes : List (String × String)) (children : List Tree) :
    (htmlAll children).toList.length <
      (html (.element tag className attributes children)).toList.length := by
  rw [toList_html, afterAttributes]
  split
  · next hvoid =>
    rw [Bool.and_eq_true, List.isEmpty_iff] at hvoid
    simp [hvoid.2, htmlAll]
  · simp only [List.length_cons, List.length_append]
    omega

/-- A start tag cannot be taken for an end tag. -/
theorem EndsForest.ne_element {rest : List Char} (h : EndsForest rest) {tag : String}
    (htag : Plain tag) (className : Option String) (attributes : List (String × String))
    (children : List Tree) (r : List Char) :
    rest ≠ (html (.element tag className attributes children)).toList ++ r := by
  obtain ⟨c, cs, hcons, hc⟩ := htag.exists_cons
  rw [toList_html, hcons]
  obtain rfl | ⟨r', rfl⟩ := h
  · simp
  · rintro heq
    obtain ⟨rfl, -⟩ := List.cons.inj (List.cons.inj heq).2
    simp at hc

/-- Two elements can be told from their HTML if their children can. -/
theorem element_inj {tag tag' : String} {className className' : Option String}
    {attributes attributes' : List (String × String)} {children children' : List Tree}
    (htag : Plain tag) (htag' : Plain tag') (h : ∀ a ∈ attributes, PlainAttribute a.1)
    (h' : ∀ a ∈ attributes', PlainAttribute a.1)
    (hchildren : ∀ {rest rest'}, EndsForest rest → EndsForest rest' →
      (htmlAll children).toList ++ rest = (htmlAll children').toList ++ rest' →
        mergedAll children = mergedAll children' ∧ rest = rest') {rest rest' : List Char}
    (heq : (html (.element tag className attributes children)).toList ++ rest =
      (html (.element tag' className' attributes' children')).toList ++ rest') :
    merged (.element tag className attributes children) =
      merged (.element tag' className' attributes' children') ∧ rest = rest' := by
  rw [toList_html, toList_html] at heq
  simp only [List.cons_append, List.append_assoc, List.cons.injEq, true_and] at heq
  obtain ⟨rfl, rfl, rfl, hafter⟩ := startTag_inj htag htag' h h'
    (endsTag_afterAttributes tag children rest) (endsTag_afterAttributes tag' children' rest') heq
  rw [merged, merged]
  unfold afterAttributes at hafter
  split at hafter
  · next hvoid =>
    split at hafter
    · next hvoid' =>
      -- both are empty and have the short form
      rw [Bool.and_eq_true, List.isEmpty_iff] at hvoid hvoid'
      rw [hvoid.2, hvoid'.2]
      exact ⟨rfl, List.append_cancel_left hafter⟩
    · simp at hafter
  · split at hafter
    · simp at hafter
    · simp only [List.cons_append, List.append_assoc, List.cons.injEq, true_and,
        List.nil_append] at hafter
      obtain ⟨hmerged, hend⟩ := hchildren (.inr ⟨_, rfl⟩) (.inr ⟨_, rfl⟩) hafter
      simp only [List.cons.injEq, true_and, List.append_cancel_left_eq] at hend
      exact ⟨by rw [hmerged], hend⟩

/-- **HTML is unambiguous.** Trees one after the other and what follows them can be told from their
HTML, up to the borders between texts and texts that are empty. -/
theorem htmlAll_append_inj {ts ts' : List Tree} (h : ∀ t ∈ ts, t.Named Plain PlainAttribute)
    (h' : ∀ t ∈ ts', t.Named Plain PlainAttribute) {rest rest' : List Char}
    (hrest : EndsForest rest) (hrest' : EndsForest rest')
    (heq : (htmlAll ts).toList ++ rest = (htmlAll ts').toList ++ rest') :
    mergedAll ts = mergedAll ts' ∧ rest = rest' := by
  induction hn : (htmlAll ts).toList.length using Nat.strongRecOn
    generalizing ts ts' rest rest' with
  | ind n ih =>
    subst hn
    obtain ⟨s, tail, htail, hhtml, hmerged⟩ := exists_leading h
    obtain ⟨s', tail', htail', hhtml', hmerged'⟩ := exists_leading h'
    have htext : ∀ s, ∀ c ∈ (escaped s).toList, c ≠ '<' := by
      rintro s c hc rfl
      exact not_mem_escaped s hc
    rw [hhtml, hhtml', List.append_assoc, List.append_assoc] at heq
    obtain ⟨hs, hafter⟩ := append_inj_of_stop (htext s) (htext s') (head_eq_lt htail hrest)
      (head_eq_lt htail' hrest') heq
    obtain rfl := escaped_inj hs
    suffices htails : mergedAll tail = mergedAll tail' ∧ rest = rest' by
      rw [hmerged, hmerged', htails.1]
      exact ⟨rfl, htails.2⟩
    -- the children of an element and what comes after it are shorter than all of it
    have hshorter : (htmlAll tail).toList.length ≤ (htmlAll ts).toList.length := by
      rw [hhtml, List.length_append]
      exact Nat.le_add_left _ _
    cases htail with
    | nil =>
      cases htail' with
      | nil => exact ⟨rfl, hafter⟩
      | cons htag' _ _ _ =>
        rw [toList_htmlAll_cons, List.append_assoc] at hafter
        exact absurd hafter (hrest.ne_element htag' _ _ _ _)
    | @cons tag className attributes children ts₁ htag hattributes hchildren hts₁ =>
      rw [toList_htmlAll_cons, List.length_append] at hshorter
      have hinner := length_children_lt tag className attributes children
      rw [toList_htmlAll_cons, List.append_assoc] at hafter
      cases htail' with
      | nil => exact absurd hafter.symm (hrest'.ne_element htag _ _ _ _)
      | cons htag' hattributes' hchildren' hts₁' =>
        rw [toList_htmlAll_cons, List.append_assoc] at hafter
        obtain ⟨helement, hrest₁⟩ := element_inj htag htag' hattributes hattributes'
          (fun hr hr' heq => ih _ (by omega) hchildren hchildren' hr hr' heq rfl) hafter
        obtain ⟨hmerged₁, hrests⟩ := ih _ (by omega) hts₁ hts₁' hrest hrest' hrest₁ rfl
        rw [mergedAll, mergedAll, helement, hmerged₁]
        exact ⟨rfl, hrests⟩

/-- A single tree, too, is known up to that. -/
theorem merged_eq_of_mergedAll {tag name : String → Prop} {t t' : Tree} (h : t.Named tag name)
    (h' : t'.Named tag name) (heq : mergedAll [t] = mergedAll [t']) : merged t = merged t' := by
  have htext : ∀ s, mergedAll [.text s] = if s = "" then [] else [.text s] := fun _ => rfl
  cases h with
  | element className htag hattributes hchildren =>
    cases h' with
    | element className' htag' hattributes' hchildren' => exact (List.cons.inj heq).1
    | text s' =>
      rw [htext] at heq
      split at heq <;> cases heq
  -- an empty text is left out among others, and merged with nothing on its own
  | text s =>
    rw [htext s] at heq
    cases h' with
    | element className' htag' hattributes' hchildren' => split at heq <;> cases heq
    | text s' =>
      rw [htext] at heq
      by_cases hs : s = ""
      · by_cases hs' : s' = ""
        · rw [hs, hs']
        · rw [if_pos hs, if_neg hs'] at heq
          cases heq
      · by_cases hs' : s' = ""
        · rw [if_neg hs, if_pos hs'] at heq
          cases heq
        · rw [if_neg hs, if_neg hs'] at heq
          exact (List.cons.inj heq).1

end Tree

namespace Document

/-- **HTML loses nothing.** Two nodes of well-formed documents that have the same HTML show the
same tree, with its tags, classes, attributes and children in order, once adjacent texts are merged
and empty texts left out. The tags and the names of the attributes have to be plain, and no
attribute may have the name of the class; texts and values are arbitrary. -/
theorem html_unambiguous {d d' : Document} (h : d.WellFormed) (h' : d'.WellFormed) {id id' : Nat}
    (hid : id < d.size) (hid' : id' < d'.size)
    (hplain : ∀ path x el, d.Path id path x → d.element? x = some el →
      Tree.Plain el.tag ∧ ∀ a ∈ el.attributes, Tree.Plain a.1 ∧ a.1 ≠ "class")
    (hplain' : ∀ path x el, d'.Path id' path x → d'.element? x = some el →
      Tree.Plain el.tag ∧ ∀ a ∈ el.attributes, Tree.Plain a.1 ∧ a.1 ≠ "class")
    (heq : (d.tree id).html = (d'.tree id').html) :
    (d.tree id).merged = (d'.tree id').merged := by
  have hnamed : (d.tree id).Named Tree.Plain Tree.PlainAttribute := named_tree h hid hplain
  have hnamed' : (d'.tree id').Named Tree.Plain Tree.PlainAttribute := named_tree h' hid' hplain'
  have hall : (Tree.htmlAll [d.tree id]).toList ++ [] =
      (Tree.htmlAll [d'.tree id']).toList ++ [] := by
    simp only [Tree.htmlAll, heq]
  have hmerged := (Tree.htmlAll_append_inj (List.forall_mem_singleton.2 hnamed)
    (List.forall_mem_singleton.2 hnamed') (.inl rfl) (.inl rfl) hall).1
  exact Tree.merged_eq_of_mergedAll hnamed hnamed' hmerged

/-- A text in one piece, and in three pieces of which one is empty. -/
theorem html_unambiguous_pieces :
    let d := Document.empty.applyAll [.element "p", .attribute 0 "title" "\"&", .text "a <",
      .append 0 1, .text "", .append 0 2, .text " b", .append 0 3]
    let d' := Document.empty.applyAll [.element "p", .attribute 0 "title" "\"&", .text "a < b",
      .append 0 1]
    (d.tree 0).html = "<p title=\"&quot;&amp;\">a &lt; b</p>" ∧
      (d.tree 0).html = (d'.tree 0).html ∧ (d.tree 0).merged = (d'.tree 0).merged := by
  intro d d'
  have helement : ((Document.empty.apply (.element "p")).apply
      (.attribute 0 "title" "\"&")).WellFormed :=
    (Grows.change (c := 0) (WellFormed.empty.element "p") (by decide)
      (.attribute "title" "\"&")).wellFormed
  have hfirst := (Grows.addText (c := 0) helement (by decide) "a <").wellFormed
  have hsecond := (Grows.addText (c := 0) hfirst (by decide) "").wellFormed
  have hd : d.WellFormed := (Grows.addText (c := 0) hsecond (by decide) " b").wellFormed
  have hd' : d'.WellFormed := (Grows.addText (c := 0) helement (by decide) "a < b").wellFormed
  have hplain : Tree.Plain "p" ∧
      ∀ a ∈ [("title", "\"&")], Tree.Plain a.1 ∧ a.1 ≠ "class" := by
    refine ⟨by decide, fun a ha => ?_⟩
    rw [List.mem_singleton.1 ha]
    exact ⟨by decide, by decide⟩
  have heq : (d.tree 0).html = (d'.tree 0).html := by decide
  refine ⟨by decide, heq, html_unambiguous hd hd' (by decide) (by decide) ?_ ?_ heq⟩
  · rintro - (_ | _ | _ | _ | x) el - hel <;> cases hel
    exact hplain
  · rintro - (_ | _ | x) el - hel <;> cases hel
    exact hplain

end Document

end Stencil
