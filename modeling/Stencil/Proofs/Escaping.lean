import Mathlib
import Stencil.Proofs.Allowance
import Stencil.Proofs.Appending
import Stencil.Proofs.Markup
/-!
# Escaping

What the values of a rendering can put into its HTML. Texts, classes and the values of attributes
are escaped: each `<` in the HTML is one of a tag, or stands in the name of a tag or of an
attribute. The names come from the templates, with one exception: the keys of an object that is
given to the attribute `data` become names, and are written as they are.
-/

namespace Stencil

namespace Tree

/-! ## Counting marks -/

mutual

/-- How many tags the elements of a tree have. An empty element without an end tag has one. -/
def tags : Tree → Nat
  | element tag _ _ children =>
    (if voidTags.contains tag && children.isEmpty then 1 else 2) + tagsAll children
  | text _ => 0
  | missing => 0

/-- How many tags the elements of several trees have. -/
def tagsAll : List Tree → Nat
  | [] => 0
  | t :: ts => tags t + tagsAll ts

end

mutual

/-- How many `<` stand in the names of attributes. -/
def nameMarks : Tree → Nat
  | element _ _ attributes children =>
    (attributes.flatMap fun a => a.1.toList).count '<' + nameMarksAll children
  | text _ => 0
  | missing => 0

/-- How many `<` stand in the names of attributes of several trees. -/
def nameMarksAll : List Tree → Nat
  | [] => 0
  | t :: ts => nameMarks t + nameMarksAll ts

end

/-- A name without `<`. -/
def Unmarked (name : String) : Prop :=
  '<' ∉ name.toList

/-- The value of an attribute is escaped, so its marks are those of its name. -/
theorem count_attributeHtml (name value : String) :
    (attributeHtml name value).toList.count '<' = name.toList.count '<' := by
  have hvalue : (escapedAttribute value).toList.count '<' = 0 :=
    List.count_eq_zero.2 (not_mem_escapedAttribute value).1
  simp [toList_attributeHtml, hvalue]

/-- The same for all attributes of a tag; the name of the class has no mark. -/
theorem count_attributesHtml (className : Option String) (attributes : List (String × String)) :
    (attributesHtml className attributes).toList.count '<' =
      (attributes.flatMap fun a => a.1.toList).count '<' := by
  have hattributes : ∀ as : List (String × String),
      (as.flatMap fun a => (attributeHtml a.1 a.2).toList).count '<' =
        (as.flatMap fun a => a.1.toList).count '<' := by
    intro as
    induction as with
    | nil => rfl
    | cons a as ih =>
      rw [List.flatMap_cons, List.count_append, count_attributeHtml, ih, List.flatMap_cons,
        List.count_append]
  rw [toList_attributesHtml, hattributes, allAttributes]
  cases className with
  | none => rfl
  | some c =>
    have hclass : "class".toList.count '<' = 0 := by decide
    rw [Option.map_some, Option.toList_some, List.singleton_append, List.flatMap_cons,
      List.count_append, hclass, Nat.zero_add]

theorem count_htmlAll_of_forall {ts : List Tree}
    (h : ∀ t ∈ ts, (html t).toList.count '<' = tags t + nameMarks t) :
    (htmlAll ts).toList.count '<' = tagsAll ts + nameMarksAll ts := by
  induction ts with
  | nil => rfl
  | cons t ts ih =>
    have ht := h t List.mem_cons_self
    have hts := ih fun t ht => h t (List.mem_cons_of_mem _ ht)
    rw [toList_htmlAll_cons, List.count_append, ht, hts, tagsAll, nameMarksAll]
    omega

/-- Where the tags themselves have no marks, all marks are those of tags and in names. -/
theorem count_html {name : String → Prop} {t : Tree} (h : t.Named Unmarked name) :
    (html t).toList.count '<' = tags t + nameMarks t := by
  induction h with
  | text content => exact List.count_eq_zero.2 (not_mem_escaped content)
  | @element tag className attributes children htag _ _ ih =>
    have hchildren := count_htmlAll_of_forall ih
    have htag : tag.toList.count '<' = 0 := List.count_eq_zero.2 htag
    have hafter : (afterAttributes tag children).count '<' + 1 =
        tags (.element tag className attributes children) + nameMarksAll children := by
      rw [afterAttributes, tags]
      split
      · next hvoid =>
        rw [Bool.and_eq_true, List.isEmpty_iff] at hvoid
        rw [hvoid.2]
        rfl
      · simp [htag, hchildren]
        omega
    rw [toList_html, nameMarks]
    simp only [List.count_cons_self, List.count_append, htag, count_attributesHtml]
    omega

/-- If no tag has a mark, the marks are one for every tag that is written, and those in names of
attributes. -/
theorem count_htmlAll {name : String → Prop} {ts : List Tree}
    (h : ∀ t ∈ ts, t.Named Unmarked name) :
    (htmlAll ts).toList.count '<' = tagsAll ts + nameMarksAll ts :=
  count_htmlAll_of_forall fun t ht => count_html (h t ht)

theorem nameMarksAll_eq_zero {tag : String → Prop} {ts : List Tree}
    (h : ∀ t ∈ ts, t.Named tag Unmarked) : nameMarksAll ts = 0 := by
  have hall : ∀ ts : List Tree, (∀ t ∈ ts, nameMarks t = 0) → nameMarksAll ts = 0 := by
    intro ts hts
    induction ts with
    | nil => rfl
    | cons t ts ih =>
      rw [nameMarksAll, hts t List.mem_cons_self, ih fun t ht => hts t (List.mem_cons_of_mem _ ht)]
  have hone : ∀ {t : Tree}, t.Named tag Unmarked → nameMarks t = 0 := by
    intro t ht
    induction ht with
    | text content => rfl
    | element className _ hattributes _ ih =>
      refine Nat.add_eq_zero_iff.2 ⟨List.count_eq_zero.2 fun hmem => ?_, hall _ ih⟩
      obtain ⟨a, ha, hmark⟩ := List.mem_flatMap.1 hmem
      exact hattributes a ha hmark
  exact hall ts fun t ht => hone (h t ht)

end Tree

/-! ## Names in documents -/

namespace Document

variable {a : Allowance} {d : Document} {id : Nat}

/-- The names of the element at a position are allowed, if there is one. -/
def KeepsAt (a : Allowance) (d : Document) (id : NodeId) : Prop :=
  ∀ el, d.element? id = some el → a.tag el.tag ∧ ∀ attr ∈ el.attributes, a.name attr.1

/-- Changing an element keeps its names allowed if the change does. -/
theorem keepsAt_modify {f : Element → Element} {p : NodeId} (h : d.KeepsAt a id)
    (hf : ∀ el, (a.tag el.tag ∧ ∀ attr ∈ el.attributes, a.name attr.1) →
      a.tag (f el).tag ∧ ∀ attr ∈ (f el).attributes, a.name attr.1) :
    (d.modify p f).KeepsAt a id := by
  intro el hel
  rw [element?_modify] at hel
  split at hel
  · obtain ⟨el, hold, rfl⟩ := Option.map_eq_some_iff.1 hel
    exact hf el (h el hold)
  · exact h el hel

/-- Of nodes that are not there yet nothing is said. -/
theorem keepsAt_of_size_le (h : d.size ≤ id) : d.KeepsAt a id := by
  intro el hel
  rw [element?_of_size_le h] at hel
  cases hel

/-- An allowed edit keeps the names of a node allowed, also if it creates the node. -/
theorem keepsAt_apply {edit : Edit} (hedit : a.AllowsEdit edit) (h : d.KeepsAt a id) :
    (d.apply edit).KeepsAt a id := by
  cases edit with
  | element tag =>
    intro el hel
    by_cases hid : id = d.size
    · rw [element?, get?_element, if_pos hid] at hel
      cases hel
      exact ⟨hedit, fun _ hattr => absurd hattr List.not_mem_nil⟩
    · exact h el (element?_congr ((get?_element d tag id).trans (if_neg hid)) ▸ hel)
  | text content =>
    intro el hel
    by_cases hid : id = d.size
    · rw [element?, get?_text, if_pos hid] at hel
      cases hel
    · exact h el (element?_congr ((get?_text d content id).trans (if_neg hid)) ▸ hel)
  | append parent child => exact keepsAt_modify h fun el hel => hel
  | className node value => exact keepsAt_modify h fun el hel => hel
  | «attribute» node name value =>
    refine keepsAt_modify h fun el hel => ⟨hel.1, fun attr hattr => ?_⟩
    have hkey : attr.1 ∈ Table.keys (Table.insert el.attributes name value) :=
      List.mem_map_of_mem hattr
    -- the value of an old name changes, or a new name comes last
    have hkeys : attr.1 ∈ Table.keys el.attributes ∨ attr.1 = name := by
      rcases Table.keys_insert el.attributes name value with ⟨-, heq⟩ | ⟨-, heq⟩
      · exact .inl (heq ▸ hkey)
      · rw [heq] at hkey
        exact (List.mem_append.1 hkey).imp_right List.mem_singleton.1
    rcases hkeys with hkey | heq
    · obtain ⟨old, hmem, heq⟩ := List.mem_map.1 hkey
      exact heq ▸ hel.2 old hmem
    · exact heq ▸ hedit

/-- Edits that are allowed keep the names of a node allowed. -/
theorem keepsAt_applyAll {edits : List Edit} (hedits : ∀ edit ∈ edits, a.AllowsEdit edit)
    (h : d.KeepsAt a id) : (d.applyAll edits).KeepsAt a id := by
  induction edits generalizing d with
  | nil => exact h
  | cons edit edits ih =>
    exact ih (fun edit hedit => hedits edit (List.mem_cons_of_mem _ hedit))
      (keepsAt_apply (hedits edit List.mem_cons_self) h)

/-- Where something grows in a node, no way down to an old node is new. -/
theorem Grows.path_of_lt {whole : Bool} {c x : Nat} {d' : Document} {path : List NodeId}
    (h : d.Grows whole c d') (hpath : d'.Path c path x) (hx : x < d.size) : d.Path c path x := by
  induction hpath with
  | stay => exact .stay
  | @down path p x _ hmem ih =>
    have hlt : p < d.size := Nat.lt_trans (h.wellFormed.behind p x hmem).1 hx
    refine .down (ih hlt) ?_
    by_cases hp : p = c
    · subst hp
      exact (h.fresh x hmem).resolve_right (Nat.not_le.2 hx)
    · exact children_congr (h.others p hlt hp) ▸ hmem

/-- From a node without children, no other one is reached. -/
theorem Path.eq_nil {c x : Nat} {path : List NodeId} (h : d.Path c path x)
    (hempty : d.children c = []) : path = [] := by
  induction h with
  | stay => rfl
  | down hpath hmem ih =>
    subst ih
    cases hpath
    rw [hempty] at hmem
    cases hmem

/-- The names strictly below a node are allowed. -/
def KeepsBelow (a : Allowance) (d : Document) (c : NodeId) : Prop :=
  ∀ path x, path ≠ [] → d.Path c path x → d.KeepsAt a x

/-- Names that are allowed at all nodes below are allowed in the trees below. -/
theorem KeepsBelow.named {c : Nat} (h : d.KeepsBelow a c) (hd : d.WellFormed) :
    ∀ t ∈ (d.tree c).children, t.Named a.tag a.name := by
  intro t ht
  rw [children_tree hd] at ht
  obtain ⟨x, hx, rfl⟩ := List.mem_map.1 ht
  refine named_tree hd (hd.behind c x hx).2 fun path y el hpath hel => ?_
  exact h _ y (by simp) ((Path.stay.down hx).trans hpath) el hel

end Document

namespace Allowance.Adds

variable {a : Allowance} {r s : Run} {before : Document} {c : Nat}

/-- Allowed edits keep the names below a node allowed. -/
theorem keepsBelow (h : a.Adds r s) {whole : Bool}
    (hgrows : (r.document before).Grows whole c (s.document before))
    (hbelow : (r.document before).KeepsBelow a c) : (s.document before).KeepsBelow a c := by
  intro path x hpath hway
  obtain ⟨edits, hs, hedits⟩ := h
  have hdocument : s.document before = (r.document before).applyAll edits.reverse := by
    simp [Run.document, hs, Document.applyAll]
  rw [hdocument]
  refine Document.keepsAt_applyAll (fun edit hedit => hedits edit (List.mem_reverse.1 hedit)) ?_
  rcases Nat.lt_or_ge x (r.document before).size with hlt | hge
  · exact hbelow path x hpath (hgrows.path_of_lt hway hlt)
  · exact Document.keepsAt_of_size_le hge

end Allowance.Adds

/-! ## Renderings -/

namespace Engine

open Rendering Stencil.Tree

variable {a : Allowance} {e : Engine} {d : Document}

/-- A rendering is a template in its container, which it is given, or has created before. -/
theorem exists_container (e : Engine) (hd : d.WellFormed) (frame : Frame)
    {container : Option NodeId} (hcontainer : ∀ c ∈ container, (c : Nat) < d.size) :
    ∃ (r : Run) (c : Nat), r.Fits d ∧ c < (r.document d).size ∧
      (∀ name, e.renderRun name container (.start frame d.size) =
        (e.renderIn name c >>= fun _ => pure c) r) ∧
      (container = some c ∧ r.document d = d ∨
        container = none ∧ (r.document d).children c = []) := by
  cases container with
  | some c =>
    exact ⟨.start frame d.size, c, ⟨rfl, hd⟩, hcontainer c rfl, fun _ => rfl, .inl ⟨rfl, rfl⟩⟩
  | none =>
    let r := ((Run.start frame d.size).write (.element e.settings.containerTag)).write
      (.className d.size e.settings.containerClass)
    have hchildren : ∀ p, (r.document d).children p = d.children p := fun p =>
      (Document.children_modify
        (f := fun el => { el with className := some e.settings.containerClass })
        (fun _ => rfl) _ d.size p).trans (Document.children_element d _ p)
    have hsize : (r.document d).size = d.size + 1 := by
      rw [Run.document_write, Document.size_apply, Run.document_write, Document.size_apply]
      rfl
    refine ⟨r, d.size, ⟨Run.next_write (Run.next_write rfl _) _, ?_⟩, ?_, fun _ => rfl,
      .inr ⟨rfl, ?_⟩⟩
    · exact hd.of_children (hsize ▸ Nat.le_succ _) hchildren
    · exact hsize ▸ Nat.lt_succ_self _
    · exact (hchildren _).trans
        (Document.children_of_none (Document.element?_of_size_le (Nat.le_refl _)))

/-- **What comes below the container keeps to what is allowed**, if what was there before does. -/
theorem named_render (h : a.Covers e) (hhost : e.host.Confined) (hd : d.WellFormed) {name : String}
    {frame : Frame} {container : Option NodeId} {node : NodeId}
    (hcontainer : ∀ c ∈ container, (c : Nat) < d.size ∧ d.KeepsBelow a c)
    (hok : (e.render name frame d.size container).outcome = .ok node) :
    ∀ t ∈ (((e.render name frame d.size container).document d).tree node).children,
      t.Named a.tag a.name := by
  -- a template that is missing would have been an error
  have hname : e.hasTemplate name = true := by
    by_contra hmissing
    rw [render, if_neg hmissing] at hok
    cases hok
  obtain ⟨r, c, hr, hc, hrun, hbegun⟩ :=
    exists_container e hd frame fun c hc => (hcontainer c hc).1
  -- a container of its own has no children yet, and a given one keeps to what is allowed
  have hbelow : (r.document d).KeepsBelow a c := by
    obtain ⟨rfl, hsame⟩ | ⟨rfl, hempty⟩ := hbegun
    · rw [hsame]
      exact (hcontainer c rfl).2
    · intro path x hpath hway
      exact absurd (hway.eq_nil hempty) hpath
  rw [render, if_pos hname, hrun] at hok ⊢
  rw [Rendered.outcome_ofRun, outcome_bind_pure] at hok
  rw [Rendered.document_ofRun, after_bind_pure]
  obtain ⟨hgrows, hfits⟩ := grows_renderIn e hhost name hr hc
  have hadds := (within_renderIn h hname c).adds r
  -- the node that a rendering answers is its container
  obtain rfl : c = node := by
    cases houtcome : (e.renderIn name c).outcome r with
    | ok _ =>
      rw [houtcome] at hok
      exact Except.ok.inj hok
    | error err =>
      rw [houtcome] at hok
      cases hok
  exact (hadds.keepsBelow hgrows hbelow).named hfits.wellFormed

end Engine

/-! ## Marks in names -/

/-- No `<` stands in the name that a node gives to an element or to an attribute. -/
def Node.Unmarked : Node → Prop
  | .element tag _ _ => Tree.Unmarked tag
  | .attribute name _ => Tree.Unmarked name
  | _ => True

namespace Allowance

/-- Allowed are tags without `<`, such names of attributes, and all errors. -/
def unmarked (name : String → Prop) : Allowance :=
  ⟨Tree.Unmarked, name, fun _ => True⟩

/-- An attribute gives an element its own name, or as data the keys of an object. -/
theorem allowsChange_attributeChanges {a : Allowance} {attr : String} (hname : a.name attr)
    (hdata : attr = "data" → ∀ key, a.name ("data-" ++ key)) (v : Value) :
    ∀ ch ∈ attributeChanges attr v, a.AllowsChange ch := by
  intro ch hch
  unfold attributeChanges at hch
  split at hch
  · rw [List.mem_singleton.1 hch]
    exact trivial
  · split at hch
    · obtain ⟨member, -, rfl⟩ := List.mem_map.1 hch
      exact hdata rfl member.1
    · rw [List.mem_singleton.1 hch]
      exact hname

/-- Without functions of the host, an engine whose templates have no marks in their names gives
marks to the keys of data at most. -/
theorem covers_unmarked {e : Engine} {name : String → Prop} (hhost : e.host = .empty)
    (hnames : ∀ template root, e.template? template = some root → ∀ n ∈ root.walk, n.Unmarked)
    (hname : ∀ attr, Tree.Unmarked attr → name attr)
    (hdata : ∀ template root value, e.template? template = some root →
      .attribute "data" value ∈ root.walk → ∀ key, name ("data-" ++ key)) :
    (unmarked name).Covers e where
  ordinary _ _ := trivial
  click := hname _ (by simp [Tree.Unmarked])
  edits _ _ _ edit hedit := by
    rw [hhost] at hedit
    exact absurd hedit List.not_mem_nil
  answer _ _ _ _ _ := trivial
  filter _ _ _ _ _ _ := trivial
  nodes template root hget n hn := by
    have hmarks := hnames template root hget n hn
    cases n with
    | element tag modifiers body => exact hmarks
    | «attribute» attr value =>
      refine fun v => allowsChange_attributeChanges (hname attr hmarks) ?_ v
      rintro rfl
      exact hdata template root value hget hn
    | render target => exact fun _ => trivial
    | renderComputed target => exact fun _ _ => trivial
    | _ => exact trivial

end Allowance

namespace Engine

open Stencil.Tree

/-- **Values bring no tags.** Without functions of the host, and with templates whose tags and names
of attributes have no `<`, each `<` in what a rendering leaves in its container is one of a tag, or
stands in the name of an attribute; and that name is a key of an object that was given to the
attribute `data`. Templates without this attribute leave no `<` but those of the tags. -/
theorem render_marks (e : Engine) (hhost : e.host = .empty)
    (hnames : ∀ template root, e.template? template = some root → ∀ n ∈ root.walk, n.Unmarked)
    {d : Document} (hd : d.WellFormed) {name : String} {frame : Frame}
    {container : Option NodeId} {node : NodeId}
    (hcontainer : ∀ c ∈ container, (c : Nat) < d.size ∧ ∀ path x el, path ≠ [] →
      d.Path c path x → d.element? x = some el →
        Unmarked el.tag ∧ ∀ attr ∈ el.attributes, Unmarked attr.1)
    (hok : (e.render name frame d.size container).outcome = .ok node) :
    let t := ((e.render name frame d.size container).document d).tree node
    t.innerHtml.toList.count '<' = tagsAll t.children + nameMarksAll t.children ∧
      (∀ child ∈ t.children, child.Named Unmarked fun attr =>
        Unmarked attr ∨ ∃ key, attr = "data-" ++ key) ∧
      ((∀ template root value, e.template? template = some root →
        .attribute "data" value ∉ root.walk) →
          t.innerHtml.toList.count '<' = tagsAll t.children) := by
  intro t
  have hconfined : e.host.Confined := hhost ▸ Host.confined_empty
  -- the two allowances differ in what they say of the keys of data only
  have hnamed : ∀ name : String → Prop, (∀ attr, Unmarked attr → name attr) →
      (Allowance.unmarked name).Covers e → ∀ child ∈ t.children, child.Named Unmarked name := by
    intro name hname hcovers
    refine named_render hcovers hconfined hd (fun c hc => ⟨(hcontainer c hc).1, ?_⟩) hok
    intro path x hpath hway el hel
    obtain ⟨htag, hattributes⟩ := (hcontainer c hc).2 path x el hpath hway hel
    exact ⟨htag, fun attr hattr => hname _ (hattributes attr hattr)⟩
  have hkeys := hnamed (fun attr => Unmarked attr ∨ ∃ key, attr = "data-" ++ key)
    (fun _ => .inl) (Allowance.covers_unmarked hhost hnames (fun _ => .inl)
      fun _ _ _ _ _ key => .inr ⟨key, rfl⟩)
  have hcount := count_htmlAll hkeys
  refine ⟨hcount, hkeys, fun hdata => ?_⟩
  have hall := hnamed Unmarked (fun _ h => h) (Allowance.covers_unmarked hhost hnames
    (fun _ h => h) fun template root value hget hmem =>
      absurd hmem (hdata template root value hget))
  refine hcount.trans ?_
  rw [nameMarksAll_eq_zero hall, Nat.add_zero]

/-- Tags in a text, in a class, in the value of an attribute and in the items of a loop. -/
theorem render_marks_values :
    let card : Node := .element "p" [.attribute "class" (.leaf (.name "kind")),
      .attribute "title" (.filtered (.leaf (.name "note")) ["upper"])] (.text (.leaf (.name "x")))
    let page : Node := .block [.loop ["x"] (.leaf (.name "xs")) (.render "card") none,
      .element "br" [] .empty]
    let e : Engine := ⟨.standard, Filter.standard, [], .empty, [("card", card), ("page", page)],
      [], { Settings.standard with maxDepth := 8 }⟩
    let frame : Frame := [("kind", .string "<a"), ("note", .string "\"><b>"),
      ("xs", .array [.string "<script>", .null])]
    let r := e.render "page" frame 0 none
    let t := (r.document .empty).tree 0
    (∀ template root, e.template? template = some root → ∀ n ∈ root.walk, n.Unmarked) ∧
      r.outcome = .ok 0 ∧
      t.innerHtml = "<p class=\"&lt;a\" title=\"&quot;&gt;&lt;B&gt;\">&lt;script&gt;</p>" ++
        "<p class=\"&lt;a\" title=\"&quot;&gt;&lt;B&gt;\"></p><br />" ∧
      tagsAll t.children = 5 ∧ t.innerHtml.toList.count '<' = tagsAll t.children := by
  intro card page e frame r t
  have hnodes : ∀ entry ∈ e.templates, ∀ n ∈ entry.2.walk, n.Unmarked := by
    simp [e, card, page, Node.walk, Node.walkList, Node.walkOption, Node.walkBody, Node.Unmarked,
      Tree.Unmarked]
  have hnames : ∀ template root, e.template? template = some root → ∀ n ∈ root.walk, n.Unmarked :=
    fun _ _ hget => hnodes _ (Table.mem_of_get? hget)
  have hdata : ∀ template root value, e.template? template = some root →
      .attribute "data" value ∉ root.walk := by
    have hentries : ∀ entry ∈ e.templates, ∀ value, .attribute "data" value ∉ entry.2.walk := by
      simp [e, card, page, Node.walk, Node.walkList, Node.walkOption, Node.walkBody]
    exact fun _ _ value hget => hentries _ (Table.mem_of_get? hget) value
  have hok : r.outcome = .ok 0 := by
    dsimp +zetaDelta only
    decide +kernel
  have hmarks := render_marks e rfl hnames .empty (by simp) hok
  exact ⟨hnames, hok, by decide +kernel, by decide +kernel, hmarks.2.2 hdata⟩

/-- A key of the data of an element is a name with a mark, which is not escaped. -/
theorem parseSource_data_key :
    let d : Dialect := ⟨.standard, fun _ => none, 64⟩
    let root : Node := .block [.element "p" [.attribute "data" (.leaf (.name "meta"))] .empty]
    let e : Engine := ⟨.standard, [], [], .empty, [("t", root)], [], .standard⟩
    let frame : Frame := [("meta", .object [("x<y", .ofNat 1)])]
    let r := e.render "t" frame 0 none
    let t := (r.document .empty).tree 0
    d.parseSource "@elem p data=meta" = .ok root ∧
      (∀ template root, e.template? template = some root → ∀ n ∈ root.walk, n.Unmarked) ∧
      r.outcome = .ok 0 ∧ t.innerHtml = "<p data-x<y=\"1\"></p>" ∧
      tagsAll t.children = 2 ∧ t.innerHtml.toList.count '<' = 3 := by
  intro d root e frame r t
  have htokens : Lexer.tokenize d.grammar.vocabulary "@elem p data=meta" = .ok
      [⟨.mark, "@", 1⟩, ⟨.keyword, "elem", 1⟩, ⟨.literal, "p", 1⟩, ⟨.literal, "data", 1⟩,
        ⟨.assignment, "=", 1⟩, ⟨.literal, "meta", 1⟩, ⟨.newline, "\n", 1⟩,
        ⟨.stop, "(end)", 1⟩] := by
    decide +kernel
  have hparse : d.parseSource "@elem p data=meta" = .ok root := by
    rw [Dialect.parseSource_of_tokenize htokens]
    cbv
  have hnodes : ∀ entry ∈ e.templates, ∀ n ∈ entry.2.walk, n.Unmarked := by
    simp [e, root, Node.walk, Node.walkList, Node.walkBody, Node.Unmarked, Tree.Unmarked]
  have hok : r.outcome = .ok 0 := by
    dsimp +zetaDelta only
    decide +kernel
  exact ⟨hparse, fun _ _ hget => hnodes _ (Table.mem_of_get? hget), hok, by decide +kernel,
    by decide +kernel, by decide +kernel⟩

end Engine

end Stencil
