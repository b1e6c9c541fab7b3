import Stencil.Proofs.Effect
import Stencil.Proofs.Forest
/-!
# Growth

What an evaluation in a container does to a well-formed document: it stays well formed, no other
node changes, and the container only gets new children. If nothing has failed, all new nodes are
below the container.
-/

namespace Stencil

namespace Document

/-- How a document goes on when something is evaluated in the node `c`; if the evaluation is whole,
all new nodes are below `c`. -/
structure Grows (whole : Bool) (d : Document) (c : NodeId) (d' : Document) : Prop where
  size : d.size ≤ d'.size
  others : ∀ id : Nat, id < d.size → id ≠ c → d'.get? id = d.get? id
  container : ∀ el, d.element? c = some el →
    ∃ el', d'.element? c = some el' ∧ el'.tag = el.tag ∧ el.children <+: el'.children
  text : d.element? c = none → d'.get? c = d.get? c
  fresh : ∀ x : Nat, x ∈ d'.children c → x ∈ d.children c ∨ d.size ≤ x
  wellFormed : d'.WellFormed
  reach : whole = true → (d.element? c).isSome → ∀ id : Nat, d.size ≤ id → id < d'.size →
    ∃ path, d'.Path c path id

namespace Grows

variable {whole whole' : Bool} {d d₁ d₂ d' : Document} {c el x : Nat}

/-- A node keeps its children in order and gets new ones behind them. -/
theorem children_prefix (h : Grows whole d c d') : d.children c <+: d'.children c := by
  cases hel : d.element? c with
  | none =>
    rw [children_of_none hel]
    exact List.nil_prefix
  | some e =>
    obtain ⟨e', he', -, hprefix⟩ := h.container e hel
    rw [children_of_element? hel, children_of_element? he']
    exact hprefix

/-- No node loses a child. -/
theorem children_sub (h : Grows whole d c d') (p : NodeId) (y : NodeId) (hy : y ∈ d.children p) :
    y ∈ d'.children p := by
  by_cases hp : p = c
  · subst hp
    exact h.children_prefix.subset hy
  · rw [children_congr (h.others p (lt_size_of_mem_children hy) hp)]
    exact hy

/-- An element stays an element. -/
theorem isSome_element? (h : Grows whole d c d') (hel : (d.element? c).isSome) :
    (d'.element? c).isSome := by
  obtain ⟨e, he⟩ := Option.isSome_iff_exists.1 hel
  obtain ⟨e', he', -⟩ := h.container e he
  rw [he']
  rfl

/-- Every node that was an element still is one. -/
theorem isSome_element?_of (h : Grows whole d c d') (hel : (d.element? el).isSome) :
    (d'.element? el).isSome := by
  by_cases hc : el = c
  · subst hc
    exact h.isSome_element? hel
  · rw [element?_congr (h.others el (lt_size_of_isSome hel) hc)]
    exact hel

theorem weaken (h : Grows whole d c d') : Grows false d c d' :=
  { h with reach := fun hwhole => by cases hwhole }

/-- New nodes at the end, which belong to nothing yet. -/
theorem created (h : d.WellFormed) (hc : c < d.size) (hsize : d.size ≤ d'.size)
    (hsame : ∀ id : Nat, id < d.size → d'.get? id = d.get? id)
    (hchildren : ∀ p, d'.children p = d.children p) : Grows false d c d' where
  size := hsize
  others id hid _ := hsame id hid
  container e he := ⟨e, by rw [element?_congr (hsame c hc), he], rfl, List.prefix_refl _⟩
  text _ := hsame c hc
  fresh x hx := .inl (hchildren c ▸ hx)
  wellFormed := h.of_children hsize hchildren
  reach hwhole := by cases hwhole

theorem refl (h : d.WellFormed) : Grows true d c d where
  size := Nat.le_refl _
  others _ _ _ := rfl
  container e he := ⟨e, he, rfl, List.prefix_refl _⟩
  text _ := rfl
  fresh _ hx := .inl hx
  wellFormed := h
  reach _ _ _ hle hlt := absurd hle (Nat.not_le_of_lt hlt)

/-- The container itself changes, its tag and children apart. -/
theorem modify (h : d.WellFormed) {f : Element → Element}
    (hf : ∀ e, (f e).tag = e.tag ∧ (f e).children = e.children) :
    Grows true d c (d.modify c f) := by
  have hsize : (d.modify c f).size = d.size := Array.size_modify
  have hchildren := children_modify (fun e => (hf e).2) d c
  refine ⟨Nat.le_of_eq hsize.symm, fun id _ hne => ?_, fun e he => ?_, fun hnone => ?_,
    fun x hx => .inl (hchildren c ▸ hx), h.of_children (Nat.le_of_eq hsize.symm) hchildren, ?_⟩
  · rw [get?_modify, if_neg (Ne.symm hne)]
  · refine ⟨f e, ?_, (hf e).1, ?_⟩
    · rw [element?_modify, if_pos rfl, he]
      rfl
    · exact (hf e).2 ▸ List.prefix_refl _
  · exact get?_modify_of_none hnone f c
  · intro _ _ id hle hlt
    omega

/-- Two steps are whole together if both of them are. -/
theorem trans (h : Grows whole d c d₁) (h' : Grows whole' d₁ c d₂) :
    Grows (whole && whole') d c d₂ where
  size := Nat.le_trans h.size h'.size
  others id hid hne :=
    (h'.others id (Nat.lt_of_lt_of_le hid h.size) hne).trans (h.others id hid hne)
  container e he := by
    obtain ⟨e₁, he₁, htag₁, hprefix₁⟩ := h.container e he
    obtain ⟨e₂, he₂, htag₂, hprefix₂⟩ := h'.container e₁ he₁
    exact ⟨e₂, he₂, htag₂.trans htag₁, hprefix₁.trans hprefix₂⟩
  text hnone := by
    have hsame := h.text hnone
    exact (h'.text ((element?_congr hsame).trans hnone)).trans hsame
  fresh x hx := by
    rcases h'.fresh x hx with hx | hle
    · exact h.fresh x hx
    · exact .inr (Nat.le_trans h.size hle)
  wellFormed := h'.wellFormed
  reach hwhole hel id hle hlt := by
    rw [Bool.and_eq_true] at hwhole
    rcases Nat.lt_or_ge id d₁.size with hlt₁ | hge₁
    · obtain ⟨path, hpath⟩ := h.reach hwhole.1 hel id hle hlt₁
      exact ⟨path, hpath.mono h'.children_sub⟩
    · exact h'.reach hwhole.2 (h.isSome_element? hel) id hge₁ hlt

/-- What grows in a node that is new does not touch the nodes that are old. -/
theorem inner (h : Grows whole d c d₁) (h' : Grows whole' d₁ el d₂) (hc : c < d.size)
    (hel : d.size ≤ el) : Grows false d c d₂ := by
  have hold : ∀ id : Nat, id < d.size → d₂.get? id = d₁.get? id := fun id hid =>
    h'.others id (Nat.lt_of_lt_of_le hid h.size) (by omega)
  have hsame := hold c hc
  refine ⟨Nat.le_trans h.size h'.size, fun id hid hne => (hold id hid).trans (h.others id hid hne),
    fun e he => ?_, fun hnone => hsame.trans (h.text hnone), fun x hx => h.fresh x ?_,
    h'.wellFormed, fun hwhole => by cases hwhole⟩
  · rw [element?_congr hsame]
    exact h.container e he
  · rw [← children_congr hsame]
    exact hx

/-- A new node that has no parent becomes the last child of the container. -/
theorem append (h : Grows false d c d') (hc : c < d.size) (hle : d.size ≤ x) (hlt : x < d'.size)
    (hfree : ∀ p, x ∉ d'.children p)
    (hreach : (d.element? c).isSome → ∀ id : Nat, d.size ≤ id → id < d'.size →
      (∃ path, d'.Path c path id) ∨ ∃ path, d'.Path x path id) :
    Grows true d c (d'.apply (.append c x)) := by
  have hsize : (d'.apply (.append c x)).size = d'.size := size_apply _ _
  -- an edge more changes the container only, and nothing hangs twice
  refine ⟨hsize ▸ h.size, fun id hid hne => ?_, fun e he => ?_, fun hnone => ?_, fun y hy => ?_,
    h.wellFormed.append (by omega) hlt hfree, fun _ hel id hle' hlt' => ?_⟩
  · rw [get?_append_of_ne hne]
    exact h.others id hid hne
  · obtain ⟨e', he', htag, hprefix⟩ := h.container e he
    refine ⟨{ e' with children := e'.children ++ [x] }, ?_, htag,
      hprefix.trans (List.prefix_append _ _)⟩
    rw [Document.apply, element?_modify, if_pos rfl, he']
    rfl
  · have hsame := h.text hnone
    rw [get?_append_of_none ((element?_congr hsame).trans hnone)]
    exact hsame
  · rcases mem_children_append hy with hy | ⟨-, rfl⟩
    · exact h.fresh y hy
    · exact .inr hle
  · obtain ⟨e, he⟩ := Option.isSome_iff_exists.1 (h.isSome_element? hel)
    have hchildren := children_append_self he x
    have hsub : ∀ p, ∀ y ∈ d'.children p, y ∈ (d'.apply (.append c x)).children p := by
      intro p y hy
      by_cases hp : p = c
      · subst hp
        rw [hchildren]
        exact List.mem_append_left _ hy
      · rw [children_congr (get?_append_of_ne hp d' x)]
        exact hy
    rcases hreach hel id hle' (hsize ▸ hlt') with ⟨path, hpath⟩ | ⟨path, hpath⟩
    · exact ⟨path, hpath.mono hsub⟩
    -- a node below the element is below the container by way of it
    · have hdown : (d'.apply (.append c x)).Path c [x] x :=
        .down .stay (by rw [hchildren]; exact List.mem_append_right _ (List.mem_singleton_self x))
      exact ⟨path ++ [x], hdown.trans (hpath.mono hsub)⟩

/-- A new text becomes the last child of the container. -/
theorem addText (h : d.WellFormed) (hc : c < d.size) (content : String) :
    Grows true d c ((d.apply (.text content)).apply (.append c d.size)) := by
  have hsize : (d.apply (.text content)).size = d.size + 1 := size_apply _ _
  have hcreated : Grows false d c (d.apply (.text content)) :=
    created h hc (by omega)
      (fun id hid => (get?_text d content id).trans (if_neg (Nat.ne_of_lt hid)))
      (children_text d content)
  refine hcreated.append hc (Nat.le_refl _) (by omega) (fun p hp => ?_) fun _ id hle hlt => ?_
  · rw [children_text] at hp
    exact absurd (h.behind p _ hp).2 (Nat.lt_irrefl _)
  · obtain rfl : id = d.size := by omega
    exact .inr ⟨[], .stay⟩

/-- A change by a host function is made of edits in its own node. -/
theorem change (h : d.WellFormed) (hc : c < d.size) (ch : Change) :
    Grows true d c (d.applyAll (ch.edits c d.size)) := by
  cases ch with
  | «attribute» name value => exact modify h fun _ => ⟨rfl, rfl⟩
  | className value => exact modify h fun _ => ⟨rfl, rfl⟩
  | text content => exact addText h hc content

section Element

variable {d₀ d₃ : Document} {tag : String}

/-- A new element hangs nowhere yet, which is why the step is not whole. -/
theorem created_element (h : d.WellFormed) (hc : c < d.size) (tag : String) :
    Grows false d c (d.apply (.element tag)) := by
  have hsize : (d.apply (.element tag)).size = d.size + 1 := size_apply _ _
  exact created h hc (by omega)
    (fun id hid => (get?_element d tag id).trans (if_neg (Nat.ne_of_lt hid)))
    (children_element d tag)

/-- A new element that is filled in part, and lost. -/
theorem lost (h : d.WellFormed) (hc : c < d.size)
    (hinner : Grows whole (d.apply (.element tag)) d.size d₁) (houter : Grows whole' d₁ c d₂) :
    Grows false d c d₂ :=
  ((created_element h hc tag).inner hinner hc (Nat.le_refl _)).trans houter

/-- A new element that is filled, also after something has happened in the container, and becomes
the last child of the container. -/
theorem element (h : d.WellFormed) (hc : c < d.size)
    (hinner : Grows true (d.apply (.element tag)) d.size d₁) (houter : Grows true d₁ c d₂)
    (hlast : Grows true d₂ d.size d₃) : Grows true d c (d₃.apply (.append c d.size)) := by
  have hsize : (d.apply (.element tag)).size = d.size + 1 := size_apply _ _
  have hnew : ((d.apply (.element tag)).element? d.size).isSome := by
    rw [element?, get?_element, if_pos rfl]
    rfl
  have hnew₂ : (d₂.element? d.size).isSome :=
    houter.isSome_element?_of (hinner.isSome_element? hnew)
  have hcreated := created_element h hc tag
  -- each part goes on from the document that the one before has left
  have hgrows₁ : Grows false d c d₁ := hcreated.inner hinner hc (Nat.le_refl _)
  have hgrows₃ : Grows false d c d₃ :=
    (lost h hc hinner houter).inner hlast hc (Nat.le_refl _)
  have hle₁ := hinner.size
  have hle₂ := houter.size
  have hle₃ := hlast.size
  -- what is left to show: no parent has the element yet, and every new node is below one of the two
  refine hgrows₃.append hc (Nat.le_refl _) (by omega) (fun p hp => ?_) fun hel id hle hlt => ?_
  · have hlt := (hlast.wellFormed.behind p _ hp).1
    by_cases hpc : p = c
    · -- the container has got only younger children since the element was created
      subst hpc
      rw [children_congr (hlast.others p (by omega) (by omega))] at hp
      rcases houter.fresh _ hp with hold | hyoung
      · rw [children_congr (hinner.others p (by omega) (by omega)), children_element] at hold
        exact absurd (h.behind p _ hold).2 (Nat.lt_irrefl _)
      · omega
    · rw [children_congr (hgrows₃.others p hlt hpc)] at hp
      exact absurd (h.behind p _ hp).2 (Nat.lt_irrefl _)
  -- a new node was made while the element was filled, or outside of it, or at the end
  · have hmono : ∀ path, d₁.Path d.size path id → d₃.Path d.size path id := fun path hpath =>
      (hpath.mono houter.children_sub).mono hlast.children_sub
    rcases Nat.lt_or_ge id d₁.size with hlt₁ | hge₁
    · right
      rcases Nat.lt_or_ge d.size id with hlt₀ | hge₀
      · obtain ⟨path, hpath⟩ := hinner.reach rfl hnew id (by omega) hlt₁
        exact ⟨path, hmono path hpath⟩
      · obtain rfl : id = d.size := by omega
        exact ⟨[], .stay⟩
    · rcases Nat.lt_or_ge id d₂.size with hlt₂ | hge₂
      · obtain ⟨path, hpath⟩ := houter.reach rfl (hgrows₁.isSome_element? hel) id hge₁ hlt₂
        exact .inl ⟨path, hpath.mono hlast.children_sub⟩
      · exact .inr (hlast.reach rfl hnew₂ id hge₂ hlt)

end Element

end Grows

end Document

/-! ## Runs and documents -/

namespace Run

/-- The document in the state of a run that has begun with the document `before`. -/
def document (r : Run) (before : Document) : Document :=
  before.applyAll r.edits.reverse

/-- A run writes to a well-formed document, and knows where its next node will be. -/
structure Fits (r : Run) (before : Document) : Prop where
  next : r.next = (r.document before).size
  wellFormed : (r.document before).WellFormed

variable {r : Run} {before : Document}

theorem document_write (r : Run) (edit : Edit) (before : Document) :
    (r.write edit).document before = (r.document before).apply edit := by
  simp [document, write, Document.applyAll]

theorem document_writeAll (r : Run) (edits : List Edit) (before : Document) :
    (r.writeAll edits).document before = (r.document before).applyAll edits := by
  induction edits generalizing r with
  | nil => rfl
  | cons edit edits ih =>
    refine (ih (r.write edit)).trans ?_
    rw [document_write]
    rfl

/-- A run keeps count of the nodes, edit by edit. -/
theorem next_write (h : r.next = (r.document before).size) (edit : Edit) :
    (r.write edit).next = ((r.write edit).document before).size := by
  rw [document_write, Document.size_apply, ← h]
  rfl

theorem next_writeAll (h : r.next = (r.document before).size) (edits : List Edit) :
    (r.writeAll edits).next = ((r.writeAll edits).document before).size := by
  induction edits generalizing r with
  | nil => exact h
  | cons edit edits ih => exact ih (next_write h edit)

/-- A new element has the number that the run has foretold. -/
theorem Fits.create (h : r.Fits before) {c : Nat} (hc : c < (r.document before).size)
    (tag : String) : (r.write (.element tag)).Fits before ∧
      (r.next : Nat) < ((r.write (.element tag)).document before).size := by
  have hsize := Document.size_apply (r.document before) (.element tag)
  refine ⟨⟨next_write h.next _, ?_⟩, ?_⟩
  · rw [document_write]
    exact (Document.Grows.created_element h.wellFormed hc tag).wellFormed
  · rw [document_write, hsize, h.next]
    exact Nat.lt_succ_self _

/-- An old node still exists when a new element is filled. -/
theorem lt_size_of_inner {c : Nat} (hc : c < (r.document before).size)
    {whole : Bool} {el : NodeId} {tag : String} {d : Document}
    (hinner : ((r.write (.element tag)).document before).Grows whole el d) : c < d.size := by
  have hsize := hinner.size
  rw [document_write, Document.size_apply] at hsize
  exact Nat.lt_of_lt_of_le hc (Nat.le_trans (Nat.le_add_right _ _) hsize)

end Run

/-- **What effects do to a document.** -/
theorem Effect.grows {e : Engine} {names : String → Prop} {whole : Bool} {c : NodeId} {r s : Run}
    (h : Effect e names whole c r s) (hhost : e.host.Confined) {before : Document}
    (hr : r.Fits before) (hc : (c : Nat) < (r.document before).size) :
    (r.document before).Grows whole c (s.document before) ∧ s.Fits before := by
  induction h with
  | nothing => exact ⟨.refl hr.wellFormed, hr⟩
  | andThen _ _ ih ih' =>
    obtain ⟨hgrows, hs⟩ := ih hr hc
    obtain ⟨hgrows', ht⟩ := ih' hs (Nat.lt_of_lt_of_le hc hgrows.size)
    exact ⟨hgrows.trans hgrows', ht⟩
  | brokenOff _ ih => exact ⟨(ih hr hc).1.weaken, (ih hr hc).2⟩
  | @change _ c r ch =>
    have hgrows := Document.Grows.change hr.wellFormed hc ch
    rw [← hr.next, ← Run.document_writeAll] at hgrows
    exact ⟨hgrows, Run.next_writeAll hr.next _, hgrows.wellFormed⟩
  -- a function that edits freely is excluded by the host
  | called edits hfree => exact absurd hhost hfree
  | assign _ _ => exact ⟨.refl hr.wellFormed, hr.next, hr.wellFormed⟩
  | lookUp _ _ => exact ⟨.refl hr.wellFormed, hr.next, hr.wellFormed⟩
  | turn => exact ⟨.refl hr.wellFormed, hr.next, hr.wellFormed⟩
  | frame _ ih =>
    obtain ⟨hgrows, hs⟩ := ih ⟨hr.next, hr.wellFormed⟩ hc
    exact ⟨hgrows, hs.next, hs.wellFormed⟩
  | elsewhere _ _ ih =>
    obtain ⟨hgrows, hs⟩ := ih ⟨hr.next, hr.wellFormed⟩ hc
    exact ⟨hgrows, hs.next, hs.wellFormed⟩
  -- the three parts one after the other: what fills the element, what is written outside, what is
  -- written to it afterwards
  | @element _ c r s t u tag _ _ _ ih ih' ih'' =>
    have hcreated := hr.create hc tag
    obtain ⟨hinner, hs⟩ := ih hcreated.1 hcreated.2
    have hcs : (c : Nat) < (s.document before).size := Run.lt_size_of_inner hc hinner
    obtain ⟨houter, ht⟩ := ih' hs hcs
    have hnew := Nat.lt_of_lt_of_le (Nat.lt_of_lt_of_le hcreated.2 hinner.size) houter.size
    obtain ⟨hlast, hu⟩ := ih'' ht hnew
    rw [Run.document_write, hr.next] at hinner
    rw [hr.next] at hlast
    have hgrows := Document.Grows.element hr.wellFormed hc hinner houter hlast
    rw [← hr.next, ← Run.document_write] at hgrows
    exact ⟨hgrows, Run.next_write hu.next _, hgrows.wellFormed⟩
  | @lost _ _ _ c r s t tag _ _ ih ih' =>
    have hcreated := hr.create hc tag
    obtain ⟨hinner, hs⟩ := ih hcreated.1 hcreated.2
    obtain ⟨houter, ht⟩ := ih' hs (Run.lt_size_of_inner hc hinner)
    rw [Run.document_write, hr.next] at hinner
    exact ⟨.lost hr.wellFormed hc hinner houter, ht⟩

namespace Engine

open Document

/-- **What evaluation may do to the document.** A well-formed document stays well formed, whether
the evaluation comes to a value or not, so that the ways down end and trees are shown in full. Of
the old nodes only the container changes, which keeps its tag and its children and gets new ones
behind them. If there is a value and the container is an element, exactly one way leads from it to
each new node. -/
theorem eval_document (e : Engine) (hhost : e.host.Confined) (levels : Nat) (n : Node) {c : Nat}
    {r : Run} {before : Document} (hr : r.Fits before) (hc : c < (r.document before).size) :
    let m := e.eval levels n c
    let d := r.document before
    let d' := (m.after r).document before
    d'.WellFormed ∧ WellFounded (fun x p => x ∈ d'.children p) ∧
      (∀ depth id, d'.size ≤ depth → d'.treeTo depth id = d'.tree id) ∧ d.size ≤ d'.size ∧
      (∀ id : Nat, id < d.size → id ≠ c → d'.get? id = d.get? id) ∧
      (∀ el, d.element? c = some el →
        ∃ el', d'.element? c = some el' ∧ el'.tag = el.tag ∧ el.children <+: el'.children) ∧
      (d.element? c = none → d'.get? c = d.get? c) ∧
      ((m.outcome r).isOk → (d.element? c).isSome → ∀ id : Nat, d.size ≤ id → id < d'.size →
        ∃ path, d'.Path c path id ∧ ∀ path', d'.Path c path' id → path' = path) := by
  intro m d d'
  have hgrows := ((causes_eval e levels n c r).grows hhost hr hc).1
  have hwf := hgrows.wellFormed
  refine ⟨hwf, hwf.wellFounded, fun depth id hdepth => treeTo_eq_tree hwf hdepth id, hgrows.size,
    hgrows.others, hgrows.container, hgrows.text, fun hok hel id hle hlt => ?_⟩
  obtain ⟨path, hpath⟩ := hgrows.reach hok hel id hle hlt
  exact ⟨path, hpath, fun path' hpath' => hpath'.unique hpath hwf⟩

/-- In a document with an element in another one, the inner one gets an element with a class and a
text, whose content adds a rule and a text of the host to the container first. -/
theorem eval_document_nested :
    let host : Host := fun _ ctx _ =>
      ⟨[.attribute ctx.node "lang" "en", .text "host", .append ctx.node ctx.next],
        .ok (.string "deep")⟩
    let e : Engine := ⟨.standard, [], [], host, [("rule", .element "hr" [] .empty)], [], .standard⟩
    let n : Node := .element "b" [.attribute "class" (.leaf (.string "wide"))]
      (.text (.binary .add (.output .content [.expr (.render "rule")])
        (.call (.external (.function (.host "f"))) [])))
    let before := Document.empty.applyAll [.element "div", .element "p", .append 0 1]
    let r : Run := .start [] 2
    let m := e.eval 8 n 1
    let d := r.document before
    let d' := (m.after r).document before
    host.Confined ∧ r.Fits before ∧ 1 < d.size ∧ (m.outcome r).isOk = true ∧
      (d.element? 1).isSome = true ∧
      (d'.tree 0).html =
        "<div><p lang=\"en\"><hr />host<b class=\"wide\">deep</b></p></div>" ∧
      d'.WellFormed ∧ WellFounded (fun x p => x ∈ d'.children p) ∧
      (∀ depth id, d'.size ≤ depth → d'.treeTo depth id = d'.tree id) ∧ d.size ≤ d'.size ∧
      (∀ id : Nat, id < d.size → id ≠ 1 → d'.get? id = d.get? id) ∧
      (∀ el, d.element? 1 = some el →
        ∃ el', d'.element? 1 = some el' ∧ el'.tag = el.tag ∧ el.children <+: el'.children) ∧
      (d.element? 1 = none → d'.get? 1 = d.get? 1) ∧
      ((m.outcome r).isOk → (d.element? 1).isSome → ∀ id : Nat, d.size ≤ id → id < d'.size →
        ∃ path, d'.Path 1 path id ∧ ∀ path', d'.Path 1 path' id → path' = path) := by
  intro host e n before r m d d'
  have houter := WellFormed.empty.element "div"
  have hfree := houter.element "p"
  have hwf : before.WellFormed :=
    (Grows.element houter (by decide) (.refl hfree) (.refl hfree) (.refl hfree)).wellFormed
  have hr : r.Fits before := ⟨rfl, hwf⟩
  have hhost : host.Confined := fun _ _ _ => ⟨[.attribute "lang" "en", .text "host"], rfl⟩
  exact ⟨hhost, hr, by decide, rfl, rfl, by decide +kernel,
    eval_document e hhost 8 n hr (by decide)⟩

end Engine

end Stencil
