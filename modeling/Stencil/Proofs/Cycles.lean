import Mathlib
import Stencil.Engine.Build
import Stencil.Proofs.Depth
import Stencil.Proofs.Growth
/-!
# Documents without cycles

An engine can be asked to render into any position of a document, also into one that has no node
yet. As long as there is no node, what is appended to it is lost. But a rendering creates nodes
while it runs, and one of them may get that very position; from then on it gets what the rendering
appends, and this can be an element that it stands in, or itself.

`serveAll_acyclic_iff` tells exactly when this happens. Children are younger than their parents
(`Rising`), except for those of the position that is rendered into, and an older child of that
position has the position below itself. Where all children are younger every node can be shown
(`Rising.tree?_eq`); where a node stands below itself it cannot be shown, however far one goes down
(`treeWithin?_of_below_self`).
-/

namespace Stencil

namespace Document

variable {d d' d'' : Document} {p x c id : Nat}

/-- A node stands below another one. -/
def Below (d : Document) (p x : NodeId) : Prop :=
  Relation.TransGen (fun p x => x ∈ d.children p) p x

/-- No node stands below itself. -/
def Acyclic (d : Document) : Prop :=
  ∀ id, ¬d.Below id id

/-- Every child is a node behind its parent. -/
def Rising (d : Document) : Prop :=
  ∀ p x : Nat, x ∈ d.children p → p < x ∧ x < d.size

/-- A node has a child that is not younger than itself. -/
def HasOlderChild (d : Document) (c : NodeId) : Prop :=
  ∃ x ∈ d.children c, x ≤ c

/-! ## What can be shown -/

/-- A node is shown one level deeper by showing all its children. -/
theorem treeWithin?_succ (d : Document) (depth id : Nat) :
    d.treeWithin? (depth + 1) id =
      ((d.children id).mapM (d.treeWithin? depth)).map (d.treeOver id) := by
  rw [treeWithin?]
  cases (d.children id).mapM (d.treeWithin? depth) <;> rfl

/-- The bounded tree is built from those of the children in the same way. -/
theorem treeTo_succ_eq_treeOver (d : Document) (depth id : Nat) :
    d.treeTo (depth + 1) id = d.treeOver id ((d.children id).map (d.treeTo depth)) := by
  rw [treeTo, treeOver]
  rcases hget : d.get? id with - | (el | content)
  · rfl
  · rw [children_of_element? (by rw [element?, hget])]
  · rfl

/-- A position without a node is shown as missing, whatever stands below it. -/
theorem treeOver_of_none (h : d.get? id = none) (ts : List Tree) : d.treeOver id ts = .missing := by
  rw [treeOver, h]

theorem mapM_eq_some_map {α β : Type} {f : α → Option β} {g : α → β} {xs : List α}
    (h : ∀ x ∈ xs, f x = some (g x)) : xs.mapM f = some (xs.map g) := by
  induction xs with
  | nil => rfl
  | cons x xs ih =>
    rw [List.mapM_cons, h x List.mem_cons_self, ih fun y hy => h y (List.mem_cons_of_mem x hy)]
    rfl

/-- A list can be shown if each of its members can. -/
theorem isSome_mapM_iff {α β : Type} {f : α → Option β} {xs : List α} :
    (xs.mapM f).isSome ↔ ∀ x ∈ xs, (f x).isSome := by
  induction xs with
  | nil => simp
  | cons x xs ih =>
    rw [List.mapM_cons, List.forall_mem_cons, ← ih]
    cases f x with
    | none => simp
    | some y => cases xs.mapM f <;> simp

/-- Going down takes less depth. -/
theorem isSome_treeWithin?_of_below {depth : Nat} (h : (d.treeWithin? depth p).isSome)
    (hbelow : d.Below p x) : ∃ depth' < depth, (d.treeWithin? depth' x).isSome := by
  have hstep : ∀ {p x depth : Nat}, (d.treeWithin? depth p).isSome → x ∈ d.children p →
      ∃ depth' < depth, (d.treeWithin? depth' x).isSome := by
    intro p x depth h hx
    cases depth with
    | zero => cases h
    | succ depth =>
      rw [treeWithin?_succ, Option.isSome_map, isSome_mapM_iff] at h
      exact ⟨depth, Nat.lt_succ_self depth, h x hx⟩
  induction hbelow with
  | single hx => exact hstep h hx
  | tail _ hx ih =>
    obtain ⟨depth₁, hlt, h₁⟩ := ih
    obtain ⟨depth₂, hlt', h₂⟩ := hstep h₁ hx
    exact ⟨depth₂, Nat.lt_trans hlt' hlt, h₂⟩

/-- A node that stands below itself cannot be shown, however far one goes down. -/
theorem treeWithin?_of_below_self (h : d.Below id id) (depth : Nat) :
    d.treeWithin? depth id = none := by
  induction depth using Nat.strong_induction_on with
  | _ depth ih =>
    by_contra hne
    obtain ⟨depth', hlt, hsome⟩ :=
      isSome_treeWithin?_of_below (Option.isSome_iff_ne_none.mpr hne) h
    rw [ih depth' hlt] at hsome
    cases hsome

/-- What can be shown at all can be shown with a depth for every node that is not above it. -/
theorem isSome_treeWithin? {depth depth' : Nat} (h : (d.treeWithin? depth id).isSome)
    (above : Finset Nat) (habove : ∀ p ∈ above, p < d.size ∧ d.Below p id)
    (hdepth : d.size < above.card + depth') : (d.treeWithin? depth' id).isSome := by
  induction depth' generalizing id depth above with
  | zero =>
    have hsub : above ⊆ Finset.range d.size :=
      fun p hp => Finset.mem_range.mpr (habove p hp).1
    have hcard := Finset.card_le_card hsub
    rw [Finset.card_range] at hcard
    omega
  | succ depth' ih =>
    rw [treeWithin?_succ, Option.isSome_map, isSome_mapM_iff]
    intro x hx
    obtain ⟨depth₁, -, h₁⟩ := isSome_treeWithin?_of_below h (.single hx)
    have hid : id ∉ above := by
      intro hmem
      rw [treeWithin?_of_below_self (habove id hmem).2] at h
      cases h
    -- the node is above its children, and a new one there
    refine ih h₁ (insert id above) (fun p hp => ?_) ?_
    · rcases Finset.mem_insert.mp hp with rfl | hp
      · exact ⟨lt_size_of_mem_children hx, .single hx⟩
      · exact ⟨(habove p hp).1, (habove p hp).2.tail hx⟩
    · rw [Finset.card_insert_of_notMem hid]
      omega

/-- **The bound of `tree?` is no bound**: where it has no tree, no depth is enough. -/
theorem tree?_eq_none_iff : d.tree? id = none ↔ ∀ depth, d.treeWithin? depth id = none := by
  refine ⟨fun h depth => ?_, fun h => h _⟩
  by_contra hne
  have hsome : (d.tree? id).isSome :=
    isSome_treeWithin? (Option.isSome_iff_ne_none.mpr hne) ∅ (by simp) (by simp)
  rw [h] at hsome
  cases hsome

namespace Rising

/-- Below a node there are only younger ones. -/
theorem lt_of_below (h : d.Rising) (hbelow : d.Below p x) : p < x := by
  induction hbelow with
  | single hx => exact (h _ _ hx).1
  | tail _ hx ih => exact Nat.lt_trans ih (h _ _ hx).1

/-- A node is not younger than itself, and so it does not stand below itself. -/
theorem acyclic (h : d.Rising) : d.Acyclic :=
  fun _ hbelow => absurd (h.lt_of_below hbelow) (Nat.lt_irrefl _)

/-- Where children stand behind their parents every node can be shown, and the bound of `tree` is
never met. -/
theorem tree?_eq (h : d.Rising) (id : Nat) : d.tree? id = some (d.tree id) := by
  have hall : ∀ (depth id : Nat), d.size ≤ id + depth →
      d.treeWithin? (depth + 1) id = some (d.treeTo depth id) := by
    intro depth
    induction depth with
    | zero =>
      intro id hsize
      have hchildren : d.children id = [] := children_of_none (element?_of_size_le hsize)
      rw [treeWithin?_succ, hchildren, treeTo]
      exact congrArg some (treeOver_of_none (get?_eq_none hsize) [])
    | succ depth ih =>
      intro id hsize
      have hchildren : ∀ x ∈ d.children id,
          d.treeWithin? (depth + 1) x = some (d.treeTo depth x) := by
        intro x hx
        have hbehind := h id x hx
        exact ih x (by omega)
      rw [treeWithin?_succ, mapM_eq_some_map hchildren, treeTo_succ_eq_treeOver]
      rfl
  exact hall d.size id (Nat.le_add_left _ _)

/-- In the empty document nothing has children. -/
theorem empty : Document.empty.Rising := by
  intro p x hx
  cases hx

end Rising

/-- A new text is no element. -/
theorem element?_text_of_size_le (h : d.size ≤ c) (content : String) :
    (d.apply (.text content)).element? c = none := by
  by_cases hc : c = d.size
  · rw [element?, get?_text, if_pos hc]
  · rw [element?, get?_text, if_neg hc, get?_eq_none h]

/-- A change of a node that is not there yet does not make it an element. -/
theorem element?_change_of_size_le (ch : Change) (h : d.size ≤ c) :
    (d.applyAll (ch.edits c d.size)).element? c = none := by
  have hmodify : ∀ {d : Document} (f : Element → Element), d.element? c = none →
      (d.modify c f).element? c = none := by
    intro d f hnone
    rw [element?_modify, if_pos rfl, hnone]
    rfl
  cases ch with
  | text content => exact hmodify _ (element?_text_of_size_le h content)
  | _ => exact hmodify _ (element?_of_size_le h)

/-! ## Documents that go on -/

/-- A document goes on as another one: its nodes stay what they are, and no node loses a child. -/
structure Extends (d d' : Document) : Prop where
  size : d.size ≤ d'.size
  isSome_element? : ∀ id : Nat, id < d.size → (d'.element? id).isSome = (d.element? id).isSome
  children : ∀ p, d.children p ⊆ d'.children p

namespace Extends

theorem refl (d : Document) : d.Extends d :=
  ⟨Nat.le_refl _, fun _ _ => rfl, fun _ => List.Subset.refl _⟩

theorem trans (h : d.Extends d') (h' : d'.Extends d'') : d.Extends d'' where
  size := Nat.le_trans h.size h'.size
  isSome_element? id hid :=
    (h'.isSome_element? id (Nat.lt_of_lt_of_le hid h.size)).trans (h.isSome_element? id hid)
  children p := List.Subset.trans (h.children p) (h'.children p)

/-- To change one node so that it keeps its children is to go on. -/
theorem modify (d : Document) (node : NodeId) (f : Element → Element)
    (hf : ∀ el, el.children ⊆ (f el).children) : d.Extends (d.modify node f) where
  size := Nat.le_of_eq Array.size_modify.symm
  isSome_element? id _ := by
    rw [element?_modify]
    split <;> simp
  children p := by
    rw [Document.children, Document.children, element?_modify]
    by_cases hp : node = p
    · rw [if_pos hp]
      cases d.element? p with
      | none => exact List.Subset.refl _
      | some el => exact hf el
    · rw [if_neg hp]
      exact List.Subset.refl _

theorem apply (d : Document) (edit : Edit) : d.Extends (d.apply edit) := by
  cases edit with
  | element tag =>
    refine ⟨by rw [size_apply]; exact Nat.le_add_right _ _, fun id hid => ?_, fun p => ?_⟩
    · rw [element?_congr ((get?_element d tag id).trans (if_neg (Nat.ne_of_lt hid)))]
    · rw [children_element]
      exact List.Subset.refl _
  | text content =>
    refine ⟨by rw [size_apply]; exact Nat.le_add_right _ _, fun id hid => ?_, fun p => ?_⟩
    · rw [element?_congr ((get?_text d content id).trans (if_neg (Nat.ne_of_lt hid)))]
    · rw [children_text]
      exact List.Subset.refl _
  | append parent child => exact modify d parent _ fun _ => List.subset_append_left _ _
  | «attribute» node name value => exact modify d node _ fun _ => List.Subset.refl _
  | className node value => exact modify d node _ fun _ => List.Subset.refl _

/-- No edit takes anything away. -/
theorem applyAll (d : Document) (edits : List Edit) : d.Extends (d.applyAll edits) := by
  induction edits generalizing d with
  | nil => exact refl d
  | cons edit edits ih => exact (apply d edit).trans (ih _)

/-- What stands below a node stays below it. -/
theorem below (h : d.Extends d') (hbelow : d.Below p x) : d'.Below p x :=
  Relation.TransGen.mono (fun p _ hx => h.children p hx) _ _ hbelow

/-- What is no element in the end was none before. -/
theorem element?_eq_none (h : d.Extends d') (hnone : d'.element? id = none) :
    d.element? id = none := by
  rcases Nat.lt_or_ge id d.size with hid | hid
  · have hsame := h.isSome_element? id hid
    rw [hnone, Option.isSome_none] at hsame
    exact Option.isSome_eq_false_iff.mp hsame.symm |> Option.isNone_iff_eq_none.mp
  · exact element?_of_size_le hid

/-- A cycle is never undone. -/
theorem acyclic (h : d.Extends d') (hacyclic : d'.Acyclic) : d.Acyclic :=
  fun id hbelow => hacyclic id (h.below hbelow)

/-- An older child is never taken away. -/
theorem hasOlderChild (h : d.Extends d') (hc : d.HasOlderChild c) : d'.HasOlderChild c := by
  obtain ⟨x, hx, hle⟩ := hc
  exact ⟨x, h.children c hx, hle⟩

end Extends

namespace Rising

/-- Only sizes and children matter for the order. -/
theorem of_children (h : d.Rising) (hsize : d.size ≤ d'.size)
    (hchildren : ∀ p, d'.children p = d.children p) : d'.Rising := by
  intro p x hx
  rw [hchildren] at hx
  exact ⟨(h p x hx).1, Nat.lt_of_lt_of_le (h p x hx).2 hsize⟩

/-- A new element has no children yet. -/
theorem created (h : d.Rising) (tag : String) : (d.apply (.element tag)).Rising :=
  h.of_children (Extends.apply d _).size (children_element d tag)

/-- A node is appended to an older one, or to none. -/
theorem append (h : d.Rising) (hx : x < d.size) (hc : c < x ∨ d.element? c = none) :
    (d.apply (.append c x)).Rising := by
  rcases hc with hlt | hnone
  · intro p y hy
    rw [size_apply]
    rcases mem_children_append hy with hy | ⟨rfl, rfl⟩
    · exact h p y hy
    · exact ⟨hlt, hx⟩
  · exact h.of_children (Extends.apply d _).size fun p =>
      children_congr (get?_append_of_none hnone x p)

/-- The text that a change creates is younger than its container. -/
theorem change (h : d.Rising) (c : NodeId) (ch : Change) :
    (d.applyAll (ch.edits c d.size)).Rising := by
  have hextends := Extends.applyAll d (ch.edits c d.size)
  cases ch with
  | «attribute» name value =>
    refine h.of_children hextends.size (children_modify ?_ d c)
    exact fun _ => rfl
  | className value =>
    refine h.of_children hextends.size (children_modify ?_ d c)
    exact fun _ => rfl
  | text content =>
    have htext : (d.apply (.text content)).Rising :=
      h.of_children (Extends.apply d _).size (children_text d content)
    refine htext.append (by rw [size_apply]; exact Nat.lt_succ_self _) ?_
    rcases Nat.lt_or_ge c d.size with hlt | hge
    · exact .inl hlt
    · exact .inr (element?_text_of_size_le hge content)

/-- In the order of creation no child is older than its parent. -/
theorem not_hasOlderChild (h : d.Rising) (c : NodeId) : ¬d.HasOlderChild c := by
  rintro ⟨x, hx, hle⟩
  exact absurd (h c x hx).1 (Nat.not_lt_of_le hle)

end Rising

/-! ## What is appended is below -/

/-- A node that is there gets what is appended to it. -/
theorem mem_children_append_self (h : (d.element? c).isSome) (x : NodeId) :
    x ∈ (d.apply (.append c x)).children c := by
  obtain ⟨el, hel⟩ := Option.isSome_iff_exists.mp h
  rw [children_append_self hel]
  exact List.mem_append_right _ List.mem_cons_self

/-- The node that a change creates, if it creates one, is below the node that is changed. -/
theorem below_change (ch : Change)
    (hel : ((d.applyAll (ch.edits c d.size)).element? c).isSome) (hle : d.size ≤ x)
    (hx : x < (d.applyAll (ch.edits c d.size)).size) :
    (d.applyAll (ch.edits c d.size)).Below c x := by
  cases ch with
  | «attribute» name value =>
    have hsize : (d.applyAll (Change.edits c d.size (.attribute name value))).size = d.size :=
      size_apply d (.attribute c name value)
    omega
  | className value =>
    have hsize : (d.applyAll (Change.edits c d.size (.className value))).size = d.size :=
      size_apply d (.className c value)
    omega
  | text content =>
    have hedits : d.applyAll (Change.edits c d.size (.text content)) =
        (d.apply (.text content)).apply (.append c d.size) := rfl
    have happend := Extends.apply (d.apply (.text content)) (.append c d.size)
    rw [hedits] at hel hx ⊢
    have hc := lt_size_of_isSome hel
    rw [size_apply] at hc hx
    rw [happend.isSome_element? c hc] at hel
    rw [size_apply] at hx
    obtain rfl : x = d.size := Nat.le_antisymm (Nat.le_of_lt_succ hx) hle
    exact .single (mem_children_append_self hel _)

end Document

open Document

/-! ## What effects do to the order of children -/

namespace Run

variable {r : Run} {before : Document}

/-- A document grows by one node for an element. -/
theorem size_create (r : Run) (tag : String) (before : Document) :
    ((r.write (.element tag)).document before).size = (r.document before).size + 1 := by
  rw [document_write, size_apply]
  rfl

/-- A new element has the position that comes next. -/
theorem next_lt_size_create (h : r.next = (r.document before).size) (tag : String) :
    (r.next : Nat) < ((r.write (.element tag)).document before).size := by
  rw [size_create, h]
  exact Nat.lt_succ_self _

end Run

namespace Effect

variable {e : Engine} {names : String → Prop} {whole : Bool} {c : NodeId} {r s : Run}
variable {before : Document}

/-- Whatever a rendering does, the document goes on. -/
theorem extends_document (h : Effect e names whole c r s) (before : Document) :
    (r.document before).Extends (s.document before) := by
  obtain ⟨new, hnew⟩ := h.edits_suffix
  have hdocument : s.document before = (r.document before).applyAll new.reverse := by
    rw [Run.document, ← hnew, List.reverse_append, Document.applyAll, List.foldl_append]
    rfl
  rw [hdocument]
  exact .applyAll _ _

/-- The next number to be given away stays the size of the document. -/
theorem next_eq (h : Effect e names whole c r s) (hr : r.next = (r.document before).size) :
    s.next = (s.document before).size := by
  induction h with
  | nothing => exact hr
  | andThen _ _ ih ih' => exact ih' (ih hr)
  | brokenOff _ ih => exact ih hr
  | change ch => exact Run.next_writeAll hr _
  | called edits _ => exact Run.next_writeAll hr _
  | assign _ _ => exact hr
  | lookUp _ _ => exact hr
  | turn => exact hr
  | frame _ ih => exact ih hr
  | elsewhere _ _ ih => exact ih hr
  | element tag _ _ _ ih ih' ih'' => exact Run.next_write (ih'' (ih' (ih (Run.next_write hr _)))) _
  | lost tag _ _ ih ih' => exact ih' (ih (Run.next_write hr _))

/-- While a new element is filled it is a node of the document. -/
theorem size_lt_of_filled {tag : String} (h : Effect e names whole c (r.write (.element tag)) s)
    (before : Document) : (r.document before).size < (s.document before).size := by
  refine Nat.lt_of_lt_of_le ?_ (h.extends_document before).size
  rw [Run.size_create]
  exact Nat.lt_succ_self _

/-- **Children are younger than their parents** as long as the container exists from the beginning
or is no element in the end. -/
theorem rising (h : Effect e names whole c r s) (hhost : e.host.Confined)
    (hr : r.next = (r.document before).size) (hrising : (r.document before).Rising)
    (hc : (c : Nat) < (r.document before).size ∨ (s.document before).element? c = none) :
    (s.document before).Rising := by
  induction h with
  | nothing => exact hrising
  | andThen h h' ih ih' =>
    refine ih' (h.next_eq hr) (ih hr hrising (hc.imp_right ?_)) (hc.imp_left ?_)
    · exact (h'.extends_document before).element?_eq_none
    · exact fun hlt => Nat.lt_of_lt_of_le hlt (h.extends_document before).size
  | brokenOff _ ih => exact ih hr hrising hc
  | change ch =>
    rw [Run.document_writeAll, hr]
    exact hrising.change _ ch
  | called _ hwide => exact absurd hhost hwide
  | assign _ _ => exact hrising
  | lookUp _ _ => exact hrising
  | turn => exact hrising
  | frame _ ih => exact ih hr hrising hc
  | elsewhere _ _ ih => exact ih hr hrising hc
  -- the new element is appended last, and all that was made meanwhile has a greater number
  | @element _ c r s t u tag h h' h'' ih ih' ih'' =>
    have hr₀ := Run.next_write hr (.element tag)
    have hnew := Run.next_lt_size_create hr tag
    have hs := h.size_lt_of_filled before
    have ht := (h'.extends_document before).size
    have hu := (h''.extends_document before).size
    rw [Run.document_write, hr] at hc ⊢
    replace hc := hc.imp_right (Extends.apply _ (.append c _)).element?_eq_none
    have hfilled : (s.document before).Rising :=
      ih hr₀ (Run.document_write r _ before ▸ hrising.created tag) (.inl hnew)
    have houter : (t.document before).Rising := by
      refine ih' (h.next_eq hr₀) hfilled (hc.imp (fun hlt => Nat.lt_trans hlt hs) ?_)
      exact (h''.extends_document before).element?_eq_none
    have hlast : (u.document before).Rising :=
      ih'' (h'.next_eq (h.next_eq hr₀)) houter (.inl (hr ▸ Nat.lt_of_lt_of_le hs ht))
    exact hlast.append (by omega) hc
  | @lost _ _ _ c r s t tag h h' ih ih' =>
    have hr₀ := Run.next_write hr (.element tag)
    have hnew := Run.next_lt_size_create hr tag
    have hs := h.size_lt_of_filled before
    have hfilled : (s.document before).Rising :=
      ih hr₀ (Run.document_write r _ before ▸ hrising.created tag) (.inl hnew)
    exact ih' (h.next_eq hr₀) hfilled (hc.imp_left fun hlt => Nat.lt_trans hlt hs)

/-- **New nodes are below the container**, from the time on when the container is an element, if
nothing breaks off. A container that is created meanwhile comes to stand below itself. -/
theorem below_container (h : Effect e names whole c r s) (hhost : e.host.Confined)
    (hwhole : whole = true) (hr : r.next = (r.document before).size)
    (hel : ((s.document before).element? c).isSome) {x : Nat}
    (hle : (r.document before).size ≤ x) (hcx : (c : Nat) ≤ x)
    (hx : x < (s.document before).size) : (s.document before).Below c x := by
  induction h generalizing x with
  | nothing => omega
  | @andThen _ _ c r s t h h' ih ih' =>
    rcases Nat.lt_or_ge x (s.document before).size with hlt | hge
    · have hextends := h'.extends_document before
      rw [hextends.isSome_element? c (Nat.lt_of_le_of_lt hcx hlt)] at hel
      exact hextends.below (ih rfl hr hel hle hcx hlt)
    · exact ih' hwhole (h.next_eq hr) hel hge hcx hx
  | brokenOff => cases hwhole
  | change ch =>
    rw [Run.document_writeAll, hr] at hel hx ⊢
    exact below_change ch hel hle hx
  | called _ hwide => exact absurd hhost hwide
  | assign _ _ => exact absurd hx (Nat.not_lt_of_le hle)
  | lookUp _ _ => exact absurd hx (Nat.not_lt_of_le hle)
  | turn => exact absurd hx (Nat.not_lt_of_le hle)
  | frame _ ih => exact ih hwhole hr hel hle hcx hx
  | elsewhere _ _ ih => exact ih hwhole hr hel hle hcx hx
  | @element _ c r s t u tag h h' h'' ih ih' ih'' =>
    have hr₀ := Run.next_write hr (.element tag)
    have hs := h.extends_document before
    have ht := h'.extends_document before
    have hu := h''.extends_document before
    have happend := Extends.apply (u.document before) (.append c r.next)
    have hcreated : (((r.write (.element tag)).document before).element? r.next).isSome := by
      rw [Run.document_write, hr, element?, get?_element, if_pos rfl]
      rfl
    have hnew := Run.next_lt_size_create hr tag
    rw [Run.document_write] at hel hx ⊢
    have hxu : x < (u.document before).size := by rwa [size_apply] at hx
    -- the container is an element already when the new one is appended
    rw [happend.isSome_element? c (Nat.lt_of_le_of_lt hcx hxu)] at hel
    have hchild : Below ((u.document before).apply (.append c r.next)) c r.next :=
      .single (mem_children_append_self hel r.next)
    rcases Nat.eq_or_lt_of_le hle with heq | hlt
    · obtain rfl : x = r.next := heq.symm.trans hr.symm
      exact hchild
    have hnx : (r.next : Nat) ≤ x := hr ▸ hle
    rcases Nat.lt_or_ge x (s.document before).size with hxs | hxs
    · rw [← hs.isSome_element? r.next hnew] at hcreated
      have hbelow := ih rfl hr₀ hcreated (Run.size_create r tag before ▸ hlt) hnx hxs
      exact hchild.trans (happend.below (hu.below (ht.below hbelow)))
    rcases Nat.lt_or_ge x (t.document before).size with hxt | hxt
    · rw [hu.isSome_element? c (Nat.lt_of_le_of_lt hcx hxt)] at hel
      have hbelow := ih' rfl (h.next_eq hr₀) hel hxs hcx hxt
      exact happend.below (hu.below hbelow)
    · have hextends := hs.trans (ht.trans hu)
      rw [← hextends.isSome_element? r.next hnew] at hcreated
      have hbelow := ih'' rfl (h'.next_eq (h.next_eq hr₀)) hcreated hxt hnx hxu
      exact hchild.trans (happend.below hbelow)
  | lost => cases hwhole

/-- **A container that is created meanwhile has an older child**, if nothing breaks off: the element
that it was created in, or created as, is appended to it in the end. -/
theorem hasOlderChild (h : Effect e names whole c r s) (hhost : e.host.Confined)
    (hwhole : whole = true) (hr : r.next = (r.document before).size)
    (hsize : (r.document before).size ≤ c) (hel : ((s.document before).element? c).isSome) :
    (s.document before).HasOlderChild c := by
  have hlt := lt_size_of_isSome hel
  induction h with
  | nothing => exact absurd hlt (Nat.not_lt_of_le hsize)
  -- the container came to be in one of the two parts, and children stay
  | @andThen _ _ c r s t h h' ih ih' =>
    have hextends := h'.extends_document before
    rcases Nat.lt_or_ge c (s.document before).size with hcs | hcs
    · rw [hextends.isSome_element? c hcs] at hel
      exact hextends.hasOlderChild (ih rfl hr hsize hel hcs)
    · exact ih' hwhole (h.next_eq hr) hcs hel hlt
  | brokenOff => cases hwhole
  | change ch =>
    rw [Run.document_writeAll, hr, element?_change_of_size_le ch hsize] at hel
    cases hel
  | called _ hwide => exact absurd hhost hwide
  | assign _ _ => exact absurd hlt (Nat.not_lt_of_le hsize)
  | lookUp _ _ => exact absurd hlt (Nat.not_lt_of_le hsize)
  | turn => exact absurd hlt (Nat.not_lt_of_le hsize)
  | frame _ ih => exact ih hwhole hr hsize hel hlt
  | elsewhere _ _ ih => exact ih hwhole hr hsize hel hlt
  -- the element that is appended last is as old as the container, or older
  | @element _ c r s t u =>
    rw [Run.document_write] at hel hlt ⊢
    rw [size_apply] at hlt
    rw [(Extends.apply _ (.append c r.next)).isSome_element? c hlt] at hel
    exact ⟨r.next, mem_children_append_self hel _, hr ▸ hsize⟩
  | lost => cases hwhole

/-- Either all children are younger than their parents, or the container has an older one and
stands below itself. -/
theorem rising_or_below (h : Effect e names whole c r s) (hhost : e.host.Confined)
    (hr : r.next = (r.document before).size) (hrising : (r.document before).Rising) :
    (s.document before).Rising ∨
      (s.document before).HasOlderChild c ∧ (s.document before).Below c c := by
  induction h with
  | nothing => exact .inl hrising
  | andThen h h' ih ih' =>
    have hextends := h'.extends_document before
    rcases ih hr hrising with hs | ⟨holder, hbelow⟩
    · exact ih' (h.next_eq hr) hs
    · exact .inr ⟨hextends.hasOlderChild holder, hextends.below hbelow⟩
  | brokenOff _ ih => exact ih hr hrising
  | change ch =>
    rw [Run.document_writeAll, hr]
    exact .inl (hrising.change _ ch)
  | called _ hwide => exact absurd hhost hwide
  | assign _ _ => exact .inl hrising
  | lookUp _ _ => exact .inl hrising
  | turn => exact .inl hrising
  | frame _ ih => exact ih hr hrising
  | elsewhere _ _ ih => exact ih hr hrising
  -- a container that is not there before its element is made may be this very element, and comes
  -- below itself
  | @element names c r s t u tag h h' h'' _ _ _ =>
    have hwhole := Effect.element tag h h' h''
    rcases Nat.lt_or_ge c (r.document before).size with hlt | hge
    · exact .inl (hwhole.rising hhost hr hrising (.inl hlt))
    cases hel : ((u.write (.append c r.next)).document before).element? c with
    | none => exact .inl (hwhole.rising hhost hr hrising (.inr hel))
    | some el =>
      replace hel := Option.isSome_of_eq_some hel
      exact .inr ⟨hwhole.hasOlderChild hhost rfl hr hge hel,
        hwhole.below_container hhost rfl hr hel hge (Nat.le_refl c) (lt_size_of_isSome hel)⟩
  | @lost _ _ _ c r s t tag h h' ih ih' =>
    have hr₀ := Run.next_write hr (.element tag)
    have hnew := Run.next_lt_size_create hr tag
    have hcreated := hrising.created tag
    rw [← Run.document_write] at hcreated
    exact ih' (h.next_eq hr₀) (h.rising hhost hr₀ hcreated (.inl hnew))

end Effect

/-! ## Renderings one after the other -/

namespace Engine

open Rendering

/-- What an engine is asked to render: a template, with variables, into a position of the document
or into a new container. -/
structure Request where
  name : String
  frame : Frame
  container : Option NodeId

variable {e : Engine} {d : Document} {q : Request}

/-- What comes of a request in a document. -/
def answer (e : Engine) (d : Document) (q : Request) : Rendered :=
  e.render q.name q.frame d.size q.container

/-- The document after a request. -/
def serve (e : Engine) (d : Document) (q : Request) : Document :=
  (e.answer d q).document d

/-- The document after requests one after the other. -/
def serveAll (e : Engine) (qs : List Request) : Document :=
  qs.foldl e.serve .empty

/-- A request closes a cycle: it is for a position without a node, and has appended to it a node
that is not younger than the one which it has created there. -/
def Closes (e : Engine) (d : Document) (q : Request) : Prop :=
  ∃ k : Nat, q.container = some k ∧ d.size ≤ k ∧ (e.serve d q).HasOlderChild k

/-- A rendering into a container has its effects in that container. -/
theorem causes_renderIn (e : Engine) (name : String) (c : NodeId) :
    Causes e (fun _ => True) c (e.renderIn name c) :=
  causes_evalTemplate name fun root => causes_eval_any e _ root c

/-- What a request does is an effect in its container. If the request brings none, the container is
there before the effect begins. -/
theorem exists_effect (e : Engine) (d : Document) (q : Request)
    (hknown : e.hasTemplate q.name = true) :
    ∃ (c : NodeId) (r s : Run), Effect e (fun _ => True) (e.answer d q).outcome.isOk c r s ∧
      r.next = (r.document d).size ∧ e.serve d q = s.document d ∧
      (d.Rising → (r.document d).Rising) ∧
      (q.container = some c ∧ r.document d = d ∨
        q.container = none ∧ (c : Nat) < (r.document d).size) := by
  obtain ⟨name, frame, container⟩ := q
  have hanswer : e.answer d ⟨name, frame, container⟩ =
      .ofRun (e.renderRun name container (.start frame d.size)) := if_pos hknown
  have houtcome : ∀ (m : Rendering NodeId) r,
      (Rendered.ofRun (m r)).outcome.isOk = (m.outcome r).isOk := by
    intro m r
    unfold Rendered.ofRun outcome
    cases m r <;> rfl
  rw [serve, hanswer, Rendered.document, edits_ofRun, houtcome]
  have hbody : ∀ c, Causes e (fun _ => True) c (do e.renderIn name c; return c) :=
    fun c => (causes_renderIn e name c).bind fun _ => .pure c
  cases container with
  | some k => exact ⟨k, _, _, hbody k _, rfl, rfl, id, .inl ⟨rfl, rfl⟩⟩
  -- without a container, the run starts with the element and the class of its own one
  | none =>
    let edits : List Edit :=
      [.element e.settings.containerTag, .className d.size e.settings.containerClass]
    let r := (Run.start frame d.size).writeAll edits
    have hrun : e.renderRun name none (.start frame d.size) =
        (do e.renderIn name d.size; return d.size : Rendering NodeId) r := rfl
    have hdocument : r.document d = d.applyAll edits := Run.document_writeAll _ _ _
    -- the class is an edit as well, but makes no node
    have hsize : (r.document d).size = d.size + 1 := by
      rw [hdocument, applyAll, List.foldl_cons, List.foldl_cons, List.foldl_nil, size_apply,
        size_apply]
      rfl
    refine ⟨d.size, r, _, ?_, Run.next_writeAll rfl _, rfl, fun hrising => ?_, .inr ⟨rfl, ?_⟩⟩
    · rw [outcome, after, hrun]
      exact hbody d.size r
    · rw [hdocument]
      exact (hrising.created _).change d.size (.className e.settings.containerClass)
    · exact hsize ▸ Nat.lt_succ_self d.size

/-- A request for a template that there is not leaves no trace. -/
theorem serve_of_unknown (h : e.hasTemplate q.name = false) :
    e.serve d q = d ∧ (e.answer d q).outcome.isOk = false := by
  rw [serve, answer, render, h]
  exact ⟨rfl, rfl⟩

/-- A request takes nothing away from the document. -/
theorem extends_serve (e : Engine) (d : Document) (q : Request) : d.Extends (e.serve d q) :=
  .applyAll d _

/-- Requests may be served in two rounds. -/
theorem serveAll_append (e : Engine) (qs qs' : List Request) :
    e.serveAll (qs ++ qs') = qs'.foldl e.serve (e.serveAll qs) :=
  List.foldl_append

/-- So do requests one after the other. -/
theorem extends_foldl_serve (e : Engine) (d : Document) (qs : List Request) :
    d.Extends (qs.foldl e.serve d) := by
  induction qs generalizing d with
  | nil => exact .refl d
  | cons q qs ih => exact (e.extends_serve d q).trans (ih _)

/-- A request that closes no cycle keeps children behind their parents. -/
theorem rising_serve (hhost : e.host.Confined) (hrising : d.Rising) (hq : ¬e.Closes d q) :
    (e.serve d q).Rising := by
  cases hknown : e.hasTemplate q.name with
  | false => rwa [(serve_of_unknown hknown).1]
  | true =>
    obtain ⟨c, r, s, heffect, hr, hserve, hstart, hcontainer⟩ := exists_effect e d q hknown
    rcases Nat.lt_or_ge c (r.document d).size with hlt | hge
    · exact hserve ▸ heffect.rising hhost hr (hstart hrising) (.inl hlt)
    rcases heffect.rising_or_below hhost hr (hstart hrising) with hs | ⟨holder, -⟩
    · rwa [hserve]
    · rcases hcontainer with ⟨hc, hsame⟩ | ⟨-, hlt⟩
      · exact absurd ⟨c, hc, hsame ▸ hge, hserve ▸ holder⟩ hq
      · exact absurd hge (Nat.not_le_of_lt hlt)

/-- One that closes a cycle leaves a node that stands below itself. -/
theorem below_serve (hhost : e.host.Confined) (hrising : d.Rising) (hq : e.Closes d q) :
    ∃ k, (e.serve d q).Below k k := by
  obtain ⟨k, hk, -, holder⟩ := hq
  cases hknown : e.hasTemplate q.name with
  | false =>
    rw [(serve_of_unknown hknown).1] at holder
    exact absurd holder (hrising.not_hasOlderChild k)
  | true =>
    obtain ⟨c, r, s, heffect, hr, hserve, hstart, hcontainer⟩ := exists_effect e d q hknown
    rw [hserve] at holder ⊢
    rcases heffect.rising_or_below hhost hr (hstart hrising) with hs | ⟨-, hbelow⟩
    · exact absurd holder (hs.not_hasOlderChild k)
    · exact ⟨c, hbelow⟩

/-- A request for a node, for a new container, or for a position at which no element is created,
closes no cycle. -/
theorem Closes.isElement (hq : e.Closes d q) :
    ∃ k : Nat, q.container = some k ∧ d.size ≤ k ∧ ((e.serve d q).element? k).isSome := by
  obtain ⟨k, hk, hsize, x, hx, -⟩ := hq
  refine ⟨k, hk, hsize, ?_⟩
  cases hel : (e.serve d q).element? k with
  | none =>
    rw [children_of_none hel] at hx
    cases hx
  | some el => rfl

/-- If nothing has failed, a request closes a cycle exactly if it has created an element at its
position. -/
theorem closes_iff (hhost : e.host.Confined) {k : Nat} (hk : q.container = some k)
    (hsize : d.size ≤ k) (hok : (e.answer d q).outcome.isOk = true) :
    e.Closes d q ↔ ((e.serve d q).element? k).isSome := by
  constructor
  · intro hq
    obtain ⟨k', hk', -, hel⟩ := hq.isElement
    obtain rfl : k = k' := Option.some.inj (hk.symm.trans hk')
    exact hel
  · intro hel
    cases hknown : e.hasTemplate q.name with
    | false =>
      rw [(serve_of_unknown hknown).2] at hok
      cases hok
    | true =>
      obtain ⟨c, r, s, heffect, hr, hserve, -, hcontainer⟩ := exists_effect e d q hknown
      rw [hok] at heffect
      rcases hcontainer with ⟨hc, hsame⟩ | ⟨hnone, -⟩
      · obtain rfl : k = c := Option.some.inj (hk.symm.trans hc)
        rw [hserve] at hel
        have holder := heffect.hasOlderChild hhost rfl hr (hsame.symm ▸ hsize) hel
        exact ⟨k, hk, hsize, hserve ▸ holder⟩
      · rw [hk] at hnone
        cases hnone

/-- The document after some of the requests goes on as the document after all. -/
theorem extends_serveAll (e : Engine) (qs qs' : List Request) :
    (e.serveAll qs).Extends (e.serveAll (qs ++ qs')) := by
  rw [serveAll_append]
  exact extends_foldl_serve e _ qs'

/-- The last request is served by the document that the others have left. -/
theorem serveAll_concat (e : Engine) (qs : List Request) (q : Request) :
    e.serveAll (qs ++ [q]) = e.serve (e.serveAll qs) q :=
  serveAll_append e qs [q]

/-- Requests none of which closes a cycle keep children behind their parents. -/
theorem rising_serveAll (hhost : e.host.Confined) {qs : List Request}
    (h : ∀ before q after, qs = before ++ q :: after → ¬e.Closes (e.serveAll before) q) :
    (e.serveAll qs).Rising := by
  induction qs using List.reverseRecOn with
  | nil => exact .empty
  | append_singleton qs q ih =>
    rw [serveAll_concat]
    refine rising_serve hhost (ih fun before q' after hqs => ?_) (h qs q [] rfl)
    exact h before q' (after ++ [q]) (by rw [hqs, List.append_assoc, List.cons_append])

/-- There is no other way to have no cycle. -/
theorem rising_of_acyclic (hhost : e.host.Confined) {qs : List Request}
    (h : (e.serveAll qs).Acyclic) : (e.serveAll qs).Rising := by
  induction qs using List.reverseRecOn with
  | nil => exact .empty
  | append_singleton qs q ih =>
    have hrising := ih ((extends_serveAll e qs [q]).acyclic h)
    rw [serveAll_concat] at h ⊢
    refine rising_serve hhost hrising fun hq => ?_
    obtain ⟨k, hbelow⟩ := below_serve hhost hrising hq
    exact h k hbelow

/-- **Unknown containers are harmless as long as they stay unknown.** Whatever an engine is asked
to render into a document, from the empty one on, the document has no cycle if and only if no
request has closed one. Then every node can be shown, and `tree` shows it; else there is one that
cannot, however far one goes down. Only a request for a position without a node can close a cycle,
and only by creating an element at this position; one that does so, and does not fail, does close
one. -/
theorem serveAll_acyclic_iff (e : Engine) (hhost : e.host.Confined) (qs : List Request) :
    ((e.serveAll qs).Acyclic ↔
        ∀ before q after, qs = before ++ q :: after → ¬e.Closes (e.serveAll before) q) ∧
      ((e.serveAll qs).Acyclic →
        ∀ id, (e.serveAll qs).tree? id = some ((e.serveAll qs).tree id)) ∧
      (¬(e.serveAll qs).Acyclic → ∃ id, (e.serveAll qs).tree? id = none) ∧
      (∀ id, (e.serveAll qs).tree? id = none ↔
        ∀ depth, (e.serveAll qs).treeWithin? depth id = none) ∧
      (∀ q : Request, e.Closes (e.serveAll qs) q → ∃ k : Nat, q.container = some k ∧
        (e.serveAll qs).size ≤ k ∧ ((e.serve (e.serveAll qs) q).element? k).isSome) ∧
      (∀ (q : Request) (k : Nat), q.container = some k → (e.serveAll qs).size ≤ k →
        (e.answer (e.serveAll qs) q).outcome.isOk = true →
        (e.Closes (e.serveAll qs) q ↔ ((e.serve (e.serveAll qs) q).element? k).isSome)) := by
  refine ⟨⟨fun hacyclic before q after hqs hq => ?_, fun h => (rising_serveAll hhost h).acyclic⟩,
    fun hacyclic => (rising_of_acyclic hhost hacyclic).tree?_eq, fun hcyclic => ?_,
    fun _ => tree?_eq_none_iff, fun q hq => hq.isElement,
    fun q k hk hsize hok => closes_iff hhost hk hsize hok⟩
  · have hbefore : (e.serveAll before).Rising := by
      refine rising_of_acyclic hhost ((extends_serveAll e before (q :: after)).acyclic ?_)
      rwa [← hqs]
    obtain ⟨k, hbelow⟩ := below_serve hhost hbefore hq
    -- the cycle stays, whatever is asked afterwards
    have hextends := extends_serveAll e (before ++ [q]) after
    rw [serveAll_concat, List.append_assoc, List.singleton_append, ← hqs] at hextends
    exact hacyclic k (hextends.below hbelow)
  · obtain ⟨id, hbelow⟩ := not_forall_not.mp hcyclic
    exact ⟨id, treeWithin?_of_below_self hbelow _⟩

/-- An engine with one template, which yields an element. -/
def elementEngine : Engine :=
  ⟨.standard, [], [], .empty, [("a", .element "a" [] .empty)], [], .standard⟩

/-- Requests for a position without a node, for a new container, and for this container. -/
def elementRequests : List Request :=
  [⟨"a", [], some 7⟩, ⟨"a", [], none⟩, ⟨"a", [], some 1⟩]

/-- The third request is for the container that the second one has created, and it is no cycle. -/
theorem serveAll_elementRequests : elementEngine.serveAll elementRequests =
    ⟨#[.element ⟨"a", none, [], []⟩, .element ⟨"div", some "__template__", [], [2, 3]⟩,
      .element ⟨"a", none, [], []⟩, .element ⟨"a", none, [], []⟩]⟩ :=
  rfl

/-- None of them closes a cycle, but a request for the position behind the last node does, since
this is the position that its element gets. -/
theorem serveAll_acyclic_iff_elements :
    let d := elementEngine.serveAll elementRequests
    elementEngine.host.Confined ∧ d.Acyclic ∧ d.tree? 1 = some (d.tree 1) ∧
      (d.tree 1).html = "<div class=\"__template__\"><a></a><a></a></div>" ∧
      elementEngine.Closes d ⟨"a", [], some 4⟩ ∧ ¬elementEngine.Closes d ⟨"a", [], some 5⟩ := by
  intro d
  obtain ⟨hiff, hshown, -, -, -, hnext⟩ :=
    serveAll_acyclic_iff elementEngine Host.confined_empty elementRequests
  have hacyclic : d.Acyclic := by
    rw [hiff]
    -- the requests are gone through one by one; only those with a container could close a cycle
    rintro before q after hqs ⟨k, hk, hsize, x, hx, -⟩
    match before with
    | [] =>
      obtain ⟨rfl, -⟩ := List.cons.inj hqs
      cases hk
      have hnone : (elementEngine.serve .empty ⟨"a", [], some 7⟩).children 7 = [] := rfl
      exact List.not_mem_nil (hnone ▸ hx)
    | [_] =>
      cases hqs
      cases hk
    | [_, _] =>
      cases hqs
      cases hk
      exact absurd hsize (by decide)
    | _ :: _ :: _ :: _ => simp [elementRequests] at hqs
  refine ⟨Host.confined_empty, hacyclic, hshown hacyclic 1, ?_, ?_, ?_⟩
  · have hd : d = _ := serveAll_elementRequests
    rw [hd]
    decide
  · exact (hnext ⟨"a", [], some 4⟩ 4 rfl (Nat.le_refl 4) rfl).mpr rfl
  · rw [hnext ⟨"a", [], some 5⟩ 5 rfl (Nat.le_succ 4) rfl]
    exact Bool.false_ne_true

/-- A blueprint with the standard settings and one template. -/
def pageOf (source : String) : Blueprint :=
  { Blueprint.empty with sources := [("page", source)] }

set_option maxRecDepth 4000 in
theorem parseSource_elem : (pageOf "@elem a").dialect.parseSource "@elem a" =
    .ok (.block [.element "a" [] .empty]) := by
  cbv

theorem build_elem : (pageOf "@elem a").build =
    ⟨.standard, [], [], .empty, [("page", .block [.element "a" [] .empty])], [], .standard⟩ := by
  have hcompiled : (pageOf "@elem a").compiled =
      [("page", .ok (.block [.element "a" [] .empty]))] := by
    change [(pageOf "@elem a").compile ("page", "@elem a")] = _
    rw [Blueprint.compile, Dialect.compile, parseSource_elem]
    rfl
  rw [Blueprint.build, hcompiled]
  rfl

/-- The first element that is rendered into position 0 of the empty document gets this position,
and becomes its own child. -/
theorem not_acyclic_of_unknown :
    let d := (pageOf "@elem a").build.serveAll [⟨"page", [], some 0⟩]
    d.children 0 = [0] ∧ ¬d.Acyclic ∧ ∀ depth, d.treeWithin? depth 0 = none := by
  intro d
  have hd : d = ⟨#[.element ⟨"a", none, [], [0]⟩]⟩ := by
    change (pageOf "@elem a").build.serveAll _ = _
    rw [build_elem]
    rfl
  have hchildren : d.children 0 = [0] := by
    rw [hd]
    rfl
  have hbelow : d.Below 0 0 := .single (hchildren ▸ List.mem_cons_self)
  exact ⟨hchildren, fun hacyclic => hacyclic 0 hbelow, treeWithin?_of_below_self hbelow⟩

end Engine

end Stencil
