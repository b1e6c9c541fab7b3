import Stencil.Document.Basic
/-!
# Documents as forests

A document is well formed if every child stands behind its parent and no node is a child twice.
Then the ways down from a node end, no two of them lead to the same node, and `tree` shows all that
is below: its bound is never met.
-/

namespace Stencil

namespace Document

variable {d d' : Document} {c p x id : Nat}

/-- Every child is a node behind its parent, and no node is a child twice. -/
structure WellFormed (d : Document) : Prop where
  behind : ∀ p x : Nat, x ∈ d.children p → p < x ∧ x < d.size
  nodup : ∀ p, (d.children p).Nodup
  oneParent : ∀ p q, ∀ x ∈ d.children p, x ∈ d.children q → p = q

/-- A way from the node `c` down to another one: the nodes that are passed, the last one first. -/
inductive Path (d : Document) (c : NodeId) : List NodeId → NodeId → Prop
  | stay : Path d c [] c
  | down {path : List NodeId} {p x : NodeId} :
    Path d c path p → x ∈ d.children p → Path d c (x :: path) x

/-! ## Nodes after an edit -/

/-- A new element gets the next position. -/
theorem get?_element (d : Document) (tag : String) (id : Nat) :
    (d.apply (.element tag)).get? id =
      if id = d.size then some (.element ⟨tag, none, [], []⟩) else d.get? id :=
  Array.getElem?_push

/-- So does a new text. -/
theorem get?_text (d : Document) (content : String) (id : Nat) :
    (d.apply (.text content)).get? id = if id = d.size then some (.text content) else d.get? id :=
  Array.getElem?_push

/-- A change touches one node. -/
theorem get?_modify (d : Document) (p : Nat) (f : Element → Element) (id : Nat) :
    (d.modify p f).get? id = if p = id then (d.get? id).map (mapElement f) else d.get? id :=
  Array.getElem?_modify

/-- There are no nodes behind the last one. -/
theorem get?_eq_none (h : d.size ≤ id) : d.get? id = none :=
  Array.getElem?_eq_none h

theorem element?_congr (h : d'.get? id = d.get? id) : d'.element? id = d.element? id := by
  rw [element?, element?, h]

theorem children_congr (h : d'.get? id = d.get? id) : d'.children id = d.children id := by
  rw [children, children, element?_congr h]

theorem get?_of_element? {el : Element} (h : d.element? id = some el) :
    d.get? id = some (.element el) := by
  rw [element?] at h
  rcases hget : d.get? id with - | (el' | content)
  · rw [hget] at h
    cases h
  · rw [hget, Option.some.injEq] at h
    rw [h]
  · rw [hget] at h
    cases h

theorem children_of_element? {el : Element} (h : d.element? id = some el) :
    d.children id = el.children := by
  rw [children, h]

/-- What is no element has no children. -/
theorem children_of_none (h : d.element? id = none) : d.children id = [] := by
  rw [children, h]

theorem element?_of_size_le (h : d.size ≤ id) : d.element? id = none := by
  rw [element?, get?_eq_none h]

/-- An element is a node of the document. -/
theorem lt_size_of_isSome (h : (d.element? id).isSome) : id < d.size := by
  refine Nat.lt_of_not_le fun hle => ?_
  rw [element?_of_size_le hle] at h
  cases h

/-- What has children is a node of the document. -/
theorem lt_size_of_mem_children (h : x ∈ d.children p) : p < d.size := by
  refine Nat.lt_of_not_le fun hle => ?_
  rw [children_of_none (element?_of_size_le hle)] at h
  cases h

/-- An element stays an element when it is changed. -/
theorem element?_modify (d : Document) (p : Nat) (f : Element → Element) (id : Nat) :
    (d.modify p f).element? id = if p = id then (d.element? id).map f else d.element? id := by
  rw [element?, get?_modify]
  by_cases hp : p = id
  · rw [if_pos hp, if_pos hp, element?]
    rcases d.get? id with - | (el | content) <;> rfl
  · rw [if_neg hp, if_neg hp, element?]

/-- A change of an element has no effect where there is none. -/
theorem get?_modify_of_none (h : d.element? p = none) (f : Element → Element) (id : Nat) :
    (d.modify p f).get? id = d.get? id := by
  rw [get?_modify]
  split
  · next hp =>
    subst hp
    rw [element?] at h
    rcases hget : d.get? p with - | (el | content)
    · rfl
    · rw [hget] at h
      cases h
    · rfl
  · rfl

/-- A new element has no children yet, and the others keep theirs. -/
theorem children_element (d : Document) (tag : String) (id : NodeId) :
    (d.apply (.element tag)).children id = d.children id := by
  by_cases hid : id = d.size
  · have hnew : (d.apply (.element tag)).element? id = some ⟨tag, none, [], []⟩ := by
      rw [element?, get?_element, if_pos hid]
    rw [children_of_element? hnew, children_of_none (element?_of_size_le (Nat.le_of_eq hid.symm))]
  · exact children_congr ((get?_element d tag id).trans (if_neg hid))

theorem children_text (d : Document) (content : String) (id : NodeId) :
    (d.apply (.text content)).children id = d.children id := by
  by_cases hid : id = d.size
  · have hnew : (d.apply (.text content)).element? id = none := by
      rw [element?, get?_text, if_pos hid]
    rw [children_of_none hnew, children_of_none (element?_of_size_le (Nat.le_of_eq hid.symm))]
  · exact children_congr ((get?_text d content id).trans (if_neg hid))

/-- To change something else keeps all children. -/
theorem children_modify {f : Element → Element} (hf : ∀ el, (f el).children = el.children)
    (d : Document) (p id : NodeId) : (d.modify p f).children id = d.children id := by
  rw [children, element?_modify, children]
  by_cases hp : p = id
  · rw [if_pos hp]
    cases d.element? id with
    | none => rfl
    | some el => exact hf el
  · rw [if_neg hp]

/-- An element gets one more child. -/
theorem children_append_self {el : Element} (h : d.element? c = some el) (x : NodeId) :
    (d.apply (.append c x)).children c = d.children c ++ [x] := by
  have hmodify : (d.apply (.append c x)).element? c =
      some { el with children := el.children ++ [x] } := by
    rw [apply, element?_modify, if_pos rfl, h]
    rfl
  rw [children_of_element? hmodify, children_of_element? h]

/-- No other node does, nor does a text. -/
theorem get?_append_of_ne {q : NodeId} (h : q ≠ c) (d : Document) (x : NodeId) :
    (d.apply (.append c x)).get? q = d.get? q := by
  rw [apply, get?_modify, if_neg (Ne.symm h)]

/-- Where there is no element nothing can be appended. -/
theorem get?_append_of_none (h : d.element? c = none) (x q : NodeId) :
    (d.apply (.append c x)).get? q = d.get? q :=
  get?_modify_of_none h _ q

/-- A child is one that was there before, or the one that has been appended. -/
theorem mem_children_append {q y : NodeId} (h : y ∈ (d.apply (.append c x)).children q) :
    y ∈ d.children q ∨ q = c ∧ y = x := by
  by_cases hq : q = c
  · subst hq
    cases hel : d.element? q with
    | none =>
      rw [children_congr (get?_append_of_none hel x q)] at h
      exact .inl h
    | some el =>
      rw [children_append_self hel, List.mem_append, List.mem_singleton] at h
      exact h.imp_right fun hy => ⟨rfl, hy⟩
  · rw [children_congr (get?_append_of_ne hq d x)] at h
    exact .inl h

/-! ## Well-formed documents -/

namespace WellFormed

/-- A document without nodes is a forest without trees. -/
theorem empty : Document.empty.WellFormed where
  behind _ _ hx := by cases hx
  nodup _ := List.nodup_nil
  oneParent _ _ _ hx _ := by cases hx

/-- Whether a document is a forest is a matter of its children. -/
theorem of_children (h : d.WellFormed) (hsize : d.size ≤ d'.size)
    (hchildren : ∀ p, d'.children p = d.children p) : d'.WellFormed where
  behind p x hx := by
    rw [hchildren] at hx
    exact ⟨(h.behind p x hx).1, Nat.lt_of_lt_of_le (h.behind p x hx).2 hsize⟩
  nodup p := by
    rw [hchildren]
    exact h.nodup p
  oneParent p q x hx hx' := by
    rw [hchildren] at hx hx'
    exact h.oneParent p q x hx hx'

/-- A new element is a tree of its own. -/
theorem element (h : d.WellFormed) (tag : String) : (d.apply (.element tag)).WellFormed :=
  h.of_children (by rw [size_apply]; exact Nat.le_add_right _ _) (children_element d tag)

/-- A node that has no parent can be appended to any node in front of it. -/
theorem append (h : d.WellFormed) (hlt : c < x) (hx : x < d.size) (hfree : ∀ p, x ∉ d.children p) :
    (d.apply (.append c x)).WellFormed where
  behind p y hy := by
    rw [size_apply]
    rcases mem_children_append hy with hy | ⟨rfl, rfl⟩
    · exact h.behind p y hy
    · exact ⟨hlt, hx⟩
  nodup p := by
    by_cases hp : p = c
    · subst hp
      cases hel : d.element? p with
      | none =>
        rw [children_congr (get?_append_of_none hel x p)]
        exact h.nodup p
      | some el =>
        rw [children_append_self hel]
        refine List.nodup_append.2 ⟨h.nodup p, by simp, fun y hy z hz heq => ?_⟩
        rw [List.mem_singleton] at hz
        exact hfree p (hz ▸ heq ▸ hy)
    · rw [children_congr (get?_append_of_ne hp d x)]
      exact h.nodup p
  -- the node that is appended had no parent before
  oneParent p q y hy hy' := by
    rcases mem_children_append hy with hp | ⟨rfl, rfl⟩
    · rcases mem_children_append hy' with hq | ⟨rfl, rfl⟩
      · exact h.oneParent p q y hp hq
      · exact absurd hp (hfree p)
    · rcases mem_children_append hy' with hq | ⟨rfl, -⟩
      · exact absurd hq (hfree q)
      · rfl

/-- Going down from child to child comes to an end. -/
theorem wellFounded (h : d.WellFormed) : WellFounded fun x p => x ∈ d.children p := by
  refine Subrelation.wf (fun {x p} hx => ?_) (measure fun id => d.size - id).wf
  have hbehind := h.behind p x hx
  change d.size - x < d.size - p
  omega

end WellFormed

/-! ## Ways down -/

namespace Path

variable {path path' : List NodeId}

/-- Ways are put together where one ends and the other begins. -/
theorem trans {el : NodeId} (h : d.Path c path el) (h' : d.Path el path' id) :
    d.Path c (path' ++ path) id := by
  induction h' with
  | stay => exact h
  | down _ hx ih => exact .down ih hx

theorem mono (h : d.Path c path id) (hsub : ∀ p, ∀ x ∈ d.children p, x ∈ d'.children p) :
    d'.Path c path id := by
  induction h with
  | stay => exact .stay
  | down _ hx ih => exact .down ih (hsub _ _ hx)

/-- On a way down, nodes get younger. -/
theorem le (h : d.Path c path id) (hwf : d.WellFormed) : c ≤ id := by
  induction h with
  | stay => exact Nat.le_refl c
  | down _ hx ih => exact Nat.le_trans ih (Nat.le_of_lt (hwf.behind _ _ hx).1)

/-- No two ways lead to the same node. -/
theorem unique (h : d.Path c path id) (h' : d.Path c path' id) (hwf : d.WellFormed) :
    path = path' := by
  induction h generalizing path' with
  | stay =>
    cases h' with
    | stay => rfl
    | down hp hx =>
      have hle := hp.le hwf
      have hlt := (hwf.behind _ _ hx).1
      omega
  | down hp hx ih =>
    cases h' with
    | stay =>
      have hle := hp.le hwf
      have hlt := (hwf.behind _ _ hx).1
      omega
    | down hq hx' =>
      obtain rfl := hwf.oneParent _ _ _ hx hx'
      rw [ih hq]

end Path

/-! ## Trees -/

/-- Deeper than there are nodes behind it, a node has nothing below. -/
theorem treeTo_succ (h : d.WellFormed) {depth : Nat} (hdepth : d.size ≤ id + depth) :
    d.treeTo (depth + 1) id = d.treeTo depth id := by
  induction depth generalizing id with
  | zero => rw [treeTo, treeTo, get?_eq_none (by omega)]
  | succ depth ih =>
    rw [treeTo, treeTo]
    cases hget : d.get? id with
    | none => rfl
    | some node =>
      cases node with
      | text content => rfl
      | element el =>
        have hel : d.children id = el.children := children_of_element? (by rw [element?, hget])
        have hall : el.children.map (d.treeTo (depth + 1)) = el.children.map (d.treeTo depth) := by
          refine List.map_congr_left fun x hx => ih ?_
          have hbehind := h.behind id x (hel ▸ hx)
          omega
        simp only [hall]

/-- The bound on the depth of a tree is never met. -/
theorem treeTo_eq_tree (h : d.WellFormed) {depth : Nat} (hdepth : d.size ≤ depth) (id : NodeId) :
    d.treeTo depth id = d.tree id := by
  induction hdepth with
  | refl => rfl
  | step hdepth ih => rw [treeTo_succ h (Nat.le_trans hdepth (Nat.le_add_left _ _)), ih]

/-- A tree is a node with the trees of its children. -/
theorem tree_eq (h : d.WellFormed) (id : NodeId) :
    d.tree id = match d.get? id with
      | some (.element el) =>
        .element el.tag el.className el.attributes (el.children.map d.tree)
      | some (.text content) => .text content
      | none => .missing := by
  have htree : d.treeTo d.size = d.tree := rfl
  have hstep := treeTo_eq_tree h (Nat.le_succ d.size) id
  rw [treeTo, htree] at hstep
  refine hstep.symm.trans ?_
  rcases d.get? id with - | (el | content) <;> rfl

/-- What is shown below a node are the trees of its children. -/
theorem children_tree (h : d.WellFormed) (id : NodeId) :
    (d.tree id).children = (d.children id).map d.tree := by
  rw [tree_eq h, children, element?]
  rcases d.get? id with - | (el | content) <;> rfl

/-- A tree is known by the nodes from its root on. -/
theorem tree_congr (h : d.WellFormed) (h' : d'.WellFormed) (hsize : d.size ≤ d'.size)
    (hsame : ∀ q : Nat, id ≤ q → q < d.size → d'.get? q = d.get? q) (hid : id < d.size) :
    d'.tree id = d.tree id := by
  have htree : ∀ depth (q : Nat), id ≤ q → q < d.size → d'.treeTo depth q = d.treeTo depth q := by
    intro depth
    induction depth with
    | zero => exact fun q _ _ => rfl
    | succ depth ih =>
      intro q hle hlt
      rw [treeTo, treeTo, hsame q hle hlt]
      cases hget : d.get? q with
      | none => rfl
      | some node =>
        cases node with
        | text content => rfl
        | element el =>
          have hel : d.children q = el.children := children_of_element? (by rw [element?, hget])
          have hall : el.children.map (d'.treeTo depth) = el.children.map (d.treeTo depth) := by
            refine List.map_congr_left fun x hx => ?_
            have hbehind := h.behind q x (hel ▸ hx)
            exact ih x (by omega) hbehind.2
          simp only [hall]
  rw [← treeTo_eq_tree h' (Nat.le_refl _), ← treeTo_eq_tree h hsize, htree _ id (Nat.le_refl _) hid]

end Document

end Stencil
