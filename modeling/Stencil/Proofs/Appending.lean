import Stencil.Engine.Render
import Stencil.Proofs.Growth
import Stencil.Proofs.Simulation
/-!
# Appending

A template rendered into an element that has content already, next to the same template rendered
into a document of its own. Both do the same, at other positions: what the document of its own has
in its container comes, moved, behind what the element had before.
-/

namespace Stencil

/-- Where a node of a document of its own is found when it is written to the end of a document with
`size` nodes: its container is the element `c` there, and all other nodes are new. -/
def NodeId.moved (size : Nat) (c : NodeId) : Nat → Nat
  | 0 => c
  | k + 1 => size + k

/-- An element with its children moved. -/
def Element.moved (size : Nat) (c : NodeId) (el : Element) : Element :=
  { el with children := el.children.map (NodeId.moved size c) }

namespace Document

/-- The document `within` is `d` with the content of the first node of `alone` added to its element
`c`. -/
structure Appended (d : Document) (c : NodeId) (alone within : Document) : Prop where
  isElement : (alone.element? 0).isSome
  isElement' : (within.element? c).isSome
  size : within.size + 1 = d.size + alone.size
  new : ∀ k : Nat, within.get? (d.size + k) =
    (alone.get? (k + 1)).map (mapElement (Element.moved d.size c))
  children : within.children c =
    d.children c ++ (alone.children 0).map (NodeId.moved d.size c)
  old : ∀ q : Nat, q < d.size → q ≠ c → within.get? q = d.get? q

namespace Appended

variable {d a w a' w' : Document} {c : Nat}

/-- One more node without children, at the end of both documents. -/
theorem push (h : Appended d c a w) (hc : c < d.size) {node : DocumentNode}
    (hnode : mapElement (Element.moved d.size c) node = node)
    (ha : a'.size = a.size + 1) (hw : w'.size = w.size + 1)
    (hget : ∀ id : Nat, a'.get? id = if id = a.size then some node else a.get? id)
    (hget' : ∀ id : Nat, w'.get? id = if id = w.size then some node else w.get? id) :
    Appended d c a' w' := by
  have hsize := h.size
  have hpos := lt_size_of_isSome h.isElement
  have hfirst : a'.get? 0 = a.get? 0 := by rw [hget, if_neg (by omega)]
  have hbefore : ∀ q : Nat, q < d.size → w'.get? q = w.get? q := fun q hq => by
    rw [hget', if_neg (by omega)]
  refine ⟨?_, ?_, by omega, fun k => ?_, ?_, fun q hq hne => (hbefore q hq).trans (h.old q hq hne)⟩
  · rw [element?_congr hfirst]
    exact h.isElement
  · rw [element?_congr (hbefore c hc)]
    exact h.isElement'
  · rw [hget', hget, h.new k]
    by_cases hk : d.size + k = w.size
    · rw [if_pos hk, if_pos (by omega), Option.map_some, hnode]
    · rw [if_neg hk, if_neg (by omega)]
  · rw [children_congr (hbefore c hc), children_congr hfirst]
    exact h.children

/-- A change of an element, and the same change of the element in its place. -/
theorem modify (h : Appended d c a w) (hc : c < d.size) {f f' : Element → Element} (x : Nat)
    (added : List NodeId) (hf : ∀ el, f' (el.moved d.size c) = (f el).moved d.size c)
    (hadded : ∀ el, (f el).children = el.children ++ added)
    (hadded' : ∀ el, (f' el).children = el.children ++ added.map (NodeId.moved d.size c)) :
    Appended d c (a.modify x f) (w.modify (NodeId.moved d.size c x) f') := by
  have hsize : (a.modify x f).size = a.size := Array.size_modify
  have hsize' : (w.modify (NodeId.moved d.size c x) f').size = w.size := Array.size_modify
  cases x with
  -- the container of its own corresponds to the container that was given
  | zero =>
    rw [NodeId.moved] at hsize' ⊢
    obtain ⟨el, hel⟩ := Option.isSome_iff_exists.1 h.isElement
    obtain ⟨el', hel'⟩ := Option.isSome_iff_exists.1 h.isElement'
    have hfirst : (a.modify 0 f).element? 0 = some (f el) := by
      rw [element?_modify, if_pos rfl, hel, Option.map_some]
    have hcontainer : (w.modify c f').element? c = some (f' el') := by
      rw [element?_modify, if_pos rfl, hel', Option.map_some]
    refine ⟨by rw [hfirst]; rfl, by rw [hcontainer]; rfl, by rw [hsize, hsize']; exact h.size,
      fun k => ?_, ?_, fun q hq hne => ?_⟩
    · rw [get?_modify, get?_modify, if_neg (by omega), if_neg (Nat.succ_ne_zero k).symm]
      exact h.new k
    · have hchildren := h.children
      rw [children_of_element? hel, children_of_element? hel'] at hchildren
      rw [children_of_element? hfirst, children_of_element? hcontainer, hadded, hadded', hchildren,
        List.map_append, List.append_assoc]
    · rw [get?_modify, if_neg (Ne.symm hne)]
      exact h.old q hq hne
  -- every other node has moved behind the old ones
  | succ k =>
    rw [NodeId.moved] at hsize' ⊢
    have hfirst : (a.modify (k + 1) f).get? 0 = a.get? 0 := by
      rw [get?_modify, if_neg (Nat.succ_ne_zero k)]
    have hbefore : ∀ q : Nat, q < d.size → (w.modify (d.size + k) f').get? q = w.get? q :=
      fun q hq => by rw [get?_modify, if_neg (by omega)]
    refine ⟨?_, ?_, by rw [hsize, hsize']; exact h.size, fun j => ?_, ?_, fun q hq hne => ?_⟩
    · rw [element?_congr hfirst]
      exact h.isElement
    · rw [element?_congr (hbefore c hc)]
      exact h.isElement'
    · rw [get?_modify, get?_modify, h.new j]
      by_cases hj : k = j
      · subst hj
        rw [if_pos rfl, if_pos rfl]
        rcases a.get? (k + 1) with - | (el | content)
        · rfl
        · simp only [Option.map_some, mapElement, hf]
        · rfl
      · rw [if_neg (by omega), if_neg (by omega)]
    · rw [children_congr hfirst, children_congr (hbefore c hc)]
      exact h.children
    · rw [hbefore q hq]
      exact h.old q hq hne

/-- A new element comes to the end of both documents. -/
theorem element (h : Appended d c a w) (hc : c < d.size) (tag : String) :
    Appended d c (a.apply (.element tag)) (w.apply (.element tag)) :=
  h.push hc rfl (size_apply _ _) (size_apply _ _) (get?_element a tag) (get?_element w tag)

/-- So does a new text. -/
theorem text (h : Appended d c a w) (hc : c < d.size) (content : String) :
    Appended d c (a.apply (.text content)) (w.apply (.text content)) :=
  h.push hc rfl (size_apply _ _) (size_apply _ _) (get?_text a content) (get?_text w content)

/-- What is appended in the document of its own is appended at the places that its nodes have moved
to. -/
theorem append (h : Appended d c a w) (hc : c < d.size) (x y : NodeId) :
    Appended d c (a.apply (.append x y))
      (w.apply (.append (NodeId.moved d.size c x) (NodeId.moved d.size c y))) := by
  refine h.modify hc x [y] (fun el => ?_) (fun _ => rfl) fun _ => rfl
  simp only [Element.moved, List.map_append, List.map_cons, List.map_nil]

/-- A change that concerns no children. -/
theorem modify_same (h : Appended d c a w) (hc : c < d.size) {f : Element → Element} (x : NodeId)
    (hf : ∀ el, f (el.moved d.size c) = (f el).moved d.size c)
    (hchildren : ∀ el, (f el).children = el.children) :
    Appended d c (a.modify x f) (w.modify (NodeId.moved d.size c x) f) := by
  refine h.modify hc x [] hf ?_ ?_ <;> simpa using hchildren

/-! ## Trees -/

/-- The trees below new nodes are the same in both documents. -/
theorem tree (h : Appended d c a w) (ha : a.WellFormed) (hw : w.WellFormed) (k : Nat) :
    w.tree (d.size + k) = a.tree (k + 1) := by
  have htree : ∀ depth k : Nat, w.treeTo depth (d.size + k) = a.treeTo depth (k + 1) := by
    intro depth
    induction depth with
    | zero => exact fun _ => rfl
    | succ depth ih =>
      intro k
      rw [treeTo, treeTo, h.new k]
      cases hget : a.get? (k + 1) with
      | none => rfl
      | some node =>
        cases node with
        | text content => rfl
        | element el =>
          have hel : a.children (k + 1) = el.children := children_of_element? (by
            rw [element?, hget])
          have hall : (el.children.map (NodeId.moved d.size c)).map (w.treeTo depth) =
              el.children.map (a.treeTo depth) := by
            rw [List.map_map]
            refine List.map_congr_left fun x hx => ?_
            have hbehind := (ha.behind (k + 1) x (hel ▸ hx)).1
            -- no child is the container, which is the only node that was there before
            have hx0 := Nat.ne_of_gt (Nat.zero_lt_of_lt hbehind)
            obtain ⟨j, rfl⟩ := Nat.exists_eq_succ_of_ne_zero hx0
            exact ih j
          simp only [Option.map_some, mapElement, Element.moved, hall]
  rw [← treeTo_eq_tree hw (Nat.le_add_right w.size a.size),
    ← treeTo_eq_tree ha (Nat.le_add_left a.size w.size)]
  exact htree _ k

/-- What is shown below the element: its old content, and the content of the other document. -/
theorem children_tree (h : Appended d c a w) (hd : d.WellFormed) (ha : a.WellFormed)
    (hw : w.WellFormed) :
    (w.tree c).children = (d.tree c).children ++ (a.tree 0).children := by
  have hsize := h.size
  have hpos := lt_size_of_isSome h.isElement
  have hold : ∀ x ∈ d.children c, w.tree x = d.tree x := fun x hx => by
    have hbehind := hd.behind c x hx
    exact tree_congr hd hw (by omega) (fun q hle hlt => h.old q hlt (by omega)) hbehind.2
  have hnew : ∀ x ∈ a.children 0, w.tree (NodeId.moved d.size c x) = a.tree x := fun x hx => by
    obtain ⟨k, rfl⟩ := Nat.exists_eq_succ_of_ne_zero (Nat.ne_of_gt (ha.behind 0 x hx).1)
    exact h.tree ha hw k
  rw [Document.children_tree hw, Document.children_tree hd, Document.children_tree ha, h.children,
    List.map_append, List.map_map, List.map_congr_left hold]
  congr 1
  exact List.map_congr_left hnew

end Appended

end Document

/-- The HTML of trees in a row is the HTML of each in a row. -/
theorem Tree.htmlAll_append (ts us : List Tree) :
    htmlAll (ts ++ us) = htmlAll ts ++ htmlAll us := by
  induction ts with
  | nil => simp [htmlAll]
  | cons t ts ih => simp [htmlAll, ih, String.append_assoc]

/-! ## The two renderings -/

open Document

namespace Rendering

variable {α β : Type} (m : Rendering α) (b : β) (r : Run)

/-- A step that only gives a value does not change how a rendering ends. -/
theorem outcome_bind_pure : (m >>= fun _ => pure b).outcome r = (m.outcome r).map fun _ => b := by
  cases hm : m r with
  | ok a s => rw [outcome, bind_of_ok hm, outcome_of_ok hm]; rfl
  | error err s => rw [outcome, bind_of_error hm, outcome_of_error hm]; rfl

/-- Nor does it change the state. -/
theorem after_bind_pure : (m >>= fun _ => pure b).after r = m.after r := by
  cases hm : m r with
  | ok a s => rw [after, bind_of_ok hm, after_of_ok hm]; rfl
  | error err s => rw [after, bind_of_error hm, after_of_error hm]

end Rendering

namespace Rendered

theorem outcome_ofRun (m : Rendering NodeId) (r : Run) : (ofRun (m r)).outcome = m.outcome r := by
  unfold Rendering.outcome
  cases m r <;> rfl

theorem document_ofRun (m : Rendering NodeId) (r : Run) (before : Document) :
    (ofRun (m r)).document before = (m.after r).document before := by
  unfold Rendering.after
  cases m r <;> rfl

end Rendered

/-- Two runs, one in a document of its own and one in the element `c` of `d`, that have done the
same so far. -/
structure Run.Alongside (d : Document) (c : NodeId) (r s : Run) : Prop where
  scope : r.scope = s.scope
  turns : r.turns = s.turns
  next : ∃ k : Nat, r.next = k + 1 ∧ s.next = d.size + k
  appended : Appended d c (r.document .empty) (s.document d)

namespace Run.Alongside

variable {d : Document} {c : Nat} {r s : Run}

/-- The next node moves like all others. -/
theorem next_eq (h : Alongside d c r s) : s.next = NodeId.moved d.size c r.next := by
  obtain ⟨k, hr, hs⟩ := h.next
  rw [hr, hs, NodeId.moved]

/-- The same edit, as far as new nodes and the documents are concerned. -/
theorem write (h : Alongside d c r s) (edit edit' : Edit) (hcreated : edit'.created = edit.created)
    (happended : Appended d c ((r.document .empty).apply edit) ((s.document d).apply edit')) :
    Alongside d c (r.write edit) (s.write edit') := by
  obtain ⟨k, hr, hs⟩ := h.next
  refine ⟨h.scope, h.turns, ⟨k + edit.created, ?_, ?_⟩, ?_⟩
  · rw [Run.write, hr]
    exact Nat.add_right_comm k 1 edit.created
  · rw [Run.write, hs, hcreated]
    exact Nat.add_assoc d.size k edit.created
  · rw [document_write, document_write]
    exact happended

/-- Both runs create an element. -/
theorem element (h : Alongside d c r s) (hc : c < d.size) (tag : String) :
    Alongside d c (r.write (.element tag)) (s.write (.element tag)) :=
  h.write _ _ rfl (h.appended.element hc tag)

/-- Both runs append at corresponding places. -/
theorem append (h : Alongside d c r s) (hc : c < d.size) (x y : NodeId) :
    Alongside d c (r.write (.append x y))
      (s.write (.append (NodeId.moved d.size c x) (NodeId.moved d.size c y))) :=
  h.write _ _ rfl (h.appended.append hc x y)

/-- Both runs change corresponding nodes. -/
theorem change (h : Alongside d c r s) (hc : c < d.size) (x : NodeId) (ch : Change) :
    Alongside d c (r.writeAll (ch.edits x r.next))
      (s.writeAll (ch.edits (NodeId.moved d.size c x) s.next)) := by
  rw [h.next_eq]
  cases ch with
  | «attribute» name value =>
    exact h.write _ _ rfl (h.appended.modify_same hc x (fun _ => rfl) fun _ => rfl)
  | className value =>
    exact h.write _ _ rfl (h.appended.modify_same hc x (fun _ => rfl) fun _ => rfl)
  | text content =>
    have htext := h.write _ _ rfl (h.appended.text hc content)
    exact htext.append hc x r.next

end Run.Alongside

namespace Engine

open Rendering

variable {d : Document} {c : Nat}

/-- A function of a uniform host makes the same changes wherever it is called. -/
theorem exists_perform_eq {host : Host} (h : host.Uniform) (f : Callable) (args : List Value) :
    ∃ cs answer, ∀ x : NodeId, perform x (f.reply host) args =
      change x cs >>= fun _ => ofResult answer := by
  obtain ⟨cs, answer, hreply⟩ := Callable.uniform_reply h f args
  refine ⟨cs, answer, fun x => funext fun r => ?_⟩
  rw [perform_run, hreply, bind_of_ok (change_run x cs r)]

/-- A row of changes is made alike. -/
theorem alike_changes (hc : c < d.size) (x : NodeId) (cs : List Change) :
    Alike (Run.Alongside d c) (change x cs) (change (NodeId.moved d.size c x) cs) := by
  induction cs with
  | nil => exact .pure ()
  | cons ch cs ih => exact .bind (fun r s h => .ok () (h.change hc x ch)) fun _ => ih

/-- A rendering in a document of its own simulates one in an element. -/
def alongside (e : Engine) (hhost : e.host.Uniform) (d : Document) (hc : c < d.size) :
    Simulation e e where
  state := Run.Alongside d c
  node x x' := x' = NodeId.moved d.size c x
  akin := e.akin_globals e.globals
  assign name v h := ⟨congrArg (·.assign name v) h.scope, h.turns, h.next, h.appended⟩
  opened h := ⟨congrArg Scope.opened h.scope, h.turns, h.next, h.appended⟩
  entered h := ⟨congrArg (Scope.ofFrame ·.top) h.scope, h.turns, h.next, h.appended⟩
  left h h' := ⟨h.scope, h'.turns, h'.next, h'.appended⟩
  turn h := ⟨h.turns, h.scope, congrArg (· + 1) h.turns, h.next, h.appended⟩
  perform f args hnode := by
    obtain ⟨cs, answer, hperform⟩ := exists_perform_eq hhost f args
    rw [hperform, hperform, hnode]
    exact .bind (alike_changes hc _ cs) fun _ => .ofResult answer
  change ch hnode h := hnode ▸ h.change hc _ ch
  element tag h := ⟨h.next_eq, h.element hc tag⟩
  append hnode hnode' h := hnode ▸ hnode' ▸ h.append hc _ _

/-- Names are looked up alike, since the scopes are the same. -/
theorem alike_evalName_alongside (e : Engine) (name : String) :
    Alike (Run.Alongside d c) (e.evalName name) (e.evalName name) := by
  intro r s h
  rw [evalName_run, evalName_run, h.scope]
  cases s.scope.find name (e.global? name) with
  | ok found => exact .ok _ ⟨rfl, h.turns, h.next, h.appended⟩
  | error _ => exact .ok _ h

/-- The state in which a template is rendered in a new container. -/
def contained (e : Engine) (frame : Frame) : Run :=
  ((Run.start frame 0).write (.element e.settings.containerTag)).write
    (.className 0 e.settings.containerClass)

/-- The document of its own begins with its container. -/
theorem document_contained (e : Engine) (frame : Frame) :
    (e.contained frame).document .empty =
      ⟨#[.element ⟨e.settings.containerTag, some e.settings.containerClass, [], []⟩]⟩ :=
  rfl

/-- At the beginning nothing has moved yet. -/
theorem alongside_contained (e : Engine) (frame : Frame) (hc : (d.element? c).isSome) :
    Run.Alongside d c (e.contained frame) (.start frame d.size) := by
  refine ⟨rfl, rfl, ⟨0, rfl, rfl⟩, rfl, hc, rfl, fun k => ?_, ?_, fun _ _ _ => rfl⟩
  · rw [document_contained]
    exact get?_eq_none (Nat.le_add_right _ _)
  · rw [document_contained]
    exact (List.append_nil _).symm

/-- The container is a node of its document. -/
theorem fits_contained (e : Engine) (frame : Frame) : (e.contained frame).Fits .empty := by
  refine ⟨rfl, WellFormed.empty.of_children (Nat.zero_le _) fun p => ?_⟩
  rw [document_contained, children_of_none (d := .empty) rfl]
  cases p <;> rfl

/-- The same template does the same in both documents. -/
theorem alike_renderIn (e : Engine) (hhost : e.host.Uniform) (name : String) (hc : c < d.size) :
    Alike (Run.Alongside d c) (e.renderIn name 0) (e.renderIn name c) := by
  have hname : ∀ name, Alike (e.alongside hhost d hc).state (e.evalName name) (e.evalName name) :=
    alike_evalName_alongside e
  exact (e.alongside hhost d hc).alike_renderIn (fun _ _ _ _ => trivial) (fun _ => rfl)
    (fun _ _ _ => trivial) (fun name _ => hname name) name rfl

/-- A template in a container lets the document grow there. -/
theorem grows_renderIn (e : Engine) (hhost : e.host.Confined) (name : String) {r : Run}
    {before : Document} (hr : r.Fits before) (hc : c < (r.document before).size) :
    (r.document before).Grows ((e.renderIn name c).outcome r).isOk c
      (((e.renderIn name c).after r).document before) ∧
      ((e.renderIn name c).after r).Fits before := by
  have hcauses : Causes e (fun _ => True) c (e.renderIn name c) :=
    causes_evalTemplate name fun root => (causes_eval e _ root c).mono fun _ _ => trivial
  exact (hcauses r).grows hhost hr hc

/-- A rendering keeps to the nodes of its document. -/
theorem fits_renderIn (e : Engine) (hhost : e.host.Confined) (name : String) {r : Run}
    {before : Document} (hr : r.Fits before) (hc : c < (r.document before).size) :
    ((e.renderIn name c).after r).Fits before :=
  (grows_renderIn e hhost name hr hc).2

/-- **Renderings are put one after the other.** A template that is rendered into an element of a
well-formed document ends as it does in a document of its own, whose container is the first node
there. In both cases the same is added to the content that the element had, also if the rendering
fails. -/
theorem render_append (e : Engine) (hhost : e.host.Uniform) (name : String) (frame : Frame)
    (hd : d.WellFormed) (hc : (d.element? c).isSome) :
    let r := e.render name frame d.size (some c)
    let s := e.renderAlone name frame
    r.outcome = s.outcome.map (fun _ => c) ∧ s.outcome = r.outcome.map (fun _ => 0) ∧
      ((r.document d).tree c).innerHtml =
        (d.tree c).innerHtml ++ ((s.document .empty).tree 0).innerHtml := by
  intro r s
  have hlt := lt_size_of_isSome hc
  by_cases htemplate : e.hasTemplate name = true
  · have hr : r = .ofRun ((e.renderIn name c >>= fun _ => pure c) (.start frame d.size)) :=
      if_pos htemplate
    have hs : s = .ofRun ((e.renderIn name 0 >>= fun _ => pure 0) (e.contained frame)) :=
      if_pos htemplate
    have hagree := alike_renderIn e hhost name hlt _ _ (alongside_contained e frame hc)
    have hown := fits_renderIn e hhost.confined name (fits_contained e frame) (c := 0)
      Nat.zero_lt_one
    have hinner := fits_renderIn e hhost.confined name (r := .start frame d.size) ⟨rfl, hd⟩ hlt
    have hchildren := hagree.after.appended.children_tree hd hown.wellFormed hinner.wellFormed
    rw [hr, hs, Rendered.outcome_ofRun, Rendered.outcome_ofRun, Rendered.document_ofRun,
      Rendered.document_ofRun, outcome_bind_pure, outcome_bind_pure, after_bind_pure,
      after_bind_pure, hagree.outcome]
    refine ⟨?_, ?_, ?_⟩
    · cases (e.renderIn name c).outcome (.start frame d.size) <;> rfl
    · cases (e.renderIn name c).outcome (.start frame d.size) <;> rfl
    · rw [Tree.innerHtml, hchildren, Tree.htmlAll_append, Tree.innerHtml, Tree.innerHtml]
  · have hr : r = ⟨.error (.templateNotFound name), []⟩ := if_neg htemplate
    have hs : s = ⟨.error (.templateNotFound name), []⟩ := if_neg htemplate
    rw [hr, hs]
    exact ⟨rfl, rfl, (String.append_empty).symm⟩

/-- A template breaks off behind a line and an element, which come behind the old text. -/
theorem render_append_broken :
    let card : Node := .block [.output .content [.text "new"],
      .element "b" [] (.text (.leaf (.name "title"))), .call (.leaf .null) [],
      .output .content [.text "never"]]
    let e : Engine := ⟨.standard, [], [], .empty, [("card", card)], [], .standard⟩
    let frame : Frame := [("title", .string "<")]
    let d := Document.empty.applyAll
      [.element "main", .element "p", .append 0 1, .text "old", .append 1 2]
    let r := e.render "card" frame d.size (some 1)
    let s := e.renderAlone "card" frame
    e.host.Uniform ∧ d.WellFormed ∧ (d.element? 1).isSome = true ∧
      r.outcome = .error (.notCallable .null) ∧
      ((r.document d).tree 1).innerHtml = "oldnew<b>&lt;</b>" ∧
      r.outcome = s.outcome.map (fun _ => 1) ∧ s.outcome = r.outcome.map (fun _ => 0) ∧
      ((r.document d).tree 1).innerHtml =
        (d.tree 1).innerHtml ++ ((s.document .empty).tree 0).innerHtml := by
  intro card e frame d r s
  have houter := WellFormed.empty.element "main"
  have hfree := houter.element "p"
  have hgrows := Grows.element houter (c := 0) (by decide) (.refl hfree) (.refl hfree) (.refl hfree)
  have hd : d.WellFormed := (Grows.addText hgrows.wellFormed (by decide) "old").wellFormed
  exact ⟨Host.uniform_empty, hd, rfl, rfl, by decide +kernel,
    render_append e Host.uniform_empty "card" frame hd rfl⟩

end Engine

end Stencil
