import Stencil.Render.Eval
/-!
# Rendering templates

A rendering adds what a template yields to a container, or to a new one. Its result tells the
edits it has made; the document that it leaves behind is the old one after these edits, also when
an error has stopped it.
-/

namespace Stencil

/-- What has come of a rendering. -/
structure Rendered where
  /-- The container, or why the rendering stopped. -/
  outcome : Except RenderError NodeId
  /-- The edits that were made, in order. -/
  edits : List Edit

namespace Rendered

/-- What a run has come to. -/
def ofRun : EStateM.Result RenderError Run NodeId → Rendered
  | .ok node r => ⟨.ok node, r.edits.reverse⟩
  | .error e r => ⟨.error e, r.edits.reverse⟩

/-- The document after the rendering. -/
def document (r : Rendered) (before : Document) : Document :=
  before.applyAll r.edits

end Rendered

namespace Engine

open Rendering

/-- A template in a container. Its root is evaluated with all levels of nesting left. -/
def renderIn (e : Engine) (name : String) (container : NodeId) : Rendering Unit :=
  e.evalTemplate e.evaluate name container

/-- Creates the container that the settings describe. -/
def newContainer (e : Engine) : Rendering NodeId := do
  let node ← create (.element e.settings.containerTag)
  edit (.className node e.settings.containerClass)
  return node

/-- The rendering of a template whose existence is known, into a container or a new one. -/
def renderRun (e : Engine) (name : String) (container : Option NodeId) : Rendering NodeId := do
  let node ← match container with
    | some node => pure node
    | none => e.newContainer
  e.renderIn name node
  return node

/-- Renders a template in a document whose next node gets the position `next`. A template that
does not exist leaves no trace. -/
def render (e : Engine) (name : String) (frame : Frame) (next : NodeId)
    (container : Option NodeId) : Rendered :=
  if e.hasTemplate name then
    .ofRun (e.renderRun name container (.start frame next))
  else ⟨.error (.templateNotFound name), []⟩

/-- Renders a template in a document of its own. -/
def renderAlone (e : Engine) (name : String) (frame : Frame) : Rendered :=
  e.render name frame 0 none

/-- The content that a template yields, in HTML. -/
def renderHtml (e : Engine) (name : String) (frame : Frame) : Except RenderError String :=
  let r := e.renderAlone name frame
  r.outcome.map fun node => ((r.document .empty).tree node).innerHtml

end Engine

end Stencil
