import Stencil.Document.Basic
import Stencil.Value.Collection
/-!
# Calls

What happens when a template calls a function. The function sees its arguments, the node in which
it is called and the position of the next node; it answers with a value or an error, and may have
edited the document before. The document itself it does not see: it knows no other nodes than its
own and those that it creates, but it can edit any position that it is able to name.
-/

namespace Stencil

/-- A change of the element in which something is evaluated. -/
inductive Change
  | attribute (name value : String)
  | className (value : String)
  /-- A new text after the last child. -/
  | text (content : String)
  deriving DecidableEq

/-- The edits that make a change of `node`, where `next` is the next free position. -/
def Change.edits (node next : NodeId) : Change → List Edit
  | .attribute name value => [.attribute node name value]
  | .className value => [.className node value]
  | .text content => [.text content, .append node next]

/-- How many nodes a change creates. -/
def Change.created : Change → Nat
  | .text _ => 1
  | _ => 0

/-- The edits that make changes of `node` one after the other. -/
def Change.editsAll (node : NodeId) : NodeId → List Change → List Edit
  | _, [] => []
  | next, c :: cs => c.edits node next ++ editsAll node (next + c.created) cs

/-- Where a function is called: the node that is being filled, and the position of the next node
that is created. -/
structure CallContext where
  node : NodeId
  next : NodeId

/-- What a call edits, and what it answers. -/
structure Reply where
  edits : List Edit
  answer : Except RenderError Value

namespace Reply

/-- Answers without an edit. -/
def ok (v : Value) : Reply := ⟨[], .ok v⟩

/-- Fails without an edit. -/
def error (e : RenderError) : Reply := ⟨[], .error e⟩

end Reply

/-- A function that a template can call, as the host program gives it. -/
abbrev HostFunction := CallContext → List Value → Reply

/-- The functions of a host program by their names. -/
abbrev Host := String → HostFunction

namespace Host

/-- The host without functions: its names cannot be called. -/
def empty : Host := fun _ _ _ => .error (.notCallable .function)

/-- The functions of a host change the node in which they are called, and nothing else. -/
def Confined (host : Host) : Prop :=
  ∀ name ctx args, ∃ cs, (host name ctx args).edits = Change.editsAll ctx.node ctx.next cs

/-- Besides, what they change and what they answer depends on their arguments alone. -/
def Uniform (host : Host) : Prop :=
  ∀ name args, ∃ cs answer, ∀ ctx : CallContext,
    host name ctx args = ⟨Change.editsAll ctx.node ctx.next cs, answer⟩

theorem Uniform.confined {host : Host} (h : host.Uniform) : host.Confined := by
  intro name ctx args
  obtain ⟨cs, answer, hreply⟩ := h name args
  exact ⟨cs, by rw [hreply]⟩

theorem uniform_empty : empty.Uniform :=
  fun _ _ => ⟨[], _, fun _ => rfl⟩

theorem confined_empty : empty.Confined :=
  uniform_empty.confined

end Host

namespace Callable

/-- In the turn `turn`, counted from zero, one argument after the other is the answer. -/
def cycled (turn : Nat) (args : List Value) : Value :=
  match args[turn % args.length]? with
  | some v => v
  | none => .null

/-- The name of the function that is to run on a click. -/
def handlerName : List Value → Except RenderError String
  | .string name :: _ => .ok name
  | .function f :: _ => .ok f.name
  | v :: _ =>
    .error (.function "click" ("处理函数必须是名称或函数，实际为 " ++ v.kind.name))
  | [] => .error (.function "click" "缺少处理函数")

/-- The script that calls the function `handler` with the event and arguments in JSON. -/
def handlerScript (handler : String) (args : List Value) : String :=
  handler ++ "(" ++ ", ".intercalate ("event" :: args.map fun v => v.json.compact) ++ ")"

/-- Lets the element call a function on a click. -/
def clickReply : HostFunction := fun ctx args =>
  match handlerName args with
  | .ok handler =>
    ⟨[.attribute ctx.node "onclick" (handlerScript handler args.tail)], .ok .null⟩
  | .error e => .error e

/-- What a function does. -/
def reply (host : Host) : Callable → HostFunction
  | cycle turn _ => fun _ args => .ok (cycled turn args)
  | click => clickReply
  | .host name => host name

/-- The functions that belong to the language are as uniform as those of the host. -/
theorem uniform_reply {host : Host} (h : host.Uniform) (f : Callable) (args : List Value) :
    ∃ cs answer, ∀ ctx : CallContext,
      f.reply host ctx args = ⟨Change.editsAll ctx.node ctx.next cs, answer⟩ := by
  cases f with
  | cycle turn name => exact ⟨[], _, fun _ => rfl⟩
  | click =>
    cases hname : handlerName args with
    | ok handler =>
      refine ⟨[.attribute "onclick" (handlerScript handler args.tail)], .ok .null, fun ctx => ?_⟩
      rw [reply, clickReply, hname]
      rfl
    | error err =>
      refine ⟨[], .error err, fun ctx => ?_⟩
      rw [reply, clickReply, hname]
      rfl
  | host name => exact h name args

/-- They are confined as well. -/
theorem confined_reply {host : Host} (h : host.Confined) (f : Callable) (ctx : CallContext)
    (args : List Value) :
    ∃ cs, (f.reply host ctx args).edits = Change.editsAll ctx.node ctx.next cs := by
  cases f with
  | host name => exact h name ctx args
  | cycle turn name =>
    obtain ⟨cs, answer, hreply⟩ := uniform_reply Host.uniform_empty (.cycle turn name) args
    exact ⟨cs, congrArg Reply.edits (hreply ctx)⟩
  | click =>
    obtain ⟨cs, answer, hreply⟩ := uniform_reply Host.uniform_empty .click args
    exact ⟨cs, congrArg Reply.edits (hreply ctx)⟩

end Callable

end Stencil
