import Stencil.Proofs.Simulation
/-!
# Variables

What the variables of a rendering have to do with its outcome. Only those count whose names stand
somewhere in the templates: frames that agree on these are the same to a rendering, and go on
agreeing whatever is written to them. And a global variable is a variable that the rendering has
from the beginning, unless it has one with the same name: it makes no difference that it is written
to a frame only where it is looked up, and again in the next frame.
-/

namespace Stencil

open Rendering

/-! ## Frames that agree -/

/-- The two frames give the same values, or none, to these names. -/
def Frame.AgreeOn (names : String → Prop) (f f' : Frame) : Prop :=
  ∀ name, names name → Table.get? f name = Table.get? f' name

theorem Frame.AgreeOn.insert {names : String → Prop} {f f' : Frame} (name : String) (v : Value)
    (h : AgreeOn names f f') : AgreeOn names (Table.insert f name v) (Table.insert f' name v) := by
  intro other hother
  by_cases hname : name = other
  · subst hname
    rw [Table.get?_insert_self, Table.get?_insert_self]
  · rw [Table.get?_insert_of_ne _ _ hname, Table.get?_insert_of_ne _ _ hname]
    exact h other hother

/-- A name on which the frames agree has the same value, and is written to both or to none. -/
theorem Engine.alike_evalName (e : Engine) {names : String → Prop} {name : String}
    (hname : names name) :
    Alike (Run.Same (Frame.AgreeOn names)) (e.evalName name) (e.evalName name) := by
  intro r s h
  have hsame : r.scope.get? name = s.scope.get? name := h.top name hname
  cases hvar : s.scope.get? name with
  | some v =>
    rw [evalName_of_variable (hsame.trans hvar), evalName_of_variable hvar]
    exact .ok v h
  | none =>
    cases hglobal : e.global? name with
    | some v =>
      rw [evalName_of_global (hsame.trans hvar) hglobal, evalName_of_global hvar hglobal]
      exact .ok v ⟨h.top.insert name v, h.edits, h.next, h.turns⟩
    | none =>
      rw [evalName_of_none (hsame.trans hvar) hglobal, evalName_of_none hvar hglobal]
      exact .ok Value.null h

/-! ## Names in templates -/

/-- The name of the variable that a node stands for. -/
def Node.name? : Node → Option String
  | leaf (.name name) => some name
  | _ => none

/-- The names of the variables that are read anywhere in the templates. -/
def Engine.mentioned (e : Engine) : List String :=
  e.templates.flatMap fun t => t.2.walk.filterMap Node.name?

namespace Engine

/-- **A rendering depends on no variable that its templates do not mention.** With variables that
agree on all names in the templates of the engine, whatever else they hold and in whatever order,
a template comes to the same: to the same result or error by the same edits, and so to the same
document. -/
theorem render_mentioned (e : Engine) {frame frame' : Frame}
    (h : frame.AgreeOn (· ∈ e.mentioned) frame') (name : String) (next : NodeId)
    (container : Option NodeId) :
    e.render name frame next container = e.render name frame' next container := by
  -- all names in a node are mentioned, and so in the nodes right below it
  let P : Node → Prop := fun n => ∀ name, .leaf (.name name) ∈ n.walk → name ∈ e.mentioned
  have hP : ∀ n, P n → ∀ m ∈ n.children, P m :=
    fun n hn m hm name hmem => hn name (Node.walk_subset_of_mem_children hm hmem)
  have hroot : ∀ name root, e.template? name = some root → P root := by
    intro name root hget x hx
    refine List.mem_flatMap.2 ⟨_, Table.mem_of_get? hget, ?_⟩
    exact List.mem_filterMap.2 ⟨_, hx, rfl⟩
  have hname : ∀ name, P (.leaf (.name name)) →
      Alike (Run.Same (Frame.AgreeOn (· ∈ e.mentioned))) (e.evalName name) (e.evalName name) :=
    fun name hn => e.alike_evalName (hn name (Node.mem_walk_self _))
  exact e.render_eq e.globals (fun name v hf => hf.insert name v) hP hroot hname h name next
    container

/-- Variables in another order, with another value for a name that no template mentions, and with
one more that is assigned but never read. -/
theorem render_mentioned_reordered :
    let card : Node := .block [.loop ["x"] (.leaf (.name "xs"))
      (.block [.assignment "total" (.leaf (.name "x")),
        .output .content [.expr (.leaf (.name "x"))]]) none]
    let e : Engine := ⟨.standard, [], [], .empty,
      [("card", card), ("page", .block [.render "card"])], [],
      { Settings.standard with maxDepth := 8 }⟩
    let xs : Value := .array [.string "a", .string "b"]
    let frame : Frame := [("xs", xs), ("x", .null), ("other", .null)]
    let frame' : Frame := [("x", .null), ("other", .string "c"), ("total", .null), ("xs", xs)]
    e.mentioned = ["xs", "x", "x"] ∧ frame.AgreeOn (· ∈ e.mentioned) frame' ∧
      (e.render "page" frame 0 none).outcome = .ok 0 ∧
      (e.render "page" frame 0 none).edits.length = 6 ∧
      e.render "page" frame 0 none = e.render "page" frame' 0 none := by
  intro card e xs frame frame'
  have h : frame.AgreeOn (· ∈ e.mentioned) frame' := by
    intro name hname
    have hnames : name = "xs" ∨ name = "x" := by
      change name ∈ ["xs", "x", "x"] at hname
      simpa using hname
    rcases hnames with rfl | rfl <;> rfl
  have houtcome : (e.render "page" frame 0 none).outcome = .ok 0 := by
    dsimp +zetaDelta only
    decide
  have hedits : (e.render "page" frame 0 none).edits.length = 6 := by
    dsimp +zetaDelta only
    decide
  exact ⟨rfl, h, houtcome, hedits, e.render_mentioned h "page" 0 none⟩

end Engine

/-! ## Global variables -/

namespace Table

variable {α : Type}

/-- The table with the entries of `defaults` behind it whose keys it does not have. -/
def withDefaults (t defaults : Table α) : Table α :=
  t ++ defaults.filter fun entry => !t.has entry.1

theorem get?_append (t t' : Table α) (key : String) :
    get? (t ++ t') key = (get? t key).or (get? t' key) := by
  induction t with
  | nil => rfl
  | cons entry t ih =>
    obtain ⟨k, v⟩ := entry
    by_cases hk : k = key
    · simp [get?, hk]
    · simp only [List.cons_append, get?, if_neg hk, ih]

theorem get?_filter_of_pos {p : String → Bool} {key : String} (h : p key = true) (t : Table α) :
    get? (t.filter fun entry => p entry.1) key = get? t key := by
  induction t with
  | nil => rfl
  | cons entry t ih =>
    obtain ⟨k, v⟩ := entry
    by_cases hk : k = key
    · subst hk
      rw [List.filter_cons, if_pos h, get?, get?, if_pos rfl, if_pos rfl]
    · rw [List.filter_cons, get?, if_neg hk]
      by_cases hp : p k = true
      · rw [if_pos hp, get?, if_neg hk, ih]
      · rw [if_neg hp, ih]

theorem get?_withDefaults (t defaults : Table α) (key : String) :
    get? (t.withDefaults defaults) key = (get? t key).or (get? defaults key) := by
  rw [withDefaults, get?_append]
  cases hget : get? t key with
  | some v => rfl
  | none =>
    have hmissing : (!has t key) = true := by rw [has, hget]; rfl
    rw [Option.none_or, Option.none_or, get?_filter_of_pos (p := fun key => !has t key) hmissing]

end Table

/-- The frame `full` gives its value to every name that has one in `f` or else as a global
variable. -/
def Frame.CompletedBy (globals f full : Frame) : Prop :=
  ∀ name, Table.get? full name = (Table.get? f name).or (Table.get? globals name)

theorem Frame.CompletedBy.insert {globals f full : Frame} (name : String) (v : Value)
    (h : CompletedBy globals f full) :
    CompletedBy globals (Table.insert f name v) (Table.insert full name v) := by
  intro other
  by_cases hname : name = other
  · subst hname
    rw [Table.get?_insert_self, Table.get?_insert_self]
    rfl
  · rw [Table.get?_insert_of_ne _ _ hname, Table.get?_insert_of_ne _ _ hname]
    exact h other

/-- When a global variable is looked up, it comes into the frame, and there was nothing in the way
of its value before. -/
theorem Frame.CompletedBy.lookUp {globals f full : Frame} {name : String} {v : Value}
    (h : CompletedBy globals f full) (habsent : Table.get? f name = none)
    (hglobal : Table.get? globals name = some v) :
    CompletedBy globals (Table.insert f name v) full := by
  intro other
  by_cases hname : name = other
  · subst hname
    rw [h name, habsent, hglobal, Table.get?_insert_self]
    rfl
  · rw [Table.get?_insert_of_ne _ _ hname]
    exact h other

namespace Engine

theorem alike_evalName_globals (e : Engine) (name : String) :
    Alike (Run.Same (Frame.CompletedBy e.globals)) (e.evalName name)
      (Engine.evalName { e with globals := [] } name) := by
  intro r s h
  have hfull : s.scope.get? name = (r.scope.get? name).or (e.global? name) := h.top name
  cases hvar : r.scope.get? name with
  | some v =>
    rw [hvar] at hfull
    rw [evalName_of_variable hvar, evalName_of_variable hfull]
    exact .ok v h
  | none =>
    rw [hvar] at hfull
    cases hglobal : e.global? name with
    | some v =>
      rw [hglobal] at hfull
      -- one run writes the value that the other one has had all along
      rw [evalName_of_global hvar hglobal, evalName_of_variable hfull]
      exact .ok v ⟨h.top.lookUp hvar hglobal, h.edits, h.next, h.turns⟩
    | none =>
      rw [hglobal] at hfull
      rw [evalName_of_none hvar hglobal, evalName_of_none hfull rfl]
      exact .ok Value.null h

/-- **Global variables are variables by default.** An engine without them renders in the same way
what has them among its variables, where they are not there already: with the same result or error
and by the same edits. -/
theorem render_globals (e : Engine) (name : String) (frame : Frame) (next : NodeId)
    (container : Option NodeId) :
    e.render name frame next container =
      Engine.render { e with globals := [] } name (Table.withDefaults frame e.globals) next
        container :=
  e.render_eq [] (P := fun _ => True) (fun name v hf => hf.insert name v)
    (fun _ _ _ _ => trivial) (fun _ _ _ => trivial) (fun name _ => e.alike_evalName_globals name)
    (Table.get?_withDefaults frame e.globals) name next container

end Engine

end Stencil
