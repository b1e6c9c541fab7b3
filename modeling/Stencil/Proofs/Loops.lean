import Stencil.Proofs.Adding
import Stencil.Proofs.Frames
/-!
# Loops

A loop binds all its turns before the first one begins. If the source cannot be bound, this is all
that happens: nothing is written, and no body is evaluated. Otherwise the turns follow each other,
each in a frame that is made from the frame around the loop, the entry of the turn and the record
of the turn, and from nothing that another turn has left behind.
-/

namespace Stencil

namespace Loop

/-! ## Which sources can be bound -/

/-- An element of an array gives values to the names: an array of as many items as there are names,
or anything else if there is a single name. -/
inductive Binds (names : List String) : Value → List Value → Prop
  | dealt {values : List Value} : values.length = names.length → Binds names (.array values) values
  | whole {v : Value} : v.kind ≠ .array → names.length = 1 → Binds names v [v]

/-- An element of an array gives the names no values, since it has another number of them. -/
inductive Mismatch (names : List String) : Value → Nat → Prop
  | dealt {values : List Value} :
    values.length ≠ names.length → Mismatch names (.array values) values.length
  | whole {v : Value} : v.kind ≠ .array → names.length ≠ 1 → Mismatch names v 1

/-- A source gives values to the names, entry by entry. -/
inductive Entries (names : List String) : Value → List (List Value) → Prop
  | null : Entries names .null []
  | array {items : List Value} {entries : List (List Value)} :
    List.Forall₂ (Binds names) items entries → Entries names (.array items) entries
  | object {members : Table Value} : names.length = 2 →
    Entries names (.object members) (members.map fun m => [.string m.1, m.2])

/-- A source cannot be bound, and the error that says so: of several elements that do not fit, the
first one is told. -/
inductive Malformed (names : List String) : Value → RenderError → Prop
  | notIterable {v : Value} : v.kind ≠ .null → v.kind ≠ .array → v.kind ≠ .object →
    Malformed names v (.notIterable v.kind)
  | object {members : Table Value} : names.length ≠ 2 →
    Malformed names (.object members) (.objectLoopArity names.length)
  | element {before after : List Value} {v : Value} {count : Nat} :
    (∀ u ∈ before, ∃ values, Binds names u values) → Mismatch names v count →
    Malformed names (.array (before ++ v :: after)) (.loopArity names.length count)

variable {names : List String} {v source : Value} {values : List Value} {count : Nat}
variable {entries : List (List Value)} {err : RenderError}

theorem bindElement_of_binds (h : Binds names v values) : bindElement names v = .ok values := by
  cases h with
  | dealt hlength => simp [bindElement, hlength]
  | whole hkind hsingle => cases v <;> simp_all [bindElement, Value.kind]

/-- What cannot be bound is told with both numbers. -/
theorem bindElement_of_mismatch (h : Mismatch names v count) :
    bindElement names v = .error (.loopArity names.length count) := by
  cases h with
  | dealt hlength => simp [bindElement, hlength]
  | whole hkind hsingle => cases v <;> simp_all [bindElement, Value.kind]

/-- Every element can be bound or not; there is no third way. -/
theorem binds_or_mismatch (names : List String) (v : Value) :
    (∃ values, Binds names v values) ∨ ∃ count, Mismatch names v count := by
  by_cases hkind : v.kind = .array
  · cases v with
    | array values =>
      by_cases hlength : values.length = names.length
      · exact .inl ⟨values, .dealt hlength⟩
      · exact .inr ⟨values.length, .dealt hlength⟩
    | _ => cases hkind
  · by_cases hsingle : names.length = 1
    · exact .inl ⟨[v], .whole hkind hsingle⟩
    · exact .inr ⟨1, .whole hkind hsingle⟩

/-- An element that fits leaves the outcome to those behind it. -/
theorem bindAll_cons_of_binds (h : Binds names v values) (items : List Value) :
    bindAll names (v :: items) = (bindAll names items).map (values :: ·) := by
  rw [bindAll, bindElement_of_binds h]
  cases bindAll names items <;> rfl

theorem bindAll_of_forall₂ {items : List Value} (h : List.Forall₂ (Binds names) items entries) :
    bindAll names items = .ok entries := by
  induction h with
  | nil => rfl
  | cons hv _ ih =>
    rw [bindAll_cons_of_binds hv, ih]
    rfl

/-- The first element that does not fit ends the binding, whatever stands behind it. -/
theorem bindAll_of_mismatch {before : List Value}
    (hbefore : ∀ u ∈ before, ∃ values, Binds names u values) (h : Mismatch names v count)
    (after : List Value) :
    bindAll names (before ++ v :: after) = .error (.loopArity names.length count) := by
  induction before with
  | nil =>
    rw [List.nil_append, bindAll, bindElement_of_mismatch h]
    rfl
  | cons u before ih =>
    obtain ⟨values, hu⟩ := hbefore u List.mem_cons_self
    rw [List.cons_append, bindAll_cons_of_binds hu,
      ih fun w hw => hbefore w (List.mem_cons_of_mem u hw)]
    rfl

/-- A source that gives entries is bound to them. -/
theorem bindings_of_entries (h : Entries names source entries) :
    bindings names source = .ok entries := by
  cases h with
  | null => rfl
  | array hitems => exact bindAll_of_forall₂ hitems
  | object hpair => simp [bindings, hpair]

theorem bindings_of_malformed (h : Malformed names source err) :
    bindings names source = .error err := by
  cases h with
  | notIterable hnull harray hobject => cases source <;> simp_all [bindings, Value.kind]
  | object hpair => simp [bindings, hpair]
  | element hbefore hv => exact bindAll_of_mismatch hbefore hv _

/-- Of the elements that do not fit there is a first one. -/
theorem malformed_of_mem {items : List Value} (hv : v ∈ items) (h : Mismatch names v count) :
    ∃ count, Malformed names (.array items) (.loopArity names.length count) := by
  suffices hfirst : ∃ before u after count, items = before ++ u :: after ∧
      (∀ w ∈ before, ∃ values, Binds names w values) ∧ Mismatch names u count by
    obtain ⟨before, u, after, count, rfl, hbefore, hu⟩ := hfirst
    exact ⟨count, .element hbefore hu⟩
  induction items with
  | nil => cases hv
  | cons u items ih =>
    rcases binds_or_mismatch names u with hu | ⟨count, hu⟩
    · have hrest : v ∈ items := by
        rcases List.mem_cons.1 hv with rfl | hrest
        · obtain ⟨values, hbinds⟩ := hu
          have := (bindElement_of_binds hbinds).symm.trans (bindElement_of_mismatch h)
          cases this
        · exact hrest
      obtain ⟨before, w, after, count, rfl, hbefore, hw⟩ := ih hrest
      exact ⟨u :: before, w, after, count, rfl, List.forall_mem_cons.2 ⟨hu, hbefore⟩, hw⟩
    · exact ⟨[], u, items, count, rfl, fun _ hw => absurd hw List.not_mem_nil, hu⟩

/-! ## What a turn sees -/

/-- The frame of a turn: the frame around the loop, with the values of the names and the record
written to it. -/
def turnFrame (outer : Frame) (names : List String) (values : List Value) (record : Value) :
    Frame :=
  Table.insert (Table.merge outer (names.zip values)) "loop" record

/-- Assigning one after the other is merging into the innermost frame. -/
theorem foldl_assign (f : Frame) (fs : List Frame) (entries : Table Value) :
    entries.foldl (fun s e => s.assign e.1 e.2) (⟨f :: fs⟩ : Scope) =
      ⟨Table.merge f entries :: fs⟩ := by
  induction entries generalizing f with
  | nil => rfl
  | cons entry entries ih => exact ih (Table.insert f entry.1 entry.2)

/-- The scope of a turn is a new frame on those around the loop, and the new frame depends on the
innermost one of these. -/
theorem turnScope_opened (s : Scope) (names : List String) (values : List Value) (record : Value) :
    turnScope s.opened names values record =
      ⟨turnFrame s.top names values record :: s.frames⟩ := by
  rw [turnScope, Scope.opened, foldl_assign]
  rfl

/-- The record hides every other variable `loop`. -/
theorem get?_turnFrame_loop (outer : Frame) (names : List String) (values : List Value)
    (record : Value) : Table.get? (turnFrame outer names values record) "loop" = some record :=
  Table.get?_insert_self _ _ _

/-- Of several values for one name the last one counts; other variables are those from outside. -/
theorem get?_turnFrame_of_ne (outer : Frame) (names : List String) (values : List Value)
    (record : Value) {name : String} (h : name ≠ "loop") :
    Table.get? (turnFrame outer names values record) name =
      (Table.get? (names.zip values).reverse name).or (Table.get? outer name) := by
  rw [turnFrame, Table.get?_insert_of_ne _ _ h.symm, Table.get?_merge]

/-- A record that tells a turn, counted from zero, where it stands. -/
def Tells (turn total : Nat) (record : Value) : Prop :=
  ∃ fields cycle, record = .object fields ∧
    Table.keys fields = ["index", "even", "odd", "first", "last", "total", "cycle"] ∧
    Table.get? fields "index" = some (.ofNat (turn + 1)) ∧
    Table.get? fields "even" = some (.bool (decide ((turn + 1) % 2 = 0))) ∧
    Table.get? fields "odd" = some (.bool (decide ((turn + 1) % 2 = 1))) ∧
    Table.get? fields "first" = some (.bool (decide (turn = 0))) ∧
    Table.get? fields "last" = some (.bool (decide (turn + 1 = total))) ∧
    Table.get? fields "total" = some (.ofNat total) ∧
    Table.get? fields "cycle" = some (.function cycle) ∧
    (∀ host ctx, cycle.reply host ctx [] = .ok .null) ∧
    ∀ host ctx args, ∀ h : 0 < args.length,
      cycle.reply host ctx args = .ok (args.get ⟨turn % args.length, Nat.mod_lt _ h⟩)

/-- The record of a turn tells what it should. -/
theorem tells_record (turn total serial : Nat) : Tells turn total (record turn total serial) := by
  have hodd : decide ((turn + 1) % 2 = 1) = ((turn + 1) % 2 != 0) := by
    rcases Nat.mod_two_eq_zero_or_one (turn + 1) with h | h <;> simp [h]
  refine ⟨_, .cycle turn serial, rfl, rfl, rfl, rfl, ?_, rfl, rfl, rfl, rfl, fun _ _ => rfl, ?_⟩
  · rw [hodd]
    rfl
  · intro host ctx args h
    have hget : args[turn % args.length]? = some (args.get ⟨turn % args.length, Nat.mod_lt _ h⟩) :=
      List.getElem?_eq_getElem (Nat.mod_lt _ h)
    have hcycled : Callable.cycled turn args = args.get ⟨turn % args.length, Nat.mod_lt _ h⟩ := by
      rw [Callable.cycled, hget]
    exact congrArg Reply.ok hcycled

end Loop

namespace Engine

open Rendering

variable {e : Engine} {levels : Nat} {names : List String} {source body : Node}
variable {otherwise : Option Node} {c : NodeId} {r s : Run} {items : Value}
variable {entries : List (List Value)}

/-! ## Turns one after the other -/

/-- A turn by itself: the body in a frame that is put together from the scope around the loop,
whatever the scope is by then; afterwards, also after an error, the scope is the one around the
loop. -/
def soleTurn (ev : Evaluator) (c : NodeId) (names : List String) (body : Node) (outer : Scope)
    (total : Nat) (entry : List Value × Nat) : Rendering Unit := do
  let serial := (← get).turns
  let record := Loop.record entry.2 total serial
  modify fun r => { r with
    turns := serial + 1
    scope := ⟨Loop.turnFrame outer.top names entry.1 record :: outer.frames⟩ }
  thenScope (do let _ ← ev body c) fun _ => outer

/-- A body in a frame that is opened for it and then written to. -/
theorem inFrame_modifyScope {ev : Evaluator} (h : Causes e (fun _ => True) c (ev body c))
    (values : List Value) (record : Value) (r : Run) :
    (inFrame do
      modifyScope fun s => Loop.turnScope s names values record
      let _ ← ev body c) r =
    thenScope (do let _ ← ev body c) (fun _ => r.scope)
      { r with scope := ⟨Loop.turnFrame r.scope.top names values record :: r.scope.frames⟩ } := by
  have hturn : Causes e (fun _ => True) c (do
      modifyScope fun s => Loop.turnScope s names values record
      let _ ← ev body c) :=
    .bind (causes_turnScope record) fun _ => .bind h fun _ => .pure ()
  rw [hturn.inFrame_eq, ← Loop.turnScope_opened]
  rfl

/-- A turn leaves the scope of the loop behind it. -/
theorem scope_of_soleTurn {ev : Evaluator} {outer : Scope} {total : Nat}
    {entry : List Value × Nat} (h : soleTurn ev c names body outer total entry r = .ok () s) :
    s.scope = outer := by
  simp only [soleTurn, get_bind, modify_bind, thenScope] at h
  split at h
  · cases h
    rfl
  · cases h

/-- The turns that are left, by themselves: every turn finds the scope that the first one found. -/
theorem evalTurns_eq {ev : Evaluator} (h : Causes e (fun _ => True) c (ev body c))
    (total turn : Nat) (entries : List (List Value)) (r : Run) :
    evalTurns ev c names body total turn entries r =
      (entries.zipIdx turn).forM (soleTurn ev c names body r.scope total) r := by
  induction entries generalizing turn r with
  | nil => rfl
  | cons values rest ih =>
    rw [List.zipIdx_cons]
    change ((inFrame do
        modifyScope fun s =>
          Loop.turnScope s names values (Loop.record turn total r.turns)
        let _ ← ev body c) >>= fun _ => evalTurns ev c names body total (turn + 1) rest)
        { r with turns := r.turns + 1 } =
      (soleTurn ev c names body r.scope total (values, turn) >>= fun _ =>
        (rest.zipIdx (turn + 1)).forM (soleTurn ev c names body r.scope total)) r
    refine bind_congr_at (inFrame_modifyScope h values _ _) fun _ s hsole => ?_
    rw [ih, scope_of_soleTurn hsole]

/-- **A loop is the sequence of its turns.** Once the source has been evaluated and all entries are
bound, the entries are taken one after the other until a body fails, and each turn evaluates the
body in a frame that is made from the frame around the loop as it was after the source, the values
of the entry and the record of the turn. Nothing that a turn assigns is seen by another one or
after the loop. Without entries the other block, if there is one, is evaluated once in a frame of
its own. -/
theorem eval_loop_eq (hsource : e.eval levels source c r = .ok items s)
    (hentries : Loop.Entries names items entries) :
    let ev := e.eval levels
    let loop := e.eval (levels + 1) (.loop names source body otherwise) c
    (entries ≠ [] → loop r = (do
      entries.zipIdx.forM (soleTurn ev c names body s.scope entries.length)
      return Value.null : Rendering Value) s) ∧
    (entries = [] → loop r = (do
      match otherwise with
      | some other => inScope s.scope.opened do let _ ← ev other c
      | none => pure ()
      return Value.null : Rendering Value) s) ∧
    (loop.after r).scope = s.scope ∧
    (∀ turn serial, Loop.Tells turn entries.length (Loop.record turn entries.length serial)) ∧
    ∀ values record name,
      Table.get? (Loop.turnFrame s.scope.top names values record) name =
        if name = "loop" then some record
        else (Table.get? (names.zip values).reverse name).or (s.scope.get? name) := by
  intro ev loop
  have hcauses : ∀ body, Causes e (fun _ => True) c (ev body c) :=
    fun body => causes_eval_any e levels body c
  -- the bindings are made first, and the source is not evaluated again
  have hloop : loop r = (do
      evalLoop ev c names body otherwise entries
      return Value.null : Rendering Value) s := by
    change e.evalNode ev _ c r = _
    rw [evalNode, bind_of_ok hsource, Loop.bindings_of_entries hentries]
    rfl
  refine ⟨fun hne => ?_, fun hnil => ?_, ?_, fun turn serial => Loop.tells_record _ _ _, ?_⟩
  · obtain ⟨values, rest, rfl⟩ := List.exists_cons_of_ne_nil hne
    rw [hloop]
    exact bind_congr_at (evalTurns_eq (hcauses body) _ 0 (values :: rest) s) fun _ _ _ => rfl
  · subst hnil
    rw [hloop]
    cases otherwise with
    | none => rfl
    | some other =>
      have hbody : Causes e (fun _ => True) c (do let _ ← ev other c) :=
        (hcauses other).bind fun _ => .pure ()
      exact bind_congr_at (congrFun hbody.inFrame_eq s) fun _ _ _ => rfl
  -- the scope comes back in every case, with turns or without
  · have hkeeps : KeepsScope (do
        evalLoop ev c names body otherwise entries
        return Value.null) :=
      .bind (keepsScope_evalLoop hcauses) fun _ => .pure _
    rw [after, hloop]
    exact hkeeps s
  · intro values record name
    split
    · next hname => rw [hname, Loop.get?_turnFrame_loop]
    · next hname => rw [Loop.get?_turnFrame_of_ne _ _ _ _ hname, Scope.get?]

/-- Two turns over an object, which both find the variable `x` from outside and write to it. -/
theorem eval_loop_eq_members :
    let e : Engine := ⟨.standard, [], [], .empty, [], [], .standard⟩
    let source : Node := .object [.mk (.leaf (.name "a")) (.leaf (.name "x")),
      .mk (.leaf (.name "b")) (.leaf .null)]
    let body : Node := .assignment "x" (.leaf (.name "k"))
    let items : Value := .object [("a", .string "0"), ("b", .null)]
    let entries : List (List Value) := [[.string "a", .string "0"], [.string "b", .null]]
    let r : Run := .start [("x", .string "0")] 1
    let loop := e.eval 9 (.loop ["k", "v"] source body none) 0
    e.eval 8 source 0 r = .ok items r ∧ Loop.Entries ["k", "v"] items entries ∧ entries ≠ [] ∧
      loop r = (do
        entries.zipIdx.forM (soleTurn (e.eval 8) 0 ["k", "v"] body r.scope 2)
        return Value.null : Rendering Value) r ∧
      (loop.after r).scope = r.scope := by
  intro e source body items entries r loop
  have hsource : e.eval 8 source 0 r = .ok items r := rfl
  have hentries : Loop.Entries ["k", "v"] items entries := .object rfl
  have hne : entries ≠ [] := List.cons_ne_nil _ _
  obtain ⟨hloop, -, hscope, -, -⟩ :=
    @eval_loop_eq e 8 ["k", "v"] source body none 0 r r items entries hsource hentries
  exact ⟨hsource, hentries, hne, hloop hne, hscope⟩

/-- It is not enough that the source has no entries: an object without members is refused if there
are not two names, and the other block is not evaluated. -/
theorem not_eval_otherwise_of_empty :
    ¬ ∀ (e : Engine) (levels : Nat) (names : List String) (source body other : Node) (c : NodeId)
      (r s : Run) (items : Value), e.eval levels source c r = .ok items s →
      items = .null ∨ items = .array [] ∨ items = .object [] →
      e.eval (levels + 1) (.loop names source body (some other)) c r = (do
        inScope s.scope.opened do let _ ← e.eval levels other c
        return Value.null : Rendering Value) s := by
  intro h
  have hloop := h ⟨.standard, [], [], .empty, [], [], .standard⟩ 8 ["x"] (.object []) (.block [])
    (.block []) 0 (.start [] 1) (.start [] 1) (.object []) rfl (.inr (.inr rfl))
  cases hloop

/-! ## A loop that cannot be bound -/

/-- **A malformed loop has no effect.** If the source is not `null`, an array or an object, or is
an object while there are not two names, or is an array with an element that does not fit, the loop
fails with the error that says so and leaves the state just as the source has left it. This is so
for whatever evaluator the loop is given, so it asks for no body. -/
theorem eval_malformed_loop (hsource : e.eval levels source c r = .ok items s)
    (hitems : (items.kind ≠ .null ∧ items.kind ≠ .array ∧ items.kind ≠ .object) ∨
      (items.kind = .object ∧ names.length ≠ 2) ∨
      ∃ elements, items = .array elements ∧ ∃ v ∈ elements, ∃ count, Loop.Mismatch names v count) :
    ∃ err, Loop.Malformed names items err ∧ ∀ body otherwise,
      e.eval (levels + 1) (.loop names source body otherwise) c r = .error err s ∧
      ∀ ev : Evaluator, ev source c r = .ok items s →
        e.evalNode ev (.loop names source body otherwise) c r = .error err s := by
  have hmalformed : ∃ err, Loop.Malformed names items err := by
    rcases hitems with ⟨hnull, harray, hobject⟩ | ⟨hkind, hpair⟩ | ⟨elements, rfl, v, hv, n, hn⟩
    · exact ⟨_, .notIterable hnull harray hobject⟩
    · cases items with
      | object members => exact ⟨_, .object hpair⟩
      | _ => cases hkind
    · obtain ⟨count, h⟩ := Loop.malformed_of_mem hv hn
      exact ⟨_, h⟩
  obtain ⟨err, herr⟩ := hmalformed
  have hnode : ∀ (ev : Evaluator) body otherwise, ev source c r = .ok items s →
      e.evalNode ev (.loop names source body otherwise) c r = .error err s := by
    intro ev body otherwise hev
    rw [evalNode, bind_of_ok hev, Loop.bindings_of_malformed herr]
    rfl
  exact ⟨err, herr, fun body otherwise =>
    ⟨hnode _ body otherwise hsource, fun ev hev => hnode ev body otherwise hev⟩⟩

/-- The third of four elements has one item too many. Neither the elements before it nor the source
leave anything behind, except that the source has assigned a variable. -/
theorem eval_malformed_loop_third :
    let e : Engine := ⟨.standard, [], [("shop", .string "s")], .empty, [], [], .standard⟩
    let pair : Node := .array [.leaf (.string "k"), .leaf (.name "shop")]
    let triple : Node := .array [.leaf .null, .leaf .null, .leaf .null]
    let source : Node := .array [pair, pair, triple, pair]
    let good : Value := .array [.string "k", .string "s"]
    let bad : Value := .array [.null, .null, .null]
    let r : Run := .start [] 1
    let s : Run := .start [("shop", .string "s")] 1
    e.eval 8 source 0 r = .ok (.array [good, good, bad, good]) s ∧
      ∀ body otherwise,
        e.eval 9 (.loop ["k", "v"] source body otherwise) 0 r = .error (.loopArity 2 3) s := by
  intro e pair triple source good bad r s
  have hsource : e.eval 8 source 0 r = .ok (.array [good, good, bad, good]) s := rfl
  have hbad : Loop.Mismatch ["k", "v"] bad 3 := .dealt (by decide)
  obtain ⟨err, herr, hloop⟩ := eval_malformed_loop hsource
    (.inr (.inr ⟨_, rfl, bad, by simp, 3, hbad⟩))
  have herror : err = .loopArity 2 3 := by
    have hbindings := Loop.bindings_of_malformed herr
    cases hbindings
    rfl
  exact ⟨hsource, fun body otherwise => herror ▸ (hloop body otherwise).1⟩

end Engine

end Stencil
