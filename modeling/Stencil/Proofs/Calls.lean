import Mathlib
import Stencil.Proofs.Comparison.Rules
/-!
# Calls of levels

All that a rule asks of the level it reads with is expressions and blocks. Between these calls it
reads by itself. So each rule is a program (`Program`) that can be run with any answers to its
calls: to be one is a comparison, whose levels depend on the answers. And it does not matter whether
the depth of nesting is told by a stack of levels or by a counter that goes up when a call begins
and down when it has been answered (`run_counted`).

A counter can be left too high by a call that is not answered, but then nothing reads any more:
where a call is answered the counter is where it was.
-/

namespace Stencil

/-- What a rule asks of the level it reads with. -/
inductive Call
  | expression (power : Nat)
  | block (nested : Bool)

/-- What it gets. -/
def Call.Answer : Call → Type
  | expression _ => Option Node
  | block _ => Node

/-- The answer of a level to a call. -/
def Level.answer (l : Level) : (q : Call) → Reading q.Answer
  | .expression power => l.expression power
  | .block nested => l.block nested

/-- The level with other answers. -/
def Level.using (l : Level) (answer : (q : Call) → Reading q.Answer) : Level :=
  { l with expression := fun power => answer (.expression power)
           block := fun nested => answer (.block nested) }

/-- What is read between calls, and what is done with their answers. -/
inductive Program (α : Type) : Type 1
  | done (a : α)
  | step {β : Type} (r : Reading β) (next : β → Program α)
  | call (q : Call) (next : q.Answer → Program α)

namespace Program

variable {α β : Type} {m : Type → Type}

/-- Goes on with another program. -/
def bind : Program α → (α → Program β) → Program β
  | done a, f => f a
  | step r next, f => step r fun b => (next b).bind f
  | call q next, f => call q fun b => (next b).bind f

/-- A program with the answers to its calls, which may do more than read. -/
def run [Monad m] [MonadLiftT Reading m] (answer : (q : Call) → m q.Answer) : Program α → m α
  | done a => pure a
  | step r next => monadLift r >>= fun b => (next b).run answer
  | call q next => answer q >>= fun b => (next b).run answer

theorem run_bind [Monad m] [LawfulMonad m] [MonadLiftT Reading m]
    (answer : (q : Call) → m q.Answer) (P : Program α) (f : α → Program β) :
    (P.bind f).run answer = P.run answer >>= fun a => (f a).run answer := by
  induction P with
  | done a => rw [bind, run, pure_bind]
  | step r next ih => simp only [bind, run, ih, bind_assoc]
  | call q next ih => simp only [bind, run, ih, bind_assoc]

end Program

open Reading

/-! ## Readings that are programs -/

/-- Answers to all calls. -/
abbrev Answers :=
  (q : Call) → Reading q.Answer

/-- Whether a reading that uses answers is a program, the same for all answers, and its results
have `P`. -/
def Programmed {α : Type} (P : α → Prop) (r : Answers → Reading α) : Prop :=
  ∃ p : Program {a // P a}, ∀ answer, r answer = Subtype.val <$> p.run answer

namespace Programmed

variable {α β : Type} {P : α → Prop} {Q : β → Prop} {r : Answers → Reading α}

theorem pure {a : α} (h : P a) : Programmed P fun _ => Pure.pure a :=
  ⟨.done ⟨a, h⟩, fun _ => rfl⟩

theorem bind {f : Answers → α → Reading β} (h : Programmed P r)
    (hf : ∀ a, P a → Programmed Q fun answer => f answer a) :
    Programmed Q fun answer => r answer >>= f answer := by
  obtain ⟨p, hp⟩ := h
  choose q hq using fun a : {a // P a} => hf a.1 a.2
  refine ⟨p.bind q, fun answer => ?_⟩
  change r answer >>= f answer = _
  rw [Program.run_bind, hp, bind_map_left, map_bind]
  exact congrArg _ (funext fun a => hq a answer)

/-- What reads by itself is a step of a program. -/
theorem step (r : Reading α) (h : ∀ a, P a) : Programmed P fun _ => r := by
  refine ⟨.step r fun a => .done ⟨a, h a⟩, fun answer => ?_⟩
  simp only [Program.run, monadLift_self, map_bind, map_pure, bind_pure]

theorem ask (q : Call) {P : q.Answer → Prop} (h : ∀ a, P a) :
    Programmed P fun answer => answer q := by
  refine ⟨.call q fun a => .done ⟨a, h a⟩, fun answer => ?_⟩
  simp only [Program.run, map_bind, map_pure, bind_pure]

/-- What follows a step by itself. -/
theorem after (r : Reading α) {f : Answers → α → Reading β}
    (hf : ∀ a, Programmed Q fun answer => f answer a) :
    Programmed Q fun answer => r >>= f answer :=
  .bind (.step (P := fun _ => True) r fun _ => trivial) fun a _ => hf a

theorem failAt {line : Nat} {fault : SyntaxFault} :
    Programmed P fun _ => Reading.failAt line fault :=
  ⟨.step (Reading.failAt line fault) .done, fun _ => rfl⟩

end Programmed

/-- To be a program is a comparison of every reading with itself, with whatever answers. -/
def Level.comparison (l : Level) : Comparison .equal (l.using ·) (l.using ·) where
  rel _ _ _ _ R r _ := Programmed (fun a => ∃ b, R a b) r
  pure hab := .pure ⟨_, hab⟩
  bind hr hf := .bind hr fun a ⟨b, hab⟩ => hf a b hab
  failAt _ := .failAt
  look hf := .after _ fun c => hf c c.pending (Likeness.sees_equal c)
  take hf := .after _ fun t => hf t trivial
  pass _ := .step _ fun u => ⟨u, rfl⟩
  owner hnone hsome := .after _ fun o => by
    cases o with
    | none => exact hnone
    | some p => exact hsome p p rfl rfl
  still hthere := .after _ fun o => by
    cases o with
    | none => exact .bind (P := fun _ => False) .failAt fun _ hfalse => hfalse.elim
    | some _ => exact hthere
  mark := .step _ fun u => ⟨u, rfl⟩
  record _ := .step _ fun u => ⟨u, rfl⟩
  awaited hf _ hnext := .after _ fun _ =>
    .bind (.ask (.block true) (P := fun _ => True) fun _ => trivial) fun body _ =>
    .after _ fun o => by
      cases o with
      | none =>
        simp only [hf]
        exact .failAt
      | some p =>
        exact hnext body body p p rfl (Likeness.branches_equal p.branches)
  expression power := .ask (.expression power) fun o => ⟨o, rel_self fun _ _ => rfl⟩
  block nested := .ask (.block nested) fun n => ⟨n, rfl⟩
  attributeText {_ text _ line} _ _ :=
    .step (StateT.lift (l.attributeText text line)) fun n => ⟨n, rfl⟩
  power _ := ⟨_, fun _ => ⟨rfl, rfl⟩⟩
  resolve {n _} hn := ⟨Statement.resolve l n, _, rfl, fun _ => ⟨rfl, hn ▸ rfl⟩⟩

theorem Level.exists_program {l : Level} {k w : Bool} {α β : Type} {R : α → β → Prop}
    {r : Answers → Reading α} {s : Answers → Reading β} (h : l.comparison.rel k w R r s) :
    ∃ p : Program α, ∀ answer, r answer = p.run answer := by
  obtain ⟨p, hp⟩ := h
  refine ⟨p.bind fun a => .done a.1, fun answer => ?_⟩
  rw [hp, Program.run_bind, map_eq_pure_bind]
  rfl

/-! ## Counting the depth -/

/-- Readings with a counter for the depth of nesting. -/
abbrev Counting := StateT Nat Reading

namespace Counting

/-- Goes one level down, if this is not too deep. -/
def enter (limit : Nat) : Counting Unit := fun depth c =>
  if limit < depth + 1 then .error ⟨c.line, .tooDeep limit⟩ else .ok (((), depth + 1), c)

/-- Comes up again. -/
def leave : Counting Unit :=
  modify fun depth => depth - 1

variable {limit depth : Nat}

theorem run_enter_of_lt (h : depth < limit) : (enter limit).run depth = pure ((), depth + 1) := by
  funext c
  exact if_neg (Nat.not_lt_of_le h)

theorem run_enter_of_le (h : limit ≤ depth) :
    (enter limit).run depth = Reading.fail (.tooDeep limit) := by
  funext c
  exact if_pos (Nat.lt_succ_of_le h)

theorem run_leave : leave.run (depth + 1) = pure ((), depth) :=
  rfl

end Counting

/-- What is read at a call, with the rules of a grammar and with a level for the calls below. -/
def Grammar.respond (g : Grammar) (l : Level) : (q : Call) → Reading q.Answer
  | .expression power => g.expressionOf l power
  | .block nested => l.blockOf nested

namespace Dialect

open Counting

variable {d : Dialect} {A : String → Nat → Except SyntaxError Node}

/-- Programs for what a dialect reads at calls and in lines, whatever levels are left. -/
structure Programs (d : Dialect) (A : String → Nat → Except SyntaxError Node) where
  call : (q : Call) → Program q.Answer
  line : OutputMode → Program (Option Node)
  run_call : ∀ n q, (call q).run (d.levels A n).answer = d.grammar.respond (d.levels A n) q
  run_line : ∀ n mode, (line mode).run (d.levels A n).answer = (d.levels A n).content mode

/-- **The rules of the standard grammar are programs.** -/
theorem nonempty_programs (hd : d.grammar.HasStandardRules) : Nonempty (d.Programs A) := by
  have hcall : ∀ q, ∃ p : Program q.Answer, ∀ answer,
      d.grammar.respond ((d.levels A 0).using answer) q = p.run answer := by
    intro q
    cases q with
    | expression power =>
      have hgrammars := (d.levels A 0).comparison.grammars_of_standard hd fun _ _ => rfl
      exact Level.exists_program (hgrammars.expressionOf (k := true) (w := true) power)
    | block nested =>
      exact Level.exists_program ((d.levels A 0).comparison.blockOf (k := true) (w := true) nested)
  have hline : ∀ mode, ∃ p : Program (Option Node), ∀ answer,
      ((d.levels A 0).using answer).content mode = p.run answer := fun mode =>
    Level.exists_program ((d.levels A 0).comparison.content (k := true) (w := true) mode)
  choose call hcall using hcall
  choose line hline using hline
  have husing : ∀ n, (d.levels A 0).using (d.levels A n).answer = d.levels A n := by
    intro n
    cases n <;> rfl
  exact ⟨call, line, fun n q => husing n ▸ (hcall q _).symm,
    fun n mode => husing n ▸ (hline mode _).symm⟩

namespace Programs

/-- The answer to a call where the depth is counted. Of calls in each other there are at most
`fuel`; the limit of nesting is met before that (`run_answer`). -/
def answer (p : d.Programs A) : Nat → (q : Call) → Counting q.Answer
  | 0, _ => monadLift (Reading.fail .unexpectedEnd : Reading _)
  | fuel + 1, q => do
    enter d.maxDepth
    let a ← (p.call q).run (p.answer fuel)
    leave
    return a

/-- A line where the depth is counted. -/
def content (p : d.Programs A) (fuel : Nat) (mode : OutputMode) : Counting (Option Node) :=
  (p.line mode).run (p.answer fuel)

end Programs

end Dialect

/-- A program leaves the counter where it is if the answers to its calls do. -/
theorem Program.run_counted {α : Type} {answer : (q : Call) → Reading q.Answer}
    {counted : (q : Call) → Counting q.Answer} {depth : Nat}
    (h : ∀ q, (counted q).run depth = (fun a => (a, depth)) <$> answer q) (P : Program α) :
    (P.run counted).run depth = (fun a => (a, depth)) <$> P.run answer := by
  induction P with
  | done a => simp only [run, StateT.run_pure, map_pure]
  | step r next ih =>
    simp only [run, StateT.run_bind, StateT.run_monadLift, monadLift_self, bind_assoc, pure_bind,
      map_bind]
    exact congrArg _ (funext ih)
  | call q next ih =>
    simp only [run, StateT.run_bind, h, map_bind, bind_map_left]
    exact congrArg _ (funext ih)

namespace Dialect.Programs

open Counting

variable {d : Dialect} {A : String → Nat → Except SyntaxError Node} (p : d.Programs A)

/-- At the limit no call is answered. -/
theorem run_answer_of_le {depth : Nat} (h : d.maxDepth ≤ depth) (fuel : Nat) (q : Call) :
    (p.answer (fuel + 1) q).run depth =
      (fun a => (a, depth)) <$> (d.levels A (d.maxDepth - depth)).answer q := by
  rw [Nat.sub_eq_zero_of_le h, answer, StateT.run_bind, run_enter_of_le h]
  cases q <;> rfl

/-- **Counting the depth comes to the same as stacking levels**, and leaves the counter where it
was. -/
theorem run_answer {depth fuel : Nat} (h : d.maxDepth ≤ depth + fuel) (q : Call) :
    (p.answer (fuel + 1) q).run depth =
      (fun a => (a, depth)) <$> (d.levels A (d.maxDepth - depth)).answer q := by
  induction fuel generalizing depth q with
  | zero => exact p.run_answer_of_le h 0 q
  | succ fuel ih =>
    rcases Nat.lt_or_ge depth d.maxDepth with hlt | hge
    · have hbelow : ∀ q, (p.answer (fuel + 1) q).run (depth + 1) =
          (fun a => (a, depth + 1)) <$> (d.levels A (d.maxDepth - (depth + 1))).answer q :=
        fun q => ih (by omega) q
      have hlevel : d.maxDepth - depth = d.maxDepth - (depth + 1) + 1 := by omega
      rw [answer, StateT.run_bind, run_enter_of_lt hlt, pure_bind, StateT.run_bind,
        Program.run_counted hbelow, p.run_call, hlevel]
      simp only [StateT.run_bind, run_leave, bind_map_left, pure_bind, StateT.run_pure]
      cases q <;> rfl
    · exact p.run_answer_of_le hge (fuel + 1) q

/-- The same for lines. -/
theorem run_content {depth fuel : Nat} (h : d.maxDepth ≤ depth + fuel) (mode : OutputMode) :
    (p.content (fuel + 1) mode).run depth =
      (fun a => (a, depth)) <$> (d.levels A (d.maxDepth - depth)).content mode := by
  rw [content, Program.run_counted (p.run_answer h), p.run_line]

end Dialect.Programs

end Stencil
