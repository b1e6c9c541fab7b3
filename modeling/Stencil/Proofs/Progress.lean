import Stencil.Proofs.Comparison.Rules
import Stencil.Proofs.Expression
/-!
# Progress

Reading goes forward: what a reading leaves is an end of the tokens that it found. An expression
takes a token or fails, and so does every turn of a loop that goes on. A loop is therefore bounded
by nothing but the tokens: the number of turns that it is given is never used up, and it is what
its equation says, one turn and, if that goes on, the loop again.
-/

namespace Stencil

namespace Reading

variable {α β σ : Type} {P Q : α → Prop} {R : β → Prop} {r s : Reading α}

/-- Whether a reading leaves an end of the tokens that it found, and less than all of them if its
result has `P`. -/
def Onward (P : α → Prop) (r : Reading α) : Prop :=
  ∀ c a c', r c = .ok (a, c') →
    c'.tokens <:+ c.tokens ∧ (P a → c'.tokens.length < c.tokens.length)

/-- Whether a reading never goes back. -/
abbrev Forward (r : Reading α) : Prop :=
  Onward (fun _ => False) r

/-- Whether a reading takes a token or fails. -/
abbrev Consumes (r : Reading α) : Prop :=
  Onward (fun _ => True) r

/-- Whether a turn that goes on has taken a token. -/
abbrev Advances (turn : σ → Reading (σ ⊕ β)) : Prop :=
  ∀ s, Onward (fun x => x.isLeft = true) (turn s)

namespace Onward

theorem mono (h : Onward P r) (hQ : ∀ a, Q a → P a) : Onward Q r := by
  intro c a c' hr
  exact (h c a c' hr).imp id fun hlt ha => hlt (hQ a ha)

theorem forward (h : Onward P r) : Forward r :=
  h.mono fun _ => False.elim

theorem pure {a : α} (h : ¬P a) : Onward P (pure a) := by
  intro c b c' hr
  obtain ⟨rfl, rfl⟩ := pure_eq_ok.1 hr
  exact ⟨List.suffix_refl _, fun hb => absurd hb h⟩

theorem failAt {line : Nat} {fault : SyntaxFault} : Onward P (failAt line fault) :=
  fun _ _ _ hr => absurd hr failAt_ne_ok

theorem fail {fault : SyntaxFault} : Onward P (fail fault) :=
  fun _ _ _ hr => absurd hr fail_ne_ok

theorem expected {what : String} : Onward P (expected what) :=
  fun _ _ _ hr => absurd hr expected_ne_ok

/-- What comes first may take no token. -/
theorem bind {f : α → Reading β} (h : Forward r) (hf : ∀ a, Onward R (f a)) :
    Onward R (r >>= f) := by
  intro c b c' hr
  obtain ⟨a, c₁, hfirst, hthen⟩ := bind_eq_ok.1 hr
  obtain ⟨hsub, -⟩ := h c a c₁ hfirst
  obtain ⟨hsub', hlt⟩ := hf a c₁ b c' hthen
  exact ⟨hsub'.trans hsub, fun hb => Nat.lt_of_lt_of_le (hlt hb) hsub.length_le⟩

/-- What comes first takes a token, and so what follows need not. -/
theorem step {f : α → Reading β} (h : Consumes r) (hf : ∀ a, Forward (f a)) :
    Onward R (r >>= f) := by
  intro c b c' hr
  obtain ⟨a, c₁, hfirst, hthen⟩ := bind_eq_ok.1 hr
  obtain ⟨hsub, hlt⟩ := h c a c₁ hfirst
  obtain ⟨hsub', -⟩ := hf a c₁ b c' hthen
  exact ⟨hsub'.trans hsub, fun _ => Nat.lt_of_le_of_lt hsub'.length_le (hlt trivial)⟩

theorem get {f : Cursor → Reading β} (h : ∀ c, Onward R (f c)) : Onward R (get >>= f) :=
  fun c b c' hr => h c c b c' hr

theorem ite {p : Prop} [Decidable p] (h : Onward P r) (h' : Onward P s) :
    Onward P (if p then r else s) := by
  split
  · exact h
  · exact h'

theorem advance {P : Token → Prop} : Onward P advance := by
  intro c t c' hr
  obtain ⟨rest, htok, rfl⟩ := advance_eq_ok.1 hr
  rw [htok]
  exact ⟨List.suffix_cons t rest, fun _ => Nat.lt_succ_self _⟩

theorem expect {P : Unit → Prop} {kind : TokenKind} {text what : String} :
    Onward P (expect kind text what) := by
  intro c u c' hr
  obtain ⟨t, rest, htok, -, rfl⟩ := expect_eq_ok.1 hr
  rw [htok]
  exact ⟨List.suffix_cons t rest, fun _ => Nat.lt_succ_self _⟩

theorem literal {P : String → Prop} {what : String} : Onward P (literal what) := by
  intro c s c' hr
  obtain ⟨t, rest, htok, -, -, rfl⟩ := literal_eq_ok.1 hr
  rw [htok]
  exact ⟨List.suffix_cons t rest, fun _ => Nat.lt_succ_self _⟩

/-- What leaves the tokens alone, or some of them at the end, does not go back. -/
theorem of_suffix (h : ∀ c a c', r c = .ok (a, c') → c'.tokens <:+ c.tokens) : Forward r :=
  fun c a c' hr => ⟨h c a c' hr, False.elim⟩

/-- The steps with the statements that wait do not touch the tokens. -/
theorem owner : Forward owner? := by
  refine of_suffix fun c o c' hr => ?_
  obtain ⟨-, rfl⟩ := owner?_eq_ok.1 hr
  exact List.suffix_refl _

theorem await (kind : Compound) : Forward (await kind) := by
  refine of_suffix fun c u c' hr => ?_
  cases hr
  exact List.suffix_refl _

theorem settle : Forward settle? := by
  refine of_suffix fun c o c' hr => ?_
  cases hp : c.pending with
  | nil =>
    rw [settle?_of_nil hp] at hr
    cases hr
    exact List.suffix_refl _
  | cons p ps =>
    rw [settle?_of_cons hp] at hr
    cases hr
    exact List.suffix_refl _

theorem amend {f : Pending → Pending} : Forward (amend f) := by
  refine of_suffix fun c u c' hr => ?_
  cases hr
  dsimp only
  split <;> exact List.suffix_refl _

/-- To pass over tokens is to go forward, perhaps by none. -/
theorem dropWhile (pass : Token → Bool) :
    Forward (modify fun c => { c with tokens := c.tokens.dropWhile pass } : Reading Unit) := by
  refine of_suffix fun c u c' hr => ?_
  cases hr
  exact List.dropWhile_suffix _

theorem lift {x : Except SyntaxError α} : Forward (StateT.lift x : Reading α) := by
  refine of_suffix fun c a c' hr => ?_
  cases x with
  | error e => cases hr
  | ok b =>
    cases hr
    exact List.suffix_refl _

/-- The end of a turn that goes on behind a separator. -/
theorem separated {text : String} {a : σ} {b : β} :
    Onward (fun x => x.isLeft = true) (do
      if (← MonadState.get).at? .delimiter text then
        let _ ← Reading.advance
        return .inl a
      else return .inr b : Reading (σ ⊕ β)) :=
  .get fun _ => .ite (.step .advance fun _ => .pure id) (.pure Bool.false_ne_true)

end Onward

/-! ## Loops -/

variable {turn : σ → Reading (σ ⊕ β)}

/-- A loop goes forward if its turns do, whatever they take. -/
theorem Forward.loop (h : ∀ s, Forward (turn s)) (s : σ) : Forward (loop turn s) := by
  have hturns : ∀ n s, Forward (turns turn n s) := by
    intro n
    induction n with
    | zero => exact fun _ => .fail
    | succ n ih =>
      refine fun s => .bind (h s) fun x => ?_
      cases x with
      | inl s' => exact ih s'
      | inr b => exact .pure id
  exact fun c => hturns _ s c

namespace Advances

variable (h : Advances turn)
include h

/-- A loop with turns that take tokens may still take none, if its first turn ends it. -/
theorem forward (s : σ) : Forward (loop turn s) :=
  Forward.loop (fun s => (h s).forward) s

/-- More turns than there are tokens are never used up, neither by a loop that ends nor by one that
fails. -/
theorem turns_eq {n m : Nat} {s : σ} {c : Cursor} (hn : c.tokens.length < n)
    (hm : c.tokens.length < m) : turns turn n s c = turns turn m s c := by
  induction n generalizing m s c with
  | zero => omega
  | succ n ih =>
    obtain ⟨m, rfl⟩ : ∃ k, m = k + 1 := ⟨m - 1, by omega⟩
    rw [turns, turns]
    cases hturn : turn s c with
    | error e => rw [bind_of_error hturn, bind_of_error hturn]
    | ok x =>
      obtain ⟨x, c₁⟩ := x
      rw [bind_of_ok hturn, bind_of_ok hturn]
      cases x with
      | inl s' =>
        have hlt := (h s c _ _ hturn).2 rfl
        exact ih (by omega) (by omega)
      | inr b => rfl

/-- **A loop whose turns advance is what its equation says**: one turn and, if it goes on, the loop
again. -/
theorem loop_eq (s : σ) : loop turn s = (do
    match ← turn s with
    | .inl s => loop turn s
    | .inr b => return b) := by
  funext c
  rw [loop, turns]
  cases hturn : turn s c with
  | error e => rw [bind_of_error hturn, bind_of_error hturn]
  | ok x =>
    obtain ⟨x, c₁⟩ := x
    rw [bind_of_ok hturn, bind_of_ok hturn]
    cases x with
    | inl s' =>
      have hlt := (h s c _ _ hturn).2 rfl
      exact h.turns_eq hlt (Nat.lt_succ_self _)
    | inr b => rfl

/-- The loop is the only solution of its equation, since going on comes to an end. -/
theorem eq_loop_iff {f : σ → Reading β} :
    (∀ s, f s = (do
      match ← turn s with
      | .inl s => f s
      | .inr b => return b)) ↔ f = loop turn := by
  refine ⟨fun hf => ?_, ?_⟩
  · have hall : ∀ n s (c : Cursor), c.tokens.length < n → f s c = loop turn s c := by
      intro n
      induction n with
      | zero => exact fun _ _ hn => absurd hn (Nat.not_lt_zero _)
      | succ n ih =>
        intro s c hn
        rw [hf, h.loop_eq]
        cases hturn : turn s c with
        | error e => rw [bind_of_error hturn, bind_of_error hturn]
        | ok x =>
          obtain ⟨x, c₁⟩ := x
          rw [bind_of_ok hturn, bind_of_ok hturn]
          cases x with
          | inl s' =>
            have hlt := (h s c _ _ hturn).2 rfl
            exact ih s' c₁ (by omega)
          | inr b => rfl
    funext s c
    exact hall _ s c (Nat.lt_succ_self _)
  · rintro rfl
    exact h.loop_eq

end Advances

end Reading

open Reading

/-! ## Lines and blocks -/

/-- A level whose expressions take a token, and whose blocks go forward. -/
structure Level.Advances (l : Level) : Prop where
  expression : ∀ power, Consumes (l.expression power)
  block : ∀ nested, Forward (l.block nested)

variable {l : Level}

/-- Whether a reading goes forward to results with `P`. -/
def Reading.ForwardTo {α : Type} (P : α → Prop) (r : Reading α) : Prop :=
  ∀ c a c', r c = .ok (a, c') → c'.tokens <:+ c.tokens ∧ P a

namespace Reading.ForwardTo

variable {α β : Type} {P : α → Prop} {Q : β → Prop} {r : Reading α}

/-- A reading that goes forward does so to anything that is true of all its results. -/
theorem of_forward (h : Forward r) (hP : ∀ a, P a) : ForwardTo P r :=
  fun c a c' hr => ⟨(h c a c' hr).1, hP a⟩

/-- What is known of the results is not needed for the tokens. -/
theorem forward (h : ForwardTo P r) : Forward r :=
  .of_suffix fun c a c' hr => (h c a c' hr).1

/-- The second part sees only results that the first one can give. -/
theorem bind {f : α → Reading β} (h : ForwardTo P r) (hf : ∀ a, P a → ForwardTo Q (f a)) :
    ForwardTo Q (r >>= f) := by
  intro c b c' hr
  obtain ⟨a, c₁, hfirst, hthen⟩ := bind_eq_ok.1 hr
  obtain ⟨hsub, ha⟩ := h c a c₁ hfirst
  obtain ⟨hsub', hb⟩ := hf a ha c₁ b c' hthen
  exact ⟨hsub'.trans hsub, hb⟩

/-- What follows a step that goes forward, whatever its result. -/
theorem after {f : α → Reading β} (h : Forward r) (hf : ∀ a, ForwardTo Q (f a)) :
    ForwardTo Q (r >>= f) :=
  .bind (of_forward (P := fun _ => True) h fun _ => trivial) fun a _ => hf a

theorem failAt {line : Nat} {fault : SyntaxFault} : ForwardTo P (failAt line fault) :=
  fun _ _ _ hr => absurd hr failAt_ne_ok

end Reading.ForwardTo

namespace Level.Advances

variable (h : l.Advances)
include h

/-- To go forward is a comparison of every reading with itself. -/
def comparison : Comparison .equal (fun _ : Unit => l) fun _ => l where
  rel _ _ _ _ R r _ := ForwardTo (fun a => ∃ b, R a b) (r ())
  pure hab := fun _ _ _ hr => by
    obtain ⟨rfl, rfl⟩ := pure_eq_ok.1 hr
    exact ⟨List.suffix_refl _, _, hab⟩
  bind hr hf := .bind hr fun a ⟨b, hab⟩ => hf a b hab
  failAt _ := .failAt
  look hf := fun c => hf c c.pending (Likeness.sees_equal c) c
  take hf := .after .advance fun t => hf t trivial
  pass p := .of_forward (.dropWhile p) fun u => ⟨u, rfl⟩
  owner hnone hsome := .after .owner fun o => by
    cases o with
    | none => exact hnone
    | some p => exact hsome p p rfl rfl
  still hthere := .after .owner fun o => by
    cases o with
    | none => exact .bind (P := fun _ => False) .failAt fun _ hfalse => hfalse.elim
    | some _ => exact hthere
  mark := .of_forward .amend fun u => ⟨u, rfl⟩
  record _ := .of_forward .amend fun u => ⟨u, rfl⟩
  awaited hf _ hnext := .after (.await _) fun _ => .after (h.block true) fun body =>
    .after .settle fun o => by
      cases o with
      | none =>
        rw [hf]
        exact .failAt
      | some p =>
        exact hnext body body p p rfl (Likeness.branches_equal p.branches)
  expression power := .of_forward (h.expression power).forward fun o => ⟨o, rel_self fun _ _ => rfl⟩
  block nested := .of_forward (h.block nested) fun n => ⟨n, rfl⟩
  attributeText _ _ := .of_forward .lift fun n => ⟨n, rfl⟩
  power _ := ⟨_, fun _ => ⟨rfl, rfl⟩⟩
  resolve hn := ⟨_, _, congrArg _ hn, fun _ => ⟨rfl, rfl⟩⟩

/-- An expression that has to give a node takes a token like any other. -/
theorem require (power : Nat) (what : String) : Consumes (l.require power what) := by
  refine .get fun c => .step (h.expression power) fun o => ?_
  cases o with
  | none => exact .failAt
  | some n => exact .pure id

/-- A turn that finds no end of the line takes a token, whether it goes on or not. -/
theorem contentTurn_consumes {parts : List Part} {x : List Part ⊕ List Part} {c c' : Cursor}
    (hline : c.atLineEnd = false) (hend : c.atBlockEnd = false)
    (hr : l.contentTurn parts c = .ok (x, c')) :
    c'.tokens <:+ c.tokens ∧ c'.tokens.length < c.tokens.length := by
  rw [Level.contentTurn, get_bind_apply] at hr
  simp only [hline, hend, Bool.or_self, Bool.false_eq_true, if_false] at hr
  refine (Onward.step (R := fun _ => True) .advance (fun t => ?_) c x c' hr).imp id
    fun h => h trivial
  refine .ite (.bind (h.expression 0).forward fun o => ?_) (.bind ?_ fun text => .pure id)
  · exact .get fun c => .ite (.pure id) (.pure id)
  · exact (h.comparison.contentText (k := true) (w := true) trivial).forward

/-- A turn of a line goes on only behind a token. -/
theorem contentTurn : Reading.Advances l.contentTurn := by
  intro parts c x c' hr
  by_cases hstop : (c.atLineEnd || c.atBlockEnd) = true
  · rw [Level.contentTurn, get_bind_apply, if_pos hstop] at hr
    obtain ⟨rfl, rfl⟩ := pure_eq_ok.1 hr
    exact ⟨List.suffix_refl _, fun hinl => absurd hinl Bool.false_ne_true⟩
  · rw [Bool.not_eq_true, Bool.or_eq_false_iff] at hstop
    exact (h.contentTurn_consumes hstop.1 hstop.2 hr).imp id fun hlt _ => hlt

/-- A line takes what is left of it and nothing behind it is given back. -/
theorem content (mode : OutputMode) : Forward (l.content mode) :=
  (h.comparison.content (k := true) (w := true) mode).forward

/-- Where a line does not end, its content takes a token. -/
theorem content_consumes {mode : OutputMode} {c c' : Cursor} {o : Option Node}
    (hline : c.atLineEnd = false) (hend : c.atBlockEnd = false)
    (hr : l.content mode c = .ok (o, c')) : c'.tokens.length < c.tokens.length := by
  rw [Level.content] at hr
  obtain ⟨parts, c₁, hloop, hrest⟩ := bind_eq_ok.1 hr
  rw [h.contentTurn.loop_eq] at hloop
  obtain ⟨x, c₂, hturn, hmore⟩ := bind_eq_ok.1 hloop
  have hlt := (h.contentTurn_consumes hline hend hturn).2
  have hle : c₁.tokens <:+ c₂.tokens := by
    cases x with
    | inl s => exact (h.contentTurn.forward s c₂ parts c₁ hmore).1
    | inr b => exact (Onward.pure (P := fun _ => False) id c₂ parts c₁ hmore).1
  have hout : c'.tokens <:+ c₁.tokens :=
    (Onward.ite (P := fun _ => False) (.pure id) (.pure id) c₁ o c' hrest).1
  exact Nat.lt_of_le_of_lt (hout.trans hle).length_le hlt

/-- A turn of a block that goes on has taken a statement or a line. -/
theorem blockTurn (nested : Bool) : Reading.Advances (l.blockTurn nested) := by
  intro children c x c' hr
  rw [Level.blockTurn, bind_of_ok skipNewlines_apply, get_bind_apply] at hr
  have hskip : c.tokens.dropWhile (fun t => t.kind == .newline) <:+ c.tokens :=
    List.dropWhile_suffix _
  have hhead := List.head?_dropWhile_not (fun t : Token => t.kind == .newline) c.tokens
  generalize c.tokens.dropWhile (fun t => t.kind == .newline) = ts at hr hskip hhead
  -- what a statement or a line leaves ends the turn or lets it go on, and takes nothing
  have hrest : ∀ o : Option Node, Forward (do
      let children := o.toList ++ children
      if (← MonadState.get).ownerClosed then return .inr children
      else return .inl children : Reading (List Node ⊕ List Node)) :=
    fun o => .get fun _ => .ite (.pure id) (.pure id)
  suffices hturn : c'.tokens <:+ ts ∧ (x.isLeft = true → c'.tokens.length < ts.length) from
    ⟨hturn.1.trans hskip, fun hx => Nat.lt_of_lt_of_le (hturn.2 hx) hskip.length_le⟩
  split at hr
  · exact Onward.ite (P := fun x => x.isLeft = true) .fail (.pure Bool.false_ne_true) _ x c' hr
  next hne =>
  split at hr
  · exact Onward.step (R := fun x => x.isLeft = true) .advance (fun _ => .bind .advance fun _ =>
      .ite (.pure id) .failAt) _ x c' hr
  next hend =>
  dsimp only at hr
  split at hr
  · exact Onward.step (R := fun x => x.isLeft = true) .advance
      (fun _ => .bind (h.expression 0).forward fun o => hrest o) _ x c' hr
  · obtain ⟨o, c₁, hcontent, hthen⟩ := bind_eq_ok.1 hr
    have hline : (c.moveTo ts).atLineEnd = false := by
      cases ts with
      | nil => exact absurd rfl hne
      | cons t ts => simpa [Cursor.atLineEnd, Cursor.moveTo] using hhead
    have hsub := (h.content .content _ o c₁ hcontent).1
    have hlt := h.content_consumes hline (Bool.not_eq_true _ ▸ hend) hcontent
    have hle := (hrest o c₁ x c' hthen).1
    exact ⟨hle.trans hsub, fun _ => Nat.lt_of_le_of_lt hle.length_le hlt⟩

/-- A block never gives back what it has read. -/
theorem blockOf (nested : Bool) : Forward (l.blockOf nested) :=
  (h.comparison.blockOf (k := true) (w := true) nested).forward

end Level.Advances

/-! ## Operations -/

namespace Operation

/-- A segment of a path is a token, and so is the dot behind it. -/
theorem segmentTurn_advances : Advances segmentTurn := by
  refine fun segments => .get fun c => ?_
  split
  · exact .expected
  · exact .ite (.bind Onward.advance fun _ => .separated) .expected

/-- A filter is named by a token. -/
theorem filterTurn_advances : Advances filterTurn :=
  fun _ => .bind Onward.literal fun _ => .separated

variable (h : l.Advances)
include h

/-- An item begins with an expression, and that takes a token. -/
theorem itemTurn_advances (close what : String) : Advances (itemTurn l close what) :=
  fun _ => .get fun _ => .ite (.pure Bool.false_ne_true) <|
    .bind (h.require 0 what).forward fun _ => .separated

/-- A member has a key, which is an expression. -/
theorem memberTurn_advances : Advances (memberTurn l) :=
  fun _ => .get fun _ => .ite (.pure Bool.false_ne_true) <|
    .bind (h.require 0 _).forward fun _ => .bind .expect fun _ =>
      .bind (h.require 0 _).forward fun _ => .separated

end Operation

/-! ## Statements -/

namespace Statement

/-- Every name of a loop is a token. -/
theorem nameTurn_advances : Advances nameTurn :=
  fun _ => .get fun _ => .ite (.pure Bool.false_ne_true) <| .bind Onward.literal fun _ => .separated

/-- One token of a comment. -/
def commentTurn (_ : Unit) : Reading (Unit ⊕ Unit) := do
  if (← get).atLineEnd then return .inr ()
  let _ ← advance
  return .inl ()

/-- A comment passes over one token in each turn. -/
theorem commentTurn_advances : Advances commentTurn :=
  fun _ => .get fun _ => .ite (.pure Bool.false_ne_true) <| .step Onward.advance fun _ => .pure id

/-- A comment passes over the tokens of its line one by one. -/
theorem comment_eq_loop (t : Token) : comment l t = (do
    Reading.loop commentTurn ()
    return none) := by
  -- the loop takes the tokens up to the end of the line, by induction on what is left
  have hloop : ∀ ts c, c.tokens = ts → Reading.loop commentTurn () c =
      .ok ((), c.moveTo (ts.dropWhile fun t => t.kind != .newline)) := by
    intro ts
    induction ts with
    | nil =>
      intro c hc
      rw [commentTurn_advances.loop_eq, List.dropWhile_nil, ← hc, Cursor.moveTo_self]
      have hturn : commentTurn () c = .ok (.inr (), c) := by
        rw [commentTurn, get_bind_apply, if_pos (by rw [Cursor.atLineEnd, hc])]
        rfl
      rw [bind_of_ok hturn]
      rfl
    | cons u us ih =>
      intro c hc
      rw [commentTurn_advances.loop_eq]
      cases hk : u.kind == .newline with
      | true =>
        have hturn : commentTurn () c = .ok (.inr (), c) := by
          rw [commentTurn, get_bind_apply, if_pos (by rw [Cursor.atLineEnd, hc]; exact hk)]
          rfl
        rw [bind_of_ok hturn, List.dropWhile_cons_of_neg (by simpa using hk), ← hc,
          Cursor.moveTo_self]
        rfl
      | false =>
        have hturn : commentTurn () c = .ok (.inl (), c.moveTo us) := by
          rw [commentTurn, get_bind_apply,
            if_neg (by rw [Cursor.atLineEnd, hc, Bool.not_eq_true]; exact hk),
            bind_of_ok (advance_of_cons hc)]
          rfl
        rw [bind_of_ok hturn, List.dropWhile_cons_of_pos (by simpa using hk)]
        exact ih (c.moveTo us) rfl
  funext c
  rw [bind_of_ok (hloop _ c rfl)]
  rfl

variable (h : l.Advances)
include h

/-- A modifier is an expression. -/
theorem modifierTurn_advances : Advances (modifierTurn l) :=
  fun _ => .get fun _ => .ite (.pure Bool.false_ne_true) <|
    .step (h.require 0 _) fun _ => .pure id

end Statement

/-! ## Expressions and levels -/

namespace Grammar

variable (h : l.Advances)
include h

/-- The rules of the standard grammar go forward. -/
theorem grammars : h.comparison.Grammars standard standard :=
  h.comparison.grammars_of_standard hasStandardRules_standard fun _ _ => rfl

/-- How an expression starts is a matter of the rule for its first token. -/
theorem start_forward (t : Token) : Forward (standard.start l t) :=
  ((grammars h).start (w := true) trivial).forward

theorem extend_forward (t : Token) (left : Node) : Forward (standard.extend l t left) :=
  ((grammars h).extend (w := true) trivial rfl).forward

/-- A word behind an operand is taken before its rule is asked. -/
theorem extendTurn_advances (power : Nat) : Advances (standard.extendTurn l power) := by
  refine fun left => .get fun c => ?_
  split
  · exact .pure Bool.false_ne_true
  · refine .ite (.step .advance fun t => ?_) (.pure Bool.false_ne_true)
    cases left with
    | none => exact .failAt
    | some node => exact .bind (extend_forward h t node) fun _ => .pure id

/-- The first token of an expression is taken before anything else is looked at. -/
theorem expressionOf_consumes (power : Nat) : Consumes (standard.expressionOf l power) :=
  .step .advance fun t => .bind (start_forward h t) fun left =>
    (extendTurn_advances h power).forward left

end Grammar

/-- **Every level goes forward**: its expressions take a token or fail, its blocks never go
back. -/
theorem Dialect.levels_advances {d : Dialect} (hd : d.grammar = .standard)
    (A : String → Nat → Except SyntaxError Node) (k : Nat) : (d.levels A k).Advances := by
  induction k with
  | zero => exact ⟨fun _ => .fail, fun _ => .fail⟩
  | succ k ih =>
    refine ⟨fun power => ?_, fun nested => ih.blockOf nested⟩
    rw [expression_levels_succ, hd]
    exact Grammar.expressionOf_consumes ih power

end Stencil
