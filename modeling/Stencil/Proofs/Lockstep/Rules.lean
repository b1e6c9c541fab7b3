import Stencil.Proofs.Lockstep.Lines
/-!
# Rules in lockstep

Every rule of the grammar keeps two readings in lockstep if the levels do that it reads with. The
rules for elements are parameters of the first reading: an element can lose its place in two ways,
when an `else` closes the statement around it in its block, and when it ends with its line, where
the second reading may go on with an `else`. A fenced element is neither. This is no comparison: the
tokens of the two readings are not the same, and where a line has been put in, one loop takes a turn
more than the other.
-/

namespace Stencil

open Reading

/-! ## Elements that keep their place -/

namespace Statement

/-- The word `elem` where no `else` may close the statement around the element in its block, and
where the element may end with its line only if `atEnd` says so. -/
def fencedElement (atEnd : Bool) (l : Level) (_ : Token) : Reading (Option Node) := do
  let (tag, modifiers) ← elementHeader l
  if (← get).at? .delimiter ":" then
    let _ ← advance
    let body ← l.block true
    if (← get).ownerClosed then fail .lostElseOwner
    return some (.element tag modifiers.reverse (.block body))
  else
    if !atEnd && (← get).atLineEnd then fail .lostElseOwner
    return some (.element tag modifiers.reverse .empty)

/-- The word `elex` where the element may not end with its line. -/
def fencedText (l : Level) (t : Token) : Reading (Option Node) := do
  let (tag, modifiers) ← elementHeader l
  if (← get).atLineEnd then fail .lostElseOwner
  match modifiers with
  | [] => failAt t.line .elementWithoutText
  | .attribute _ _ :: _ => failAt t.line .elementWithoutText
  | body :: modifiers => return some (.element tag modifiers.reverse (.text body))

end Statement

namespace Lockstep

variable {S : Lockstep} {ps : List Pending} {n : ℕ × ℕ} {c c' : Cursor} {t u : Token}
/-- A node that is not a leaf is no string. -/
theorem short_of_ne {x : Node} (hx : ∀ lf, x ≠ .leaf lf) : S.Short x :=
  fun _ heq => absurd heq (hx _)

section

variable {l m : Level} (h : S.Levels l m) (hps : Pending.AllOpen ps)

include h hps

/-! ## Operations -/

theorem itemTurn_tied (hc : S.Abreast ps (n + 1) c c') (close what : String) (items : List Node) :
    S.Tied (fun x c₁ c₁' => Sum.elim (fun _ => True ∧ S.Abreast ps n c₁ c₁')
        (fun _ => True ∧ S.Abreast ps (n + 1) c₁ c₁') x)
      (Operation.itemTurn l close what items) (Operation.itemTurn m close what items) c c' := by
  have hat : c.at? .delimiter close = c'.at? .delimiter close := hc.at?_eq (by decide) (by decide) _
  refine .get (.ite (by rw [hat]) (fun _ _ => .pure ⟨trivial, hc⟩) fun _ _ => ?_)
  exact .bind (h.require hps hc 0 what) fun item c₁ c₁' hitem => .separated hitem.2 trivial trivial

/-- A list up to its closing sign, item by item. -/
theorem sequence_tied (hc : S.Abreast ps n c c') (close what : String) :
    S.Tied (fun _ => S.Abreast ps n) (Operation.sequence l close what)
      (Operation.sequence m close what) c c' := by
  refine .bind (.loop (I := fun _ => True) (R := fun _ => True)
    (fun _ hc => itemTurn_tied h hps hc close what _) trivial hc) fun items c₁ c₁' hitems => ?_
  exact .bind (.expect hitems.2 (by decide) (by decide)) fun _ c₂ c₂' hclose => .pure hclose

theorem memberTurn_tied (hc : S.Abreast ps (n + 1) c c') (members : List Member) :
    S.Tied (fun x c₁ c₁' => Sum.elim (fun _ => True ∧ S.Abreast ps n c₁ c₁')
        (fun _ => True ∧ S.Abreast ps (n + 1) c₁ c₁') x)
      (Operation.memberTurn l members) (Operation.memberTurn m members) c c' := by
  have hat : c.at? .delimiter "\x7d" = c'.at? .delimiter "\x7d" :=
    hc.at?_eq (by decide) (by decide) _
  refine .get (.ite (by rw [hat]) (fun _ _ => .pure ⟨trivial, hc⟩) fun _ _ => ?_)
  refine .bind (h.require hps hc 0 _) fun key c₁ c₁' hkey => ?_
  refine .bind (.expect hkey.2 (by decide) (by decide)) fun _ c₂ c₂' hcolon => ?_
  exact .bind (h.require hps hcolon.succ 0 _) fun value c₃ c₃' hvalue =>
    .separated hvalue.2 trivial trivial

/-- A condition with the test before it, which is the same node on both sides. -/
theorem conditional_tied (hc : S.Abreast ps n c c') (left : Node) :
    S.Tied (S.After ps n S.Short) (Operation.conditional l t left) (Operation.conditional m u left)
      c c' := by
  refine .bind (h.require hps hc.succ 0 _) fun whenTrue c₁ c₁' htrue => ?_
  have hat : c₁.at? .delimiter ":" = c₁'.at? .delimiter ":" :=
    htrue.2.at?_eq (by decide) (by decide) _
  refine .get (.ite (by rw [hat]) (fun hcolon _ => ?_) fun _ _ => ?_)
  · refine .advance_at htrue.2 (by decide) hcolon fun _ _ c₂ c₂' hc₂ => ?_
    exact .bind (h.require hps hc₂.succ 0 _) fun whenFalse c₃ c₃' hfalse =>
      .pure ⟨short_of_ne fun _ => Node.noConfusion, hfalse.2⟩
  · exact .pure ⟨short_of_ne fun _ => Node.noConfusion, htrue.2⟩

/-- A string as the value of an attribute is shorter than the strings that are left, so that both
levels read it alike. -/
theorem attributePair_tied (hc : S.Abreast ps n c c') (left : Node) :
    S.Tied (S.After ps n S.Short) (Operation.attributePair l t left)
      (Operation.attributePair m u left) c c' := by
  unfold Operation.attributePair
  cases left.label? with
  | none => exact .failAt
  | some name =>
    refine .bind (h.require hps hc.succ 0 _) fun value c₁ c₁' hvalue => ?_
    split
    · next text =>
      have htext := h.attributeText t.line u.line (hvalue.1 text rfl)
      exact .bind (P := fun _ => S.Abreast ps n) (.lift htext fun _ _ => hvalue.2)
        fun x c₂ c₂' hc₂ => .pure ⟨short_of_ne fun _ => Node.noConfusion, hc₂⟩
    · exact .pure ⟨short_of_ne fun _ => Node.noConfusion, hvalue.2⟩

omit h hps in
theorem segmentTurn_tied (hc : S.Abreast ps (n + 1) c c') (segments : List String) :
    S.Tied (fun x c₁ c₁' => Sum.elim (fun _ => True ∧ S.Abreast ps n c₁ c₁')
        (fun _ => True ∧ S.Abreast ps (n + 1) c₁ c₁') x)
      (Operation.segmentTurn segments) (Operation.segmentTurn segments) c c' := by
  -- neither a line end nor a mark is a segment
  have hno : ∀ {v : Token}, v.kind = .newline ∨ v.kind = .mark →
      ¬Operation.isSegment v = true := by
    rintro v (hv | hv) <;> · rw [Operation.isSegment, hv]; decide
  have hheads := hc.heads
  refine .get ?_
  cases ht : c.tokens with
  | nil =>
    cases hu : c'.tokens with
    | nil => exact .expected hc
    | cons u us =>
      rw [ht, hu] at hheads
      cases hheads
  | cons t rest =>
    cases hu : c'.tokens with
    | nil =>
      rw [ht, hu] at hheads
      cases hheads
    | cons u rest' =>
      rw [ht, hu] at hheads
      dsimp only
      cases hheads with
      | word halike _ hbeside =>
        have hsame : Operation.isSegment t = Operation.isSegment u := by
          rw [Operation.isSegment, Operation.isSegment, halike.1]
        refine .ite (by rw [hsame]) (fun _ _ => ?_) fun _ _ => .expected hc
        refine .after (advance_of_cons ht) (advance_of_cons hu) ?_
        rw [halike.2]
        exact .separated (hc.next ht hu hbeside) trivial trivial
      | line halike hline =>
        have hline' : u.kind = .newline := halike.1.symm.trans hline
        rw [if_neg (hno (Or.inl hline)), if_neg (hno (Or.inl hline'))]
        exact .expected hc
      | tail hline hmark =>
        rw [if_neg (hno (Or.inl hline)), if_neg (hno (Or.inr hmark))]
        exact .expected hc

omit h hps in
theorem filterTurn_tied (hc : S.Abreast ps (n + 1) c c') (filters : List String) :
    S.Tied (fun x c₁ c₁' => Sum.elim (fun _ => True ∧ S.Abreast ps n c₁ c₁')
        (fun _ => True ∧ S.Abreast ps (n + 1) c₁ c₁') x)
      (Operation.filterTurn filters) (Operation.filterTurn filters) c c' :=
  .bind (.literal hc) fun _ _ _ hc₁ => .separated hc₁ trivial trivial

/-! ## Statements -/

theorem header_tied (hc : S.Abreast ps n c c') (what : String) :
    S.Tied (fun _ => S.Abreast ps n) (Statement.header l what) (Statement.header m what) c c' :=
  .bind (h.require hps hc.succ 0 what) fun _ _ _ htest =>
    .bind (.expect htest.2 (by decide) (by decide)) fun _ _ _ hcolon => .pure hcolon

omit hps in
/-- The block of a statement that waits for branches in it, up to the place where it waits no
longer. -/
theorem awaited_tied (hc : S.Abreast ps n c c') (kind : Compound)
    {f g : Node → Option Pending → Reading (Option Node)}
    (hf : ∀ body p c₁ c₁', S.Abreast ps n c₁ c₁' →
      S.Tied (S.Leaves ps n) (f body (some p)) (g body (some p)) c₁ c₁') :
    S.Tied (S.Leaves ps n)
      (do await kind; let body ← l.block true; let p ← settle?; f body p)
      (do await kind; let body ← m.block true; let p ← settle?; g body p) c c' := by
  obtain ⟨qs, hqs, hpending, hpending'⟩ := hc.waiting
  have hnew := hc.withPending (.new kind :: qs)
  refine .after (await_apply kind) (await_apply kind) ?_
  rw [hpending, hpending']
  refine .bind (h.block (Pending.allOpen_new kind qs) hnew) fun body c₁ c₁' hon => ?_
  obtain ⟨q, hq, hq', hc₁⟩ := hon.of_cons
  exact .after (settle?_of_cons hq) (settle?_of_cons hq') (hf body q _ _ (hc₁.keeps hqs))

/-- An `if` leaves its block abreast, as the statement that waits has found its end in both
readings. -/
theorem choice_tied (hc : S.Abreast ps n c c') :
    S.Tied (S.Leaves ps n) (Statement.choice l t) (Statement.choice m u) c c' := by
  refine .bind (header_tied h hps hc _) fun test c₁ c₁' hc₁ => ?_
  exact awaited_tied h hc₁ .choice fun _ _ _ _ hc₂ =>
    .pure ⟨short_of_ne fun _ => Node.noConfusion, hc₂⟩

omit hps in
/-- The test of a branch. The word `else` alone marks the statement as complete, but does not close
it. -/
theorem branchTest_tied {p : Pending} (hps : Pending.AllOpen (p :: ps))
    (hc : S.Abreast (p :: ps) n c c') (owner : Pending) :
    S.Tied (fun _ c₁ c₁' => ∃ p' : Pending, Pending.AllOpen (p' :: ps) ∧
        S.Abreast (p' :: ps) n c₁ c₁')
      (Statement.branchTest l t owner) (Statement.branchTest m u owner) c c' := by
  have hat : c.at? .keyword "if" = c'.at? .keyword "if" := hc.at?_eq (by decide) (by decide) _
  refine .get (.ite (by rw [hat]) (fun hif _ => ?_) fun _ _ => ?_)
  · refine .check Iff.rfl fun _ _ => .advance_at hc (by decide) hif fun _ _ c₁ c₁' hc₁ => ?_
    exact .bind (header_tied h hps hc₁ _) fun _ _ _ hc₂ => .pure ⟨p, hps, hc₂⟩
  · refine .bind (.expect hc (by decide) (by decide)) fun _ c₁ c₁' hc₁ => ?_
    obtain ⟨qs, hqs, hpending, hpending'⟩ := hc₁.waiting
    obtain ⟨q, rfl⟩ := hqs.onward.of_cons
    refine .after (amend_of_cons hpending) (amend_of_cons hpending') (.pure ?_)
    by_cases hclosed : q.closed = true
    -- the statement has found its end before, which only an element can pass over
    · refine ⟨p, hps, (hc₁.withPending _).keeps (Or.inr ⟨?_, Or.inr ⟨p, _, ps, rfl, rfl, hclosed⟩⟩)⟩
      rcases hqs with heq | ⟨hloose, -⟩
      · obtain ⟨rfl, -⟩ := List.cons.inj heq
        exact absurd (hps q rfl) (by simp [hclosed])
      · exact hloose
    · refine ⟨{ q with otherwise := true }, ?_, hc₁.withPending _⟩
      intro q' hq'
      cases hq'
      exact Bool.eq_false_iff.2 hclosed

/-- A branch ends the block around it in both readings. -/
theorem branch_tied (hc : S.Abreast ps n c c') :
    S.Tied (S.Leaves ps n) (Statement.branch l t) (Statement.branch m u) c c' := by
  have howner : ∀ d : Cursor, owner? d = .ok (d.pending.head?, d) :=
    fun d => owner?_eq_ok.2 ⟨rfl, rfl⟩
  refine .after (howner c) (howner c') ?_
  cases ps with
  | nil =>
    rw [hc.pending_nil.1, hc.pending_nil.2]
    cases haround : S.around with
    | nil => exact .failAt
    | cons p rest =>
      have hr : (failAt t.line .elseWithoutOwner : Reading (Option Node)) c =
          .error ⟨t.line, .elseWithoutOwner⟩ := rfl
      exact .of_excused hr (S.excused_of_around (by simp [haround]) _)
  | cons p ps =>
    obtain ⟨qs, hqs, hpending, hpending'⟩ := hc.waiting
    obtain ⟨q, rfl⟩ := hqs.onward.of_cons
    rw [hpending, hpending']
    refine .check Iff.rfl fun _ _ => ?_
    refine .bind (branchTest_tied h hps hc q) fun test c₁ c₁' ⟨p', hopen, hc₁⟩ => ?_
    refine .bind (h.block hopen hc₁) fun body c₂ c₂' hon => ?_
    obtain ⟨q', hq, hq', hc₂⟩ := hon.of_cons
    refine .after (howner c₂) (howner c₂') ?_
    rw [hq, hq']
    refine .after (amend_of_cons hq) (amend_of_cons hq') (.pure ?_)
    -- the branch has closed the statement
    exact ⟨_, Or.inr ⟨p, _, ps, rfl, rfl, rfl⟩, hc₂.withPending _⟩

omit h hps in
theorem nameTurn_tied (hc : S.Abreast ps (n + 1) c c') (names : List String) :
    S.Tied (fun x c₁ c₁' => Sum.elim (fun _ => True ∧ S.Abreast ps n c₁ c₁')
        (fun _ => True ∧ S.Abreast ps (n + 1) c₁ c₁') x)
      (Statement.nameTurn names) (Statement.nameTurn names) c c' := by
  have hat : c.at? .logical "in" = c'.at? .logical "in" := hc.at?_eq (by decide) (by decide) _
  refine .get (.ite (by rw [hat]) (fun _ _ => .pure ⟨trivial, hc⟩) fun _ _ => ?_)
  exact .bind (.literal hc) fun _ _ _ hc₁ => .separated hc₁ trivial trivial

/-- A loop with its names, its source, its body and the block behind `else`. -/
theorem loop_tied (hc : S.Abreast ps n c c') :
    S.Tied (S.Leaves ps n) (Statement.loop l t) (Statement.loop m u) c c' := by
  refine .bind (.loop (I := fun _ => True) (R := fun _ => True)
    (fun _ hc => nameTurn_tied hc _) trivial hc) fun names c₁ c₁' hc₁ => ?_
  refine .check Iff.rfl fun _ _ => ?_
  refine .bind (.expect hc₁.2 (by decide) (by decide)) fun _ c₂ c₂' hc₂ => ?_
  refine .bind (h.require hps hc₂.succ 0 _) fun source c₃ c₃' hc₃ => ?_
  have hat : c₃.at? .delimiter ":" = c₃'.at? .delimiter ":" :=
    hc₃.2.at?_eq (by decide) (by decide) _
  refine .get (.ite (by rw [hat]) (fun hcolon _ => ?_) fun _ _ => ?_)
  · refine .advance_at hc₃.2 (by decide) hcolon fun _ _ c₄ c₄' hc₄ => ?_
    exact awaited_tied h hc₄ .loop fun _ _ _ _ hc₅ =>
      .pure ⟨short_of_ne fun _ => Node.noConfusion, hc₅⟩
  by_cases htail : AtTail c₃ c₃'
  -- the first reading misses a body where its line ends alone
  · obtain ⟨⟨v, hv, hline⟩, hall, -⟩ := hc₃.2.of_tail htail
    have hend : c₃.atLineEnd = true := by simp [Cursor.atLineEnd, hv, hline]
    rw [if_pos hend]
    exact .of_excused (e := ⟨t.line, .loopWithoutBody⟩) rfl (hall _)
  · refine .ite (by rw [hc₃.2.atLineEnd_eq htail]) (fun _ _ => .failAt) fun _ _ => ?_
    exact .bind (h.require hps hc₃.2.succ 0 _) fun body c₄ c₄' hc₄ =>
      .pure ⟨short_of_ne fun _ => Node.noConfusion, hc₄.2⟩

theorem render_tied (hc : S.Abreast ps n c c') :
    S.Tied (S.Leaves ps n) (Statement.render l t) (Statement.render m u) c c' := by
  refine .bind (h.require hps hc.succ 0 _) fun target c₁ c₁' hc₁ => ?_
  cases target.label? with
  | none => exact .pure ⟨short_of_ne fun _ => Node.noConfusion, hc₁.2⟩
  | some name => exact .pure ⟨short_of_ne fun _ => Node.noConfusion, hc₁.2⟩

theorem assignment_tied (hc : S.Abreast ps n c c') :
    S.Tied (S.Leaves ps n) (Statement.assignment l t) (Statement.assignment m u) c c' := by
  refine .bind (.literal hc.succ) fun name c₁ c₁' hc₁ => ?_
  refine .bind (.expect hc₁ (by decide) (by decide)) fun _ c₂ c₂' hc₂ => ?_
  exact .bind (h.require hps hc₂.succ 0 _) fun value c₃ c₃' hc₃ =>
    .pure ⟨short_of_ne fun _ => Node.noConfusion, hc₃.2⟩

/-! ## Elements -/

/-- One more modifier of an element, unless the first reading has come to the end of its line: there
it ends the header, where the second one may read on. -/
theorem modifierTurn_tied (hc : S.Abreast ps (n + 1) c c') (htail : ¬AtTail c c')
    (modifiers : List Node) :
    S.Tied (fun x c₁ c₁' => Sum.elim (fun _ => True ∧ S.Abreast ps n c₁ c₁')
        (fun _ => S.Abreast ps (n + 1) c₁ c₁') x)
      (Statement.modifierTurn l modifiers) (Statement.modifierTurn m modifiers) c c' := by
  have hstop : (c.atLineEnd || c.at? .delimiter ":" || c.atBlockEnd) =
      (c'.atLineEnd || c'.at? .delimiter ":" || c'.atBlockEnd) := by
    rw [hc.atLineEnd_eq htail, hc.at?_eq (by decide) (by decide), hc.atBlockEnd_eq htail]
  have hresolve : Statement.resolve l = Statement.resolve m := by
    funext node
    unfold Statement.resolve
    rw [h.modifier?]
  unfold Statement.modifierTurn
  rw [hresolve]
  refine .get (.ite (by rw [hstop]) (fun _ _ => .pure hc) fun _ _ => ?_)
  exact .bind (h.require hps hc 0 _) fun modifier c₁ c₁' hmodifier => .pure ⟨trivial, hmodifier.2⟩

/-- The header of an element, up to a place where the first reading ends its line alone. -/
theorem elementHeader_or (hc : S.Abreast ps n c c') :
    S.Tied (fun _ => S.Abreast ps n) (Statement.elementHeader l) (Statement.elementHeader m) c c' ∨
      S.ends = false ∧ (∀ e, S.Excused e) ∧ ∃ r c₁, Statement.elementHeader l c = .ok (r, c₁) ∧
        c₁.atLineEnd = true ∧ c₁.at? .delimiter ":" = false := by
  -- the tag first: an error of the first reading is excused, or both fail
  have htag := h.require hps hc.succ 0 "元素名"
  cases hl : l.require 0 "元素名" c with
  | error e =>
    have hleft : Statement.elementHeader l c = .error e := by
      rw [Statement.elementHeader, get_bind_apply, bind_of_error hl]
    rcases htag.2 e hl with he | ⟨e', hr, he⟩
    · exact Or.inl (.of_excused hleft he)
    · have hright : Statement.elementHeader m c' = .error e' := by
        rw [Statement.elementHeader, get_bind_apply, bind_of_error hr]
      exact Or.inl (.of_error hleft hright he)
  | ok x =>
    obtain ⟨tag, c₁⟩ := x
    obtain ⟨c₁', hr, hc₁⟩ := htag.1 tag c₁ hl
    cases hlabel : tag.label? with
    | none =>
      refine Or.inl (.get (.after hl hr ?_))
      rw [hlabel]
      exact .failAt
    | some name =>
      -- the modifiers go on side by side, or the first reading comes to its last line end
      rcases Tied.loop_or (fun n _ => S.Abreast ps n) AtTail (I := fun _ => True)
          (fun hle h => h.mono hle) (fun _ hc htail => modifierTurn_tied h hps hc htail _) trivial
          hc₁.2 with htied | ⟨modifiers, c₂, c₂', j, j', -, htail, hc₂, hloop, hloop'⟩
      · refine Or.inl (.get (.after hl hr ?_))
        rw [hlabel]
        exact .bind htied fun _ _ _ hc₂ => .pure hc₂
      obtain ⟨⟨v, hv, hline⟩, hall, hends⟩ := hc₂.of_tail htail
      have hend : c₂.atLineEnd = true := by simp [Cursor.atLineEnd, hv, hline]
      have hturn : Statement.modifierTurn l modifiers c₂ = .ok (.inr modifiers, c₂) := by
        rw [Statement.modifierTurn, get_bind_apply, hend]
        rfl
      have hleft : Reading.loop (Statement.modifierTurn l) [] c₁ = .ok (modifiers, c₂) := by
        rw [hloop, turns, bind_of_ok hturn]
        rfl
      -- at the last line end of the first reading, `ends` decides whether the header ends for the
      -- second one
      cases hkind : S.ends with
      | false =>
        refine Or.inr ⟨rfl, hall, (name, modifiers), c₂, ?_, hend, ?_⟩
        · rw [Statement.elementHeader, get_bind_apply, bind_of_ok hl, hlabel]
          dsimp only
          rw [bind_of_ok hleft]
          rfl
        · simp [Cursor.at?, hv, Token.is_of_kind_ne, hline]
      | true =>
        have hturn' : Statement.modifierTurn m modifiers c₂' = .ok (.inr modifiers, c₂') := by
          rw [Statement.modifierTurn, get_bind_apply, hends, hkind, Bool.or_true]
          rfl
        have hright : Reading.loop (Statement.modifierTurn m) [] c₁' = .ok (modifiers, c₂') := by
          rw [hloop', turns, bind_of_ok hturn']
          rfl
        refine Or.inl (.get (.after hl hr ?_))
        rw [hlabel]
        exact .after hleft hright (.pure hc₂)

/-- A fenced element. Its failures are those of an element that loses its place. -/
theorem fencedElement_tied (hlost : ∀ line, S.Excused ⟨line, .lostElseOwner⟩) {atEnd : Bool}
    (hends : S.ends = true ∨ atEnd = false) (hc : S.Abreast ps n c c') :
    S.Tied (S.Leaves ps n) (Statement.fencedElement atEnd l t) (Statement.element m u) c c' := by
  rcases elementHeader_or h hps hc with htied | ⟨hfalse, hall, r, c₁, hheader, hline, hcolon⟩
  · refine .bind htied fun r c₁ c₁' hc₁ => ?_
    have hat : c₁.at? .delimiter ":" = c₁'.at? .delimiter ":" :=
      hc₁.at?_eq (by decide) (by decide) _
    refine .get (.ite (by rw [hat]) (fun hcolon _ => ?_) fun _ _ => ?_)
    · refine .advance_at hc₁ (by decide) hcolon fun _ _ c₂ c₂' hc₂ => ?_
      refine .bind (h.block hps hc₂) fun body c₃ c₃' hon => ?_
      -- the fence refuses a block that has ended the statement around the element
      cases hclosed : c₃.ownerClosed with
      | true => exact .of_excused (by rw [get_bind_apply, hclosed]; rfl) (hlost c₃.line)
      | false =>
        refine .of_ok (by rw [get_bind_apply, hclosed]; rfl) (pure_apply _) ?_
        exact ⟨short_of_ne fun _ => Node.noConfusion, hon.abreast fun _ => hclosed⟩
    -- and, where it has to, an element that ends its line
    · cases hstop : !atEnd && c₁.atLineEnd with
      | true => exact .of_excused (by rw [get_bind_apply, hstop]; rfl) (hlost c₁.line)
      | false =>
        refine .of_ok (by rw [get_bind_apply, hstop]; rfl) (pure_apply _) ?_
        exact ⟨short_of_ne fun _ => Node.noConfusion, hc₁⟩
  · obtain rfl : atEnd = false := hends.resolve_left (by simp [hfalse])
    refine .of_excused (e := ⟨c₁.line, .lostElseOwner⟩) ?_ (hall _)
    rw [Statement.fencedElement, bind_of_ok hheader]
    dsimp only
    rw [get_bind_apply, hcolon]
    simp only [Bool.false_eq_true, if_false]
    rw [get_bind_apply, hline]
    rfl

/-- An element where a block of it may close the statement around it. -/
theorem element_tied (hfenced : S.fenced = false) (hc : S.Abreast ps n c c') :
    S.Tied (S.Leaves ps n) (Statement.element l t) (Statement.element m u) c c' := by
  rcases elementHeader_or h hps hc with htied | ⟨hends, -⟩
  · refine .bind htied fun r c₁ c₁' hc₁ => ?_
    have hat : c₁.at? .delimiter ":" = c₁'.at? .delimiter ":" :=
      hc₁.at?_eq (by decide) (by decide) _
    refine .get (.ite (by rw [hat]) (fun hcolon _ => ?_) fun _ _ => ?_)
    · refine .advance_at hc₁ (by decide) hcolon fun _ _ c₂ c₂' hc₂ => ?_
      refine .bind (h.block hps hc₂) fun body c₃ c₃' hon => .pure ?_
      exact ⟨short_of_ne fun _ => Node.noConfusion,
        hon.abreast fun htrue => by simp [hfenced] at htrue⟩
    · exact .pure ⟨short_of_ne fun _ => Node.noConfusion, hc₁⟩
  · exact absurd (S.fenced_of_ends hends) (by simp [hfenced])

omit h hps in
/-- The end of the word `elex`. -/
theorem text_tied (hc : S.Abreast ps n c c') (tag : String) (modifiers : List Node) :
    S.Tied (S.Leaves ps n)
      (match modifiers with
        | [] => failAt t.line .elementWithoutText
        | .attribute _ _ :: _ => failAt t.line .elementWithoutText
        | body :: modifiers => return some (.element tag modifiers.reverse (.text body)))
      (match modifiers with
        | [] => failAt u.line .elementWithoutText
        | .attribute _ _ :: _ => failAt u.line .elementWithoutText
        | body :: modifiers => return some (.element tag modifiers.reverse (.text body))) c c' := by
  split
  · exact .failAt
  · exact .failAt
  · exact .pure ⟨short_of_ne fun _ => Node.noConfusion, hc⟩

/-- The word `elex` where both readings see the same end of the line. -/
theorem elementText_tied (hends : S.ends = true) (hc : S.Abreast ps n c c') :
    S.Tied (S.Leaves ps n) (Statement.elementText l t) (Statement.elementText m u) c c' := by
  rcases elementHeader_or h hps hc with htied | ⟨hfalse, -⟩
  · exact .bind htied fun r c₁ c₁' hc₁ => text_tied hc₁ r.1 r.2
  · exact absurd hends (by simp [hfalse])

/-- The fenced word `elex`, which refuses to end the line without a text; such an error is excused.
-/
theorem fencedText_tied (hlost : ∀ line, S.Excused ⟨line, .lostElseOwner⟩)
    (hc : S.Abreast ps n c c') :
    S.Tied (S.Leaves ps n) (Statement.fencedText l t) (Statement.elementText m u) c c' := by
  rcases elementHeader_or h hps hc with htied | ⟨-, hall, r, c₁, hheader, hline, -⟩
  · refine .bind htied fun r c₁ c₁' hc₁ => ?_
    obtain ⟨tag, modifiers⟩ := r
    dsimp only
    cases hstop : c₁.atLineEnd with
    | true => exact .of_excused (by rw [get_bind_apply, hstop]; rfl) (hlost c₁.line)
    | false =>
      refine (text_tied (t := t) (u := u) hc₁ tag modifiers).congr ?_ rfl
      rw [get_bind_apply, hstop]
      rfl
  · refine .of_excused (e := ⟨c₁.line, .lostElseOwner⟩) ?_ (hall _)
    rw [Statement.fencedText, bind_of_ok hheader]
    dsimp only
    rw [get_bind_apply, hline]
    rfl

end

end Lockstep

end Stencil
