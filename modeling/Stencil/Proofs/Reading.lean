import Stencil.Template.Cursor
/-!
# Laws of readings

What it means for a reading to succeed, step by step: each law takes one step of a reading apart,
so that a rule of the grammar is opened once and its parts are spoken of by their results. Loops
have three laws of their own. The bound on their turns is never met by a loop whose turns take
tokens, and so no law but `loop_next` mentions it.
-/

namespace Stencil

namespace Cursor

/-- The cursor with other tokens left. -/
def moveTo (c : Cursor) (rest : List Token) : Cursor :=
  { c with tokens := rest }

@[simp] theorem moveTo_tokens (c : Cursor) (rest : List Token) : (c.moveTo rest).tokens = rest :=
  rfl

@[simp] theorem moveTo_pending (c : Cursor) (rest : List Token) :
    (c.moveTo rest).pending = c.pending :=
  rfl

/-- Only the last move counts. -/
@[simp] theorem moveTo_moveTo (c : Cursor) (rest rest' : List Token) :
    (c.moveTo rest).moveTo rest' = c.moveTo rest' :=
  rfl

@[simp] theorem moveTo_self (c : Cursor) : c.moveTo c.tokens = c :=
  rfl

/-- Whether the innermost statement has found its end is a matter of the statements alone. -/
theorem ownerClosed_congr {c c' : Cursor} (h : c.pending = c'.pending) :
    c.ownerClosed = c'.ownerClosed := by
  rw [ownerClosed, ownerClosed, h]

/-- Behind a reading that has not touched the statements the innermost one is as open as before. -/
theorem open_of_or {c c' : Cursor} (h : c'.ownerClosed = false ∨ c'.pending = c.pending)
    (hc : c.ownerClosed = false) : c'.ownerClosed = false :=
  h.elim id fun hsame => (ownerClosed_congr hsame).trans hc

/-- The cursor with other statements waiting. -/
def withPending (c : Cursor) (pending : List Pending) : Cursor :=
  { c with pending := pending }

@[simp] theorem withPending_tokens (c : Cursor) (ps : List Pending) :
    (c.withPending ps).tokens = c.tokens :=
  rfl

@[simp] theorem withPending_pending (c : Cursor) (ps : List Pending) :
    (c.withPending ps).pending = ps :=
  rfl

/-- A cursor is at a word if there is a first token and it is that word. -/
theorem at?_eq_true {c : Cursor} {kind : TokenKind} {text : String} :
    c.at? kind text = true ↔ ∃ t rest, c.tokens = t :: rest ∧ t.is kind text = true := by
  unfold at?
  cases c.tokens <;> simp

end Cursor

namespace Reading

variable {α β σ : Type} {c c' : Cursor}

/-! ## Single steps -/

/-- A row of two readings succeeds if both do, one behind the other. -/
theorem bind_eq_ok {r : Reading α} {f : α → Reading β} {b : β} :
    (r >>= f) c = .ok (b, c') ↔ ∃ a c₁, r c = .ok (a, c₁) ∧ f a c₁ = .ok (b, c') := by
  change (StateT.bind r f) c = _ ↔ _
  unfold StateT.bind
  rcases r c with e | ⟨a, c₁⟩
  · simp [bind, Except.bind]
  · simp only [bind, Except.bind, Except.ok.injEq, Prod.mk.injEq]
    constructor
    · exact fun h => ⟨a, c₁, ⟨rfl, rfl⟩, h⟩
    · rintro ⟨_, _, ⟨rfl, rfl⟩, h⟩
      exact h

/-- A reading whose first step is known goes on with the second one. -/
theorem bind_of_ok {r : Reading α} {f : α → Reading β} {a : α} {c₁ : Cursor}
    (h : r c = .ok (a, c₁)) : (r >>= f) c = f a c₁ := by
  change (StateT.bind r f) c = _
  simp [StateT.bind, h, bind, Except.bind]

/-- What comes behind a failure is not read. -/
theorem bind_of_error {r : Reading α} {f : α → Reading β} {e : SyntaxError}
    (h : r c = .error e) : (r >>= f) c = .error e := by
  change (StateT.bind r f) c = _
  simp [StateT.bind, h, bind, Except.bind]

theorem pure_apply (a : α) : (pure a : Reading α) c = .ok (a, c) :=
  rfl

theorem pure_eq_ok {a b : α} : (pure a : Reading α) c = .ok (b, c') ↔ b = a ∧ c' = c := by
  rw [pure_apply]
  simp only [Except.ok.injEq, Prod.mk.injEq]
  exact and_congr eq_comm eq_comm

theorem get_apply : (get : Reading Cursor) c = .ok (c, c) :=
  rfl

theorem get_eq_ok {d : Cursor} : (get : Reading Cursor) c = .ok (d, c') ↔ d = c ∧ c' = c := by
  rw [get_apply]
  simp only [Except.ok.injEq, Prod.mk.injEq]
  exact and_congr eq_comm eq_comm

/-- A look at the cursor is a function of the cursor. -/
theorem get_bind_apply {f : Cursor → Reading β} : (get >>= f) c = f c c :=
  bind_of_ok get_apply

/-- A failure has no result: this is what excludes the cases in which a rule refuses. -/
theorem failAt_ne_ok {line : Nat} {fault : SyntaxFault} {x : α × Cursor} :
    (failAt line fault : Reading α) c ≠ .ok x := by
  change (Except.error _ : Except SyntaxError (α × Cursor)) ≠ _
  simp

theorem fail_ne_ok {fault : SyntaxFault} {x : α × Cursor} :
    (fail fault : Reading α) c ≠ .ok x := by
  simp [fail]

theorem expected_ne_ok {what : String} {x : α × Cursor} :
    (expected what : Reading α) c ≠ .ok x := by
  simp [expected]

/-- At the end of the tokens the error is told in the last line. -/
theorem advance_of_nil (h : c.tokens = []) :
    advance c = .error ⟨c.lastLine, .unexpectedEnd⟩ := by
  simp [advance, h]

theorem advance_of_cons {t : Token} {rest : List Token} (h : c.tokens = t :: rest) :
    advance c = .ok (t, c.moveTo rest) := by
  simp [advance, h, Cursor.moveTo]

/-- To advance is to take the first token and to move to the others. -/
theorem advance_eq_ok {t : Token} :
    advance c = .ok (t, c') ↔ ∃ rest, c.tokens = t :: rest ∧ c' = c.moveTo rest := by
  unfold advance
  cases h : c.tokens with
  | nil => simp
  | cons u rest =>
    simp only [Except.ok.injEq, Prod.mk.injEq, List.cons.injEq]
    constructor
    · rintro ⟨rfl, rfl⟩
      exact ⟨rest, ⟨rfl, rfl⟩, rfl⟩
    · rintro ⟨_, ⟨rfl, rfl⟩, rfl⟩
      exact ⟨rfl, rfl⟩

/-- An expected word is taken like any token. -/
theorem expect_of_cons {kind : TokenKind} {text what : String} {t : Token} {rest : List Token}
    (h : c.tokens = t :: rest) (ht : t.is kind text = true) :
    expect kind text what c = .ok ((), c.moveTo rest) := by
  have hat : c.at? kind text = true := Cursor.at?_eq_true.2 ⟨t, rest, h, ht⟩
  simp [expect, hat, advance_of_cons h, Except.map]

/-- Where an expected word has been read it was there, and it is gone. -/
theorem expect_eq_ok {kind : TokenKind} {text what : String} {u : Unit} :
    expect kind text what c = .ok (u, c') ↔
      ∃ t rest, c.tokens = t :: rest ∧ t.is kind text = true ∧ c' = c.moveTo rest := by
  constructor
  · intro h
    by_cases hat : c.at? kind text = true
    · obtain ⟨t, rest, htok, ht⟩ := Cursor.at?_eq_true.1 hat
      rw [expect_of_cons htok ht] at h
      simp only [Except.ok.injEq, Prod.mk.injEq, true_and] at h
      exact ⟨t, rest, htok, ht, h.symm⟩
    · simp only [expect, if_neg hat] at h
      exact absurd h expected_ne_ok
  · rintro ⟨t, rest, htok, ht, rfl⟩
    exact expect_of_cons htok ht

/-- To expect a word is to look at the next token before it is taken. -/
theorem expect_eq (kind : TokenKind) (text what : String) :
    expect kind text what = get >>= fun c =>
      if c.at? kind text then advance >>= fun _ => pure () else expected what := by
  funext c
  rw [get_bind_apply, expect]
  split
  · cases h : advance c with
    | error e => rw [bind_of_error h, Except.map]
    | ok x =>
      rw [bind_of_ok h, Except.map]
      rfl
  · rfl

/-- A name is given without its token. -/
theorem literal_of_cons {what : String} {t : Token} {rest : List Token}
    (h : c.tokens = t :: rest) (ht : t.kind = .literal) :
    literal what c = .ok (t.text, c.moveTo rest) := by
  simp [literal, h, ht, Cursor.moveTo]

/-- Where a name has been read its token was there, and it is gone. -/
theorem literal_eq_ok {what s : String} :
    literal what c = .ok (s, c') ↔
      ∃ t rest, c.tokens = t :: rest ∧ t.kind = .literal ∧ s = t.text ∧ c' = c.moveTo rest := by
  constructor
  · intro h
    unfold literal at h
    split at h
    · next t rest htok =>
      split at h
      · next hk =>
        simp only [Except.ok.injEq, Prod.mk.injEq] at h
        exact ⟨t, rest, htok, by simpa using hk, h.1.symm, h.2.symm⟩
      · exact absurd h expected_ne_ok
    · exact absurd h expected_ne_ok
  · rintro ⟨t, rest, htok, hk, rfl, rfl⟩
    exact literal_of_cons htok hk

/-- A name is looked for and then taken, so that nothing is asked of it but its kind and its text.
-/
theorem literal_eq (what : String) :
    literal what = get >>= fun c =>
      if c.tokens.head?.any (fun t => t.kind == .literal) then
        advance >>= fun t => pure t.text
      else expected what := by
  funext c
  rw [get_bind_apply, literal]
  cases htok : c.tokens with
  | nil => rfl
  | cons t rest =>
    have hhead : (t :: rest).head?.any (fun t => t.kind == .literal) = (t.kind == .literal) := rfl
    rw [hhead]
    dsimp only
    split
    · rw [bind_of_ok (advance_of_cons htok)]
      rfl
    · rfl

/-! ## Statements that wait -/

/-- To ask for the innermost statement changes nothing. -/
theorem owner?_eq_ok {o : Option Pending} :
    owner? c = .ok (o, c') ↔ o = c.pending.head? ∧ c' = c := by
  unfold owner?
  simp only [bind_eq_ok, get_eq_ok, pure_eq_ok]
  constructor
  · rintro ⟨_, _, ⟨rfl, rfl⟩, rfl, rfl⟩
    exact ⟨rfl, rfl⟩
  · rintro ⟨rfl, rfl⟩
    exact ⟨c', c', ⟨rfl, rfl⟩, rfl, rfl⟩

/-- A statement that waits does so in front of those around it. -/
theorem await_apply (kind : Compound) :
    await kind c = .ok ((), c.withPending (.new kind :: c.pending)) :=
  rfl

/-- What a statement has found is given back when it waits no longer. -/
theorem settle?_of_cons {p : Pending} {ps : List Pending} (h : c.pending = p :: ps) :
    settle? c = .ok (some p, c.withPending ps) := by
  change Except.ok _ = _
  simp [h, Cursor.withPending]

/-- Where nothing waits there is nothing to settle, which the rules report as a fault. -/
theorem settle?_of_nil (h : c.pending = []) : settle? c = .ok (none, c) := by
  change Except.ok _ = _
  simp [h]

theorem amend_of_nil {f : Pending → Pending} (h : c.pending = []) :
    amend f c = .ok ((), c) := by
  change Except.ok _ = _
  simp [h]

/-- Only the innermost statement is changed. -/
theorem amend_of_cons {f : Pending → Pending} {p : Pending} {ps : List Pending}
    (h : c.pending = p :: ps) : amend f c = .ok ((), c.withPending (f p :: ps)) := by
  change Except.ok _ = _
  simp [h, Cursor.withPending]

/-- Empty lines are passed over in one step. -/
theorem skipNewlines_apply :
    skipNewlines c = .ok ((), c.moveTo (c.tokens.dropWhile fun t => t.kind == .newline)) :=
  rfl

/-! ## Loops -/

/-- More turns than are needed change nothing. -/
theorem turns_mono {turn : σ → Reading (σ ⊕ β)} {x : β × Cursor} {n m : Nat} {s : σ}
    (h : turns turn n s c = .ok x) (hnm : n ≤ m) : turns turn m s c = .ok x := by
  induction n generalizing m s c with
  | zero => exact absurd h fail_ne_ok
  | succ n ih =>
    obtain ⟨m, rfl⟩ : ∃ k, m = k + 1 := ⟨m - 1, by omega⟩
    obtain ⟨b, c'⟩ := x
    rw [turns, bind_eq_ok] at h ⊢
    obtain ⟨a, c₁, hturn, hrest⟩ := h
    refine ⟨a, c₁, hturn, ?_⟩
    cases a with
    | inl s' => exact ih hrest (by omega)
    | inr b' => exact hrest

/-- A loop whose first turn ends it gives the result of that turn. -/
theorem loop_stop {turn : σ → Reading (σ ⊕ β)} {s : σ} {b : β}
    (h : turn s c = .ok (.inr b, c')) : loop turn s c = .ok (b, c') := by
  rw [loop, turns, bind_of_ok h]
  rfl

/-- A turn that takes a token can be split off a loop. -/
theorem loop_next {turn : σ → Reading (σ ⊕ β)} {s s' : σ} {c₁ : Cursor} {x : β × Cursor}
    (h : turn s c = .ok (.inl s', c₁)) (hlt : c₁.tokens.length < c.tokens.length)
    (hrest : loop turn s' c₁ = .ok x) : loop turn s c = .ok x := by
  rw [loop, turns, bind_of_ok h]
  -- the rest of the loop was bounded by the tokens left to it, which are fewer
  exact turns_mono hrest (by omega)

/-- How a turn ends that goes on behind a separator. -/
theorem separated_eq_ok {text : String} {a : α} {b : β} {x : α ⊕ β} :
    (do
      if (← get).at? .delimiter text then
        let _ ← advance
        return .inl a
      else return .inr b : Reading (α ⊕ β)) c = .ok (x, c') ↔
      (∃ t rest, c.tokens = t :: rest ∧ t.is .delimiter text = true ∧ x = .inl a ∧
        c' = c.moveTo rest) ∨ c.at? .delimiter text = false ∧ x = .inr b ∧ c' = c := by
  rw [get_bind_apply]
  by_cases hat : c.at? .delimiter text = true
  · obtain ⟨t, rest, htok, ht⟩ := Cursor.at?_eq_true.1 hat
    rw [if_pos hat, bind_of_ok (advance_of_cons htok), pure_eq_ok]
    constructor
    · rintro ⟨rfl, rfl⟩
      exact Or.inl ⟨t, rest, htok, ht, rfl, rfl⟩
    · rintro (⟨t', rest', htok', -, rfl, rfl⟩ | ⟨hfalse, -⟩)
      · rw [htok, List.cons.injEq] at htok'
        exact ⟨rfl, by rw [htok'.2]⟩
      · simp [hat] at hfalse
  · rw [if_neg hat, pure_eq_ok]
    constructor
    · exact fun h => Or.inr ⟨by simpa using hat, h⟩
    · rintro (⟨t, rest, htok, ht, -⟩ | ⟨-, h⟩)
      · exact absurd (Cursor.at?_eq_true.2 ⟨t, rest, htok, ht⟩) hat
      · exact h

end Reading

end Stencil
