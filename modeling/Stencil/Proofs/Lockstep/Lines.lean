import Mathlib
import Stencil.Proofs.Lockstep
import Stencil.Proofs.Expression
/-!
# Lines and blocks in lockstep

Two levels keep step if their readers do. Then lines keep step, too, up to the place where the first
line ends alone: there the two readings can part, in front of a mark that only the second one has.
A block around such a line has no end for the first reading. So blocks keep step wherever nothing
is said of errors of the first reading, or where no line ends alone.
-/

namespace Stencil

namespace Lockstep

open Reading

variable {S : Lockstep} {ps qs : List Pending} {n k : ℕ × ℕ} {c c' : Cursor} {t u : Token}

/-- Cursors that are abreast behind something that may have closed the innermost statement. -/
def Onto (S : Lockstep) (ps : List Pending) (n : ℕ × ℕ) (c c' : Cursor) : Prop :=
  ∃ qs, Pending.Onward ps qs ∧ S.Abreast qs n c c'

theorem Onto.mono (h : S.Onto ps n c c') (hnk : n ≤ k) : S.Onto ps k c c' := by
  obtain ⟨qs, hqs, hc⟩ := h
  exact ⟨qs, hqs, hc.mono hnk⟩

/-- Readings that are abreast have in particular not lost each other. -/
theorem Abreast.onto (h : S.Abreast ps n c c') : S.Onto ps n c c' :=
  ⟨ps, Or.inl rfl, h⟩

/-- If the innermost statement has not found its end, nothing has changed. -/
theorem Onto.abreast (h : S.Onto ps n c c') (hopen : S.fenced = true → c.ownerClosed = false) :
    S.Abreast ps n c c' := by
  obtain ⟨qs, hqs, hc⟩ := h
  cases hfenced : S.fenced with
  | false => exact hc.keeps (Or.inr ⟨hfenced, hqs⟩)
  | true =>
    obtain ⟨rs, hrs, hpending, -⟩ := hc.waiting
    obtain rfl := hrs.eq hfenced
    have hall := hpending ▸ Cursor.allOpen_pending (hopen hfenced)
    exact hqs.eq_of_open hall ▸ hc

theorem Onto.ownerClosed_eq (h : S.Onto ps n c c') : c.ownerClosed = c'.ownerClosed := by
  obtain ⟨qs, -, hc⟩ := h
  exact hc.ownerClosed_eq

/-- Behind the block of a statement that waits for branches in it, this statement is still the
innermost one. -/
theorem Onto.of_cons {p : Pending} (h : S.Onto (p :: ps) n c c') :
    ∃ q, c.pending = q :: ps ∧ c'.pending = q :: (ps ++ S.around) ∧
      S.Abreast ps n (c.withPending ps) (c'.withPending (ps ++ S.around)) := by
  obtain ⟨qs, hqs, hc⟩ := h
  obtain ⟨rs, hrs, hpending, hpending'⟩ := hc.waiting
  obtain ⟨q, rfl⟩ := (hqs.trans hrs.onward).of_cons
  exact ⟨q, hpending, hpending', hc.withPending ps⟩

/-- A node that, if it is a string, is shorter than the strings that are left. -/
def Short (S : Lockstep) (x : Node) : Prop :=
  ∀ text, x = .leaf (.string text) → text.length < S.longest

/-- What an expression leaves. -/
def Leaves (S : Lockstep) (ps : List Pending) (n : ℕ × ℕ) (o : Option Node) (c c' : Cursor) :
    Prop :=
  match o with
  | some x => S.After ps n S.Short x c c'
  | none => S.Onto ps n c c'

/-- Two levels whose readers keep step. -/
structure Levels (S : Lockstep) (l m : Level) : Prop where
  expression : ∀ power {ps n c c'}, Pending.AllOpen ps → S.Abreast ps (n + 1) c c' →
    S.Tied (S.Leaves ps n) (l.expression power) (m.expression power) c c'
  block : ∀ {ps n c c'}, Pending.AllOpen ps → S.Abreast ps n c c' →
    S.Tied (fun _ => S.Onto ps n) (l.block true) (m.block true) c c'
  attributeText : ∀ {text} line line', text.length < S.longest →
    Agree S.Excused Eq (l.attributeText text line) (m.attributeText text line')
  power : ∀ {t u}, t.Alike u → l.power t = m.power u
  modifier? : l.modifier? = m.modifier?

variable {l m : Level} (h : S.Levels l m) (hps : Pending.AllOpen ps)

include h hps

namespace Levels

/-- An expression that must be there takes a token, in both readings. -/
theorem require (hc : S.Abreast ps (n + 1) c c') (power : Nat) (what : String) :
    S.Tied (S.After ps n S.Short) (l.require power what) (m.require power what) c c' := by
  refine .get (.bind (h.expression power hps hc) fun o c₁ c₁' ho => ?_)
  cases o with
  | none => exact .failAt
  | some x => exact .pure ho

/-- The operand behind an operator is read by the levels below. -/
theorem binary (hc : S.Abreast ps n c c') (htu : t.Alike u) (left : Node) (power : Nat) :
    S.Tied (S.After ps n S.Short) (l.binary t left power) (m.binary u left power) c c' := by
  obtain ⟨kind, text, line⟩ := t
  obtain ⟨_, _, line'⟩ := u
  obtain ⟨rfl, rfl⟩ := htu
  unfold Level.binary
  have hsame : Level.operator? ⟨kind, text, line'⟩ = Level.operator? ⟨kind, text, line⟩ := rfl
  rw [hsame]
  cases Level.operator? ⟨kind, text, line⟩ with
  | none => exact .failAt
  | some op =>
    exact .bind (h.require hps hc.succ power _) fun right c₁ c₁' hright =>
      .pure ⟨by simp [Short], hright.2⟩

end Levels

/-! ## Lines -/

omit h hps in
/-- A text of a line is a token, and the same on both sides. -/
theorem contentText_tied (hc : S.Abreast ps n c c') (htu : t.Alike u) :
    S.Tied (fun _ => S.Abreast ps n) (Level.contentText t) (Level.contentText u) c c' := by
  obtain ⟨kind, text, line⟩ := t
  obtain ⟨_, _, line'⟩ := u
  obtain ⟨rfl, rfl⟩ := htu
  unfold Level.contentText
  dsimp only
  split
  · split
    · exact .pure hc
    · exact .failAt
  · exact .pure hc

omit h hps in
/-- What a line or a block does behind one of its parts. -/
theorem ends_tied {σ : Type} (s : σ) (hc : S.Onto ps n c c') :
    S.Tied (fun x c₁ c₁' => Sum.elim (fun _ => S.Abreast ps n c₁ c₁')
        (fun _ => S.Onto ps n c₁ c₁') x)
      (do if (← MonadState.get).ownerClosed then return .inr s else return .inl s : Reading (σ ⊕ σ))
      (do if (← MonadState.get).ownerClosed then return .inr s else return .inl s : Reading (σ ⊕ σ))
      c c' := by
  refine .get (.ite (by rw [hc.ownerClosed_eq]) (fun _ _ => .pure hc) fun hopen _ => .pure ?_)
  exact hc.abreast fun _ => by simpa using hopen

/-- One part of a line. -/
theorem contentTurn_part (hc : S.Abreast ps (n + 1) c c')
    (hstop : (c.atLineEnd || c.atBlockEnd) = false) (htail : ¬AtTail c c') (parts : List Part) :
    S.Tied (fun x c₁ c₁' => Sum.elim (fun _ => S.Abreast ps n c₁ c₁')
      (fun _ => S.Onto ps n c₁ c₁') x) (l.contentTurn parts) (m.contentTurn parts) c c' := by
  have hsame : (c.atLineEnd || c.atBlockEnd) = (c'.atLineEnd || c'.atBlockEnd) := by
    rw [hc.atLineEnd_eq htail, hc.atBlockEnd_eq htail]
  have hhead : ∀ t rest, c.tokens = t :: rest → t.kind ≠ .newline := by
    intro t rest ht hline
    simp [Cursor.atLineEnd, ht, hline] at hstop
  refine .get (.ite (by rw [hsame]) (fun hend _ => absurd hend (by simp [hstop])) fun _ _ => ?_)
  refine .advance hc hhead fun t u rest rest' _ _ htu hrest => ?_
  refine .ite (by rw [htu.1]) (fun _ _ => ?_) fun _ _ => ?_
  · refine .bind (h.expression 0 hps hrest.succ) fun o c₁ c₁' ho => ?_
    cases o with
    | none => exact ends_tied parts ho
    | some x => exact ends_tied (.expr x :: parts) ho.2.onto
  · exact .bind (contentText_tied hrest htu) fun text c₁ c₁' htext => .pure htext

/-- One more part of a line, unless the first reading is at the end of its list. -/
theorem contentTurn_tied (hc : S.Abreast ps (n + 1) c c') (htail : ¬AtTail c c')
    (parts : List Part) :
    S.Tied (fun x c₁ c₁' => Sum.elim (fun _ => True ∧ S.Abreast ps n c₁ c₁')
      (fun _ => S.Onto ps (n + 1) c₁ c₁') x) (l.contentTurn parts) (m.contentTurn parts) c c' := by
  cases hstop : c.atLineEnd || c.atBlockEnd with
  | false =>
    refine (contentTurn_part h hps hc hstop htail parts).mono fun x c₁ c₁' hx => ?_
    cases x with
    | inl parts' => exact ⟨trivial, hx⟩
    | inr parts' => exact hx.mono le_self_add
  | true =>
    have hstop' : (c'.atLineEnd || c'.atBlockEnd) = true := by
      rw [← hc.atLineEnd_eq htail, ← hc.atBlockEnd_eq htail]
      exact hstop
    refine .get (.ite (by rw [hstop, hstop']) (fun _ _ => .pure hc.onto) fun hgo _ => ?_)
    exact absurd hstop hgo

/-- Where the first line ends alone: it ends with these parts, and so does the second one if the end
of a block comes next; else the second one goes on with them. -/
def Strays (S : Lockstep) (m : Level) (ps : List Pending) (n : ℕ × ℕ) (r s : Reading (List Part))
    (c c' : Cursor) : Prop :=
  S.ends = false ∧ ∃ parts c₁ c₁' j, AtTail c₁ c₁' ∧ S.Abreast ps n c₁ c₁' ∧
    r c = .ok (parts, c₁) ∧ s c' = turns m.contentTurn (j + 1) parts c₁'

/-- All parts of a line are tied, or the second reading strays beyond the end of the list. -/
theorem contentTurns_or {fuel fuel' : Nat} (hc : S.Abreast ps (fuel, fuel') c c')
    (parts : List Part) :
    S.Tied (fun _ => S.Onto ps (fuel, fuel')) (turns l.contentTurn fuel parts)
        (turns m.contentTurn fuel' parts) c c' ∨
      S.Strays m ps (fuel, fuel') (turns l.contentTurn fuel parts)
        (turns m.contentTurn fuel' parts) c c' := by
  rcases Tied.turns_or (fun n _ => S.Onto ps n) AtTail (I := fun _ => True)
      (fun hle hon => hon.mono hle)
      (fun _ hc htail => contentTurn_tied h hps hc htail _) trivial hc with
    htied | ⟨parts₁, c₁, c₁', j, j', -, htail, hc₁, hle, hl, hr⟩
  · exact Or.inl htied
  obtain ⟨⟨t, ht, hnewline⟩, -, hmark⟩ := hc₁.of_tail htail
  have hend : c₁.atLineEnd = true := by simp [Cursor.atLineEnd, ht, hnewline]
  have hline : l.contentTurn parts₁ c₁ = .ok (.inr parts₁, c₁) := by
    rw [Level.contentTurn, get_bind_apply, hend]
    rfl
  have hleft : turns l.contentTurn fuel parts c = .ok (parts₁, c₁) := by
    rw [hl, turns, bind_of_ok hline]
    rfl
  cases hends : S.ends with
  | false => exact Or.inr ⟨hends, parts₁, c₁, c₁', j', htail, hc₁.mono hle, hleft, hr⟩
  | true =>
    have hline' : m.contentTurn parts₁ c₁' = .ok (.inr parts₁, c₁') := by
      rw [Level.contentTurn, get_bind_apply, hmark, hends, Bool.or_true]
      rfl
    have hright : turns m.contentTurn fuel' parts c' = .ok (parts₁, c₁') := by
      rw [hr, turns, bind_of_ok hline']
      rfl
    exact Or.inl (.of_ok hleft hright (hc₁.mono hle).onto)

/-- The node of a line with these parts. -/
def lineOf (mode : OutputMode) (parts : List Part) : Option Node :=
  if parts.isEmpty then none else some (.output mode parts.reverse)

omit h hps in
theorem content_eq (l : Level) (mode : OutputMode) :
    l.content mode = do
      let parts ← loop l.contentTurn []
      return lineOf mode parts := by
  unfold Level.content lineOf
  congr 1
  funext parts
  split <;> rfl

/-- A line, read from any place. -/
theorem content_or (hc : S.Abreast ps n c c') (mode : OutputMode) :
    S.Tied (fun _ => S.Onto ps n) (l.content mode) (m.content mode) c c' ∨
      S.Strays m ps n (loop l.contentTurn []) (loop m.contentTurn []) c c' := by
  have hbound : S.Abreast ps (c.tokens.length + 1, c'.tokens.length + 1) c c' :=
    ⟨hc.beside, hc.waiting, Nat.lt_succ_self _, Nat.lt_succ_self _⟩
  have hle : ((c.tokens.length + 1, c'.tokens.length + 1) : ℕ × ℕ) ≤ n := ⟨hc.length, hc.length'⟩
  rw [content_eq, content_eq]
  rcases contentTurns_or h hps hbound [] with htied | ⟨hends, parts, c₁, c₁', j, htail, hc₁, hl, hr⟩
  · left
    exact .bind (P := fun _ => S.Onto ps n) (htied.mono fun _ _ _ hon => hon.mono hle)
      fun parts c₁ c₁' hon => .pure hon
  · exact Or.inr ⟨hends, parts, c₁, c₁', j, htail, hc₁.mono hle, hl, hr⟩

/-- A line that is not empty takes a token. -/
theorem content_part_or (hc : S.Abreast ps (n + 1) c c')
    (hstop : (c.atLineEnd || c.atBlockEnd) = false) (htail : ¬AtTail c c') (mode : OutputMode) :
    S.Tied (fun _ => S.Onto ps n) (l.content mode) (m.content mode) c c' ∨
      S.Strays m ps n (loop l.contentTurn []) (loop m.contentTurn []) c c' := by
  -- a loop has as many turns as there are tokens left, so these are the bound
  have hbound : S.Abreast ps ((c.tokens.length, c'.tokens.length) + 1) c c' :=
    ⟨hc.beside, hc.waiting, Nat.lt_succ_self _, Nat.lt_succ_self _⟩
  have hle : ((c.tokens.length, c'.tokens.length) : ℕ × ℕ) ≤ n :=
    ⟨Nat.le_of_lt_succ hc.length, Nat.le_of_lt_succ hc.length'⟩
  have hturn := contentTurn_part h hps hbound hstop htail []
  rw [content_eq, content_eq]
  cases hl : l.contentTurn [] c with
  | error e =>
    have hloop : loop l.contentTurn [] c = .error e := bind_of_error hl
    rcases hturn.2 e hl with he | ⟨e', hr, he⟩
    · exact Or.inl (.of_excused (bind_of_error hloop) he)
    · have hloop' : loop m.contentTurn [] c' = .error e' := bind_of_error hr
      exact Or.inl (.of_error (bind_of_error hloop) (bind_of_error hloop') he)
  | ok x =>
    obtain ⟨x, c₁⟩ := x
    obtain ⟨c₁', hr, hx⟩ := hturn.1 x c₁ hl
    cases x with
    -- the line has one part only
    | inr parts =>
      have hloop : loop l.contentTurn [] c = .ok (parts, c₁) := loop_stop hl
      have hloop' : loop m.contentTurn [] c' = .ok (parts, c₁') := loop_stop hr
      exact Or.inl (.after hloop hloop' (.pure (hx.mono hle)))
    -- there are more parts to come, and the rest of the loop is compared
    | inl parts =>
      have hloop : loop l.contentTurn [] c = turns l.contentTurn c.tokens.length parts c₁ := by
        rw [loop, turns, bind_of_ok hl]
      have hloop' : loop m.contentTurn [] c' = turns m.contentTurn c'.tokens.length parts c₁' := by
        rw [loop, turns, bind_of_ok hr]
      rcases contentTurns_or h hps hx parts with
        htied | ⟨hends, parts₁, c₂, c₂', j, htail₂, hc₂, hl₂, hr₂⟩
      · left
        have hboth : S.Tied (fun _ => S.Onto ps n) (loop l.contentTurn []) (loop m.contentTurn [])
            c c' :=
          (htied.mono fun _ _ _ hon => hon.mono hle).congr hloop hloop'
        exact .bind hboth fun parts c₁ c₁' hon => .pure hon
      · exact Or.inr ⟨hends, parts₁, c₂, c₂', j, htail₂, hc₂.mono hle, hloop.trans hl₂,
          hloop'.trans hr₂⟩

/-! ## Blocks -/

/-- A statement or a line of a block, where neither its end nor the end of the tokens comes. -/
def lineTurn (l : Level) (children : List Node) : Reading (List Node ⊕ List Node) := do
  let node ← if (← get).atStatement then do
      let _ ← advance
      l.expression 0
    else l.content .content
  let children := node.toList ++ children
  if (← get).ownerClosed then return .inr children else return .inl children

omit h hps in
/-- A line of content that can be read is put in front of the children. -/
theorem lineTurn_of_content {d : Cursor} {children : List Node} {parts : List Part}
    (hstatement : c.atStatement = false) (hloop : loop m.contentTurn [] c = .ok (parts, d)) :
    lineTurn m children c = .ok
      (if d.ownerClosed then .inr ((lineOf .content parts).toList ++ children)
        else .inl ((lineOf .content parts).toList ++ children), d) := by
  have hcontent : m.content .content c = .ok (lineOf .content parts, d) := by
    rw [content_eq, bind_of_ok hloop]
    rfl
  unfold lineTurn
  rw [get_bind_apply]
  simp only [hstatement, Bool.false_eq_true, if_false]
  rw [bind_of_ok hcontent, get_bind_apply]
  split <;> rfl

omit h hps in
/-- Newlines in front of a turn make no difference. -/
theorem blockTurn_skip (l : Level) (nested : Bool) (children : List Node) (c : Cursor) :
    l.blockTurn nested children c = l.blockTurn nested children
      (c.moveTo (c.tokens.dropWhile fun t => t.kind == .newline)) := by
  unfold Level.blockTurn
  rw [bind_of_ok skipNewlines_apply, bind_of_ok skipNewlines_apply, Cursor.moveTo_tokens,
    List.dropWhile_idempotent, Cursor.moveTo_moveTo]

omit h hps in
/-- Where no newline comes first, none is skipped. -/
theorem moveTo_dropWhile_of_head (hhead : ∀ t rest, c.tokens = t :: rest → t.kind ≠ .newline) :
    c.moveTo (c.tokens.dropWhile fun t => t.kind == .newline) = c := by
  cases ht : c.tokens with
  | nil => rw [List.dropWhile_nil, ← ht, Cursor.moveTo_self]
  | cons t rest =>
    rw [List.dropWhile_cons_of_neg (by simpa using hhead t rest ht), ← ht, Cursor.moveTo_self]

omit h hps in
/-- Where neither a new line nor the end of the block comes, the next child is a line. -/
theorem blockTurn_of_part (l : Level) (nested : Bool) (children : List Node) (hne : c.tokens ≠ [])
    (hhead : ∀ t rest, c.tokens = t :: rest → t.kind ≠ .newline) (hend : c.atBlockEnd = false) :
    l.blockTurn nested children c = lineTurn l children c := by
  have hempty : c.tokens.isEmpty = false := by simpa using hne
  unfold Level.blockTurn lineTurn
  rw [bind_of_ok skipNewlines_apply, moveTo_dropWhile_of_head hhead, get_bind_apply,
    get_bind_apply]
  simp only [hempty, hend, Bool.false_eq_true, if_false]

/-- A turn of a block, which takes a token. Where the first line ends alone, no statement begins. -/
theorem lineTurn_or (hc : S.Abreast ps (n + 1) c c') (hne : c.tokens ≠ [])
    (hhead : ∀ t rest, c.tokens = t :: rest → t.kind ≠ .newline) (hend : c.atBlockEnd = false)
    (children : List Node) :
    S.Tied (fun x c₁ c₁' => Sum.elim (fun _ => S.Abreast ps n c₁ c₁')
        (fun _ => S.Onto ps n c₁ c₁') x) (lineTurn l children) (lineTurn m children) c c' ∨
      c.atStatement = false ∧ c'.atStatement = false ∧
        S.Strays m ps n (loop l.contentTurn []) (loop m.contentTurn []) c c' := by
  have htail : ¬AtTail c c' := not_atTail hhead
  have hstate := hc.atStatement_eq htail
  cases hstatement : c.atStatement with
  -- a statement is read as an expression alone
  | true =>
    left
    refine .get (.ite (by rw [hstate]) (fun _ _ => ?_) fun hnot _ => absurd hstatement hnot)
    refine .advance hc hhead fun t u rest rest' _ _ _ hrest => ?_
    refine .bind (h.expression 0 hps hrest.succ) fun o c₁ c₁' ho => ends_tied _ ?_
    cases o with
    | none => exact ho
    | some x => exact ho.2.onto
  -- any other line is output, and only there the second reading may stray
  | false =>
    have hstatement' : c'.atStatement = false := hstate.symm.trans hstatement
    have hstop : (c.atLineEnd || c.atBlockEnd) = false := by
      rw [hend, Bool.or_false]
      cases ht : c.tokens with
      | nil => exact absurd ht hne
      | cons t rest => simpa [Cursor.atLineEnd, ht] using hhead t rest ht
    rcases content_part_or h hps hc hstop htail .content with htied | hstray
    · left
      refine .get (.ite (by rw [hstate]) (fun hyes _ => absurd hyes (by simp [hstatement]))
        fun _ _ => ?_)
      exact .bind htied fun o c₁ c₁' ho => ends_tied _ ho
    · exact Or.inr ⟨rfl, hstatement', hstray⟩

/-- Two cursors where a turn of a block can begin. -/
structure Resuming (S : Lockstep) (ps : List Pending) (n : ℕ × ℕ) (c c' : Cursor) : Prop where
  resumes : Resumes S.Beside S.Excused S.fenced (c.tokens.dropWhile fun t => t.kind == .newline)
    (c'.tokens.dropWhile fun t => t.kind == .newline)
  waiting : ∃ qs, S.Keeps ps qs ∧ c.pending = qs ∧ c'.pending = qs ++ S.around
  length : c.tokens.length < n.1
  length' : c'.tokens.length < n.2

omit h hps in
/-- Where two readings are abreast, a statement can begin on both sides. -/
theorem Abreast.resuming (hc : S.Abreast ps n c c') : S.Resuming ps n c c' :=
  ⟨S.resumes hc.beside, hc.waiting, hc.length, hc.length'⟩

/-- Whether a level reads a comment up to the end of its line. -/
def PassesComments (m : Level) : Prop :=
  ∀ ⦃c : Cursor⦄ ⦃u v : Token⦄ ⦃words rest : List Token⦄, c.tokens = u :: (words ++ v :: rest) →
    u.kind = .comment → u.text = "#" → (∀ w ∈ words, w.kind ≠ .newline) → v.kind = .newline →
      m.expression 0 c = .ok (none, c.moveTo (v :: rest))

omit h hps in
/-- A nested block has no end where no tokens are left. -/
theorem turns_blockTurn_of_done (l : Level) (fuel : Nat) (children : List Node)
    (hdone : c.tokens.dropWhile (fun t => t.kind == .newline) = []) :
    ∃ e, turns (l.blockTurn true) fuel children c = .error e := by
  cases fuel with
  | zero => exact ⟨_, rfl⟩
  | succ fuel =>
    have hturn : l.blockTurn true children c = .error ⟨c.lastLine, .unclosedBlock⟩ := by
      rw [blockTurn_skip, hdone]
      unfold Level.blockTurn
      rw [bind_of_ok skipNewlines_apply, get_bind_apply]
      rfl
    exact ⟨_, bind_of_error hturn⟩

omit h hps in
/-- A comment is a turn of its own. -/
theorem blockTurn_note (hm : PassesComments m) (nested : Bool) (children : List Node)
    {t u v : Token} {words rest : List Token} (hpending : c.ownerClosed = false)
    (htok : c.tokens.dropWhile (fun t => t.kind == .newline) = t :: u :: (words ++ v :: rest))
    (ht : t.kind = .mark) (hu : u.kind = .comment) (hsign : u.text = "#")
    (hwords : ∀ w ∈ words, w.kind ≠ .newline) (hv : v.kind = .newline) :
    m.blockTurn nested children c = .ok (.inl children, c.moveTo (v :: rest)) := by
  have hempty : (t :: u :: (words ++ v :: rest)).isEmpty = false := rfl
  have hend : (c.moveTo (t :: u :: (words ++ v :: rest))).atBlockEnd = false := by
    simp only [Cursor.atBlockEnd, Cursor.moveTo_tokens]
    rw [Token.is_of_kind_ne (by simp [hu]), Bool.and_false]
  have hstatement : (c.moveTo (t :: u :: (words ++ v :: rest))).atStatement = true := by
    simp [Cursor.atStatement, ht, hu]
  have hnote := @hm (c.moveTo (u :: (words ++ v :: rest))) _ _ _ _ rfl hu hsign hwords hv
  have hopen : (c.moveTo (v :: rest)).ownerClosed = false := hpending
  unfold Level.blockTurn
  rw [bind_of_ok skipNewlines_apply, htok, get_bind_apply, Cursor.moveTo_tokens, hempty]
  simp only [Bool.false_eq_true, if_false, hend, hstatement, if_true]
  rw [bind_of_ok (advance_of_cons rfl), Cursor.moveTo_moveTo, bind_of_ok hnote, get_bind_apply]
  simp only [Cursor.moveTo_moveTo, hopen, Bool.false_eq_true, if_false]
  rfl

omit h hps in
/-- Either list is empty where the other one is. -/
theorem Abreast.tokens_eq_nil_iff (hc : S.Abreast ps n c c') : c.tokens = [] ↔ c'.tokens = [] := by
  have hheads := hc.heads
  generalize c.tokens = ts at hheads
  generalize c'.tokens = us at hheads
  cases hheads <;> simp

omit h hps in
/-- If no newline comes first in the first list, none does in the second one. -/
theorem Abreast.head_ne_newline (hc : S.Abreast ps n c c')
    (hhead : ∀ t rest, c.tokens = t :: rest → t.kind ≠ .newline) :
    ∀ u rest', c'.tokens = u :: rest' → u.kind ≠ .newline := by
  intro u rest' hu hline
  have hheads := hc.heads
  cases ht : c.tokens with
  | nil => simp [hc.tokens_eq_nil_iff.1 ht] at hu
  | cons t rest =>
    rw [ht, hu] at hheads
    cases hheads with
    | word halike => exact hhead t rest ht (halike.1.trans hline)
    | line _ hnewline => exact hhead t rest ht hnewline
    | tail hnewline => exact hhead t _ ht hnewline

omit h hps in
/-- A turn where the tokens or the block end. -/
theorem blockTurn_end_tied (hc : S.Abreast ps (n + 1) c c')
    (hhead : ∀ t rest, c.tokens = t :: rest → t.kind ≠ .newline)
    (hends : c.tokens ≠ [] → c.atBlockEnd = true) (nested : Bool) (children : List Node) :
    S.Tied (fun x c₁ c₁' => Sum.elim (fun _ => S.Abreast ps n c₁ c₁')
      (fun _ => S.Onto ps (n + 1) c₁ c₁') x) (l.blockTurn nested children)
      (m.blockTurn nested children) c c' := by
  unfold Level.blockTurn
  refine .after skipNewlines_apply skipNewlines_apply ?_
  rw [moveTo_dropWhile_of_head hhead, moveTo_dropWhile_of_head (hc.head_ne_newline hhead)]
  refine .get (.ite (by simp [hc.tokens_eq_nil_iff]) (fun _ _ => ?_) fun hne _ => ?_)
  · exact .ite Iff.rfl (fun _ _ => .fail) fun _ _ => .pure hc.onto
  have hend : c.atBlockEnd = true := hends (by simpa using hne)
  refine .ite (by rw [hc.atBlockEnd_eq (not_atTail hhead)]) (fun _ _ => ?_)
    fun hno _ => absurd hend hno
  refine .advance hc hhead fun t u rest rest' ht _ _ hrest => ?_
  have hsecond : ∀ v more, rest = v :: more → v.kind ≠ .newline := by
    rintro v more rfl hline
    rw [Cursor.atBlockEnd, ht] at hend
    simp [Token.is, hline] at hend
  refine .advance hrest.succ hsecond fun _ _ _ _ _ _ _ hmore => ?_
  exact .ite Iff.rfl (fun _ _ => .pure (hmore.onto.mono le_self_add)) fun _ _ => .failAt

omit h in
/-- A line that ends alone takes the first list to its end. -/
theorem lineTurn_of_strays (hstatement : c.atStatement = false)
    (hstray : S.Strays m ps n (loop l.contentTurn []) (loop m.contentTurn []) c c')
    (children : List Node) :
    (∀ e, S.Excused e) ∧ ∃ children' c₁, lineTurn l children c = .ok (.inl children', c₁) ∧
      c₁.tokens.dropWhile (fun t => t.kind == .newline) = [] := by
  obtain ⟨hends, parts, c₁, c₁', -, hat, hc₁, hloop, -⟩ := hstray
  obtain ⟨⟨t, ht, hline⟩, hall, -⟩ := hc₁.of_tail hat
  have hopen := hc₁.ownerClosed_eq_false hps (S.fenced_of_ends hends)
  refine ⟨hall, (lineOf .content parts).toList ++ children, c₁, ?_, by simp [ht, hline]⟩
  rw [lineTurn_of_content hstatement hloop, hopen]
  rfl

/-- One turn of a block in front of which there are no newlines. Behind a line that ends alone, the
first list is at its end. -/
theorem blockTurn_or (hc : S.Abreast ps (n + 1) c c')
    (hhead : ∀ t rest, c.tokens = t :: rest → t.kind ≠ .newline) (nested : Bool)
    (children : List Node) :
    S.Tied (fun x c₁ c₁' => Sum.elim (fun _ => S.Abreast ps n c₁ c₁')
        (fun _ => S.Onto ps (n + 1) c₁ c₁') x) (l.blockTurn nested children)
        (m.blockTurn nested children) c c' ∨
      (∀ e, S.Excused e) ∧ ∃ children' c₁,
        l.blockTurn nested children c = .ok (.inl children', c₁) ∧
        c₁.tokens.dropWhile (fun t => t.kind == .newline) = [] := by
  by_cases hpart : c.tokens ≠ [] ∧ c.atBlockEnd = false
  · obtain ⟨hne, hend⟩ := hpart
    have hne' : c'.tokens ≠ [] := fun hnil => hne (hc.tokens_eq_nil_iff.2 hnil)
    have hend' : c'.atBlockEnd = false := (hc.atBlockEnd_eq (not_atTail hhead)).symm.trans hend
    have hleft := blockTurn_of_part l nested children hne hhead hend
    have hright := blockTurn_of_part m nested children hne' (hc.head_ne_newline hhead) hend'
    rcases lineTurn_or h hps hc hne hhead hend children with htied | ⟨hstatement, -, hstray⟩
    · left
      refine (htied.congr hleft hright).mono fun x c₁ c₁' hx => ?_
      cases x with
      | inl children' => exact hx
      | inr children' => exact hx.mono le_self_add
    · rw [hleft]
      exact Or.inr (lineTurn_of_strays hps hstatement hstray children)
  · refine Or.inl (blockTurn_end_tied hc hhead (fun hne => ?_) nested children)
    by_contra hend
    exact hpart ⟨hne, by simpa using hend⟩

omit h in
/-- Behind a comment that only the second list has, a turn can still begin, and nothing has found
its end. -/
theorem Resuming.note {fuel fuel' : Nat} {words rest : List Token} {t u v : Token}
    (hc : S.Resuming ps (fuel, fuel' + 1) c c') (hfenced : S.fenced = true)
    (hus : c'.tokens.dropWhile (fun t => t.kind == .newline) = t :: u :: (words ++ v :: rest))
    (hv : v.kind = .newline)
    (hbeside : S.Beside (c.tokens.dropWhile fun t => t.kind == .newline)
      (rest.dropWhile fun t => t.kind == .newline)) :
    S.Resuming ps (fuel, fuel') c (c'.moveTo (v :: rest)) ∧ c'.ownerClosed = false := by
  refine ⟨⟨?_, hc.waiting, hc.length, ?_⟩, ?_⟩
  · have hlast : (v :: rest).dropWhile (fun t => t.kind == .newline) =
        rest.dropWhile fun t => t.kind == .newline := by simp [hv]
    rw [Cursor.moveTo_tokens, hlast]
    exact .level hbeside
  · have hlength : c'.tokens.length < fuel' + 1 := hc.length'
    have hshort := (List.dropWhile_suffix (fun t => t.kind == .newline) (l := c'.tokens)).length_le
    rw [hus] at hshort
    simp only [Cursor.moveTo_tokens, List.length_cons, List.length_append] at hshort ⊢
    omega
  · obtain ⟨qs, hqs, hpending, hpending'⟩ := hc.waiting
    obtain rfl := hqs.eq hfenced
    exact (ownerClosed_eq_of_pending hpending hpending').symm.trans
      (Cursor.ownerClosed_of_open hps hpending)

/-- The turns of a block keep step. If the block is not nested, no line may end alone. -/
theorem blockTurns_tied (hm : S.fenced = true → PassesComments m) {nested : Bool}
    (hnested : nested = true ∨ ∃ e, ¬S.Excused e) {fuel fuel' : Nat}
    (hc : S.Resuming ps (fuel, fuel') c c') (children : List Node) :
    S.Tied (fun _ => S.Onto ps (fuel, fuel')) (turns (l.blockTurn nested) fuel children)
      (turns (m.blockTurn nested) fuel' children) c c' := by
  induction fuel' generalizing fuel c c' children with
  | zero => exact absurd hc.length' (Nat.not_lt_zero _)
  | succ fuel' ih =>
    have hskip := List.dropWhile_suffix (fun t => t.kind == .newline) (l := c.tokens)
    have hskip' := List.dropWhile_suffix (fun t => t.kind == .newline) (l := c'.tokens)
    have hlength : c.tokens.length < fuel := hc.length
    have hlength' : c'.tokens.length < fuel' + 1 := hc.length'
    have hresumes := hc.resumes
    generalize hts : c.tokens.dropWhile (fun t => t.kind == .newline) = ts at hresumes hskip
    generalize hus : c'.tokens.dropWhile (fun t => t.kind == .newline) = us at hresumes hskip'
    have hshort := hskip.length_le
    have hshort' := hskip'.length_le
    cases hresumes with
    | finished hall =>
      -- the first list is at its end, which is no end of a nested block
      rcases hnested with rfl | ⟨e, he⟩
      · obtain ⟨e, hleft⟩ := turns_blockTurn_of_done l fuel children hts
        exact .of_excused hleft (hall e)
      · exact absurd (hall e) he
    | @note _ words rest t u v hfenced ht hu hsign hwords hv hbeside =>
      obtain ⟨hpassed, hopen⟩ := hc.note hps hfenced hus hv (by rwa [hts])
      have hturn := blockTurn_note (hm hfenced) nested children hopen hus ht hu hsign hwords hv
      have hrest := ih hpassed children
      have hright : turns (m.blockTurn nested) (fuel' + 1) children c' =
          turns (m.blockTurn nested) fuel' children (c'.moveTo (v :: rest)) := by
        rw [turns, bind_of_ok hturn]
      exact (hrest.congr rfl hright).mono fun _ _ _ hon => hon.mono ⟨le_refl _, Nat.le_succ _⟩
    | level hbeside =>
      have hbeside' : S.Beside (c.tokens.dropWhile fun t => t.kind == .newline)
          (c'.tokens.dropWhile fun t => t.kind == .newline) := by rwa [hts, hus]
      have hhead : ∀ t rest, ts = t :: rest → t.kind ≠ .newline := by
        rintro t rest rfl
        have hfirst := List.head_dropWhile_not (fun t : Token => t.kind == .newline)
          (l := c.tokens) (by simp [hts])
        simpa [hts] using hfirst
      obtain ⟨fuel, rfl⟩ : ∃ f, fuel = f + 1 := ⟨fuel - 1, by omega⟩
      have hstart : S.Abreast ps ((fuel, fuel') + 1) (c.moveTo ts) (c'.moveTo us) :=
        ⟨hbeside, hc.waiting, Nat.lt_of_le_of_lt hshort hlength,
          Nat.lt_of_le_of_lt hshort' hlength'⟩
      have hskips : ∀ l : Level, l.blockTurn nested children c =
          l.blockTurn nested children (c.moveTo ts) := fun l => by rw [blockTurn_skip, hts]
      have hskips' : ∀ l : Level, l.blockTurn nested children c' =
          l.blockTurn nested children (c'.moveTo us) := fun l => by rw [blockTurn_skip, hus]
      rcases blockTurn_or h hps hstart hhead nested children with
        htied | ⟨hall, children', c₁, hturn, hdone⟩
      · refine .bind (htied.congr (hskips l) (hskips' m)) fun x c₁ c₁' hx => ?_
        cases x with
        | inl children' =>
          refine (ih hx.resuming children').mono fun _ _ _ hon => hon.mono ?_
          exact ⟨Nat.le_succ _, Nat.le_succ _⟩
        | inr children' => exact .pure hx
      · rcases hnested with rfl | ⟨e, he⟩
        · obtain ⟨e, hleft⟩ := turns_blockTurn_of_done l fuel children' hdone
          refine .of_excused ?_ (hall e)
          rw [turns, bind_of_ok ((hskips l).trans hturn)]
          exact hleft
        · exact absurd (hall e) he

/-- A block is tied if its turns are; a fenced reading has to pass the comments in between. -/
theorem blockOf_tied (hm : S.fenced = true → PassesComments m) {nested : Bool}
    (hnested : nested = true ∨ ∃ e, ¬S.Excused e) (hc : S.Resuming ps n c c') :
    S.Tied (fun _ => S.Onto ps n) (l.blockOf nested) (m.blockOf nested) c c' := by
  have hbound : S.Resuming ps (c.tokens.length + 1, c'.tokens.length + 1) c c' :=
    ⟨hc.resumes, hc.waiting, Nat.lt_succ_self _, Nat.lt_succ_self _⟩
  have hle : ((c.tokens.length + 1, c'.tokens.length + 1) : ℕ × ℕ) ≤ n := ⟨hc.length, hc.length'⟩
  refine .bind (P := fun _ => S.Onto ps n) ?_ fun children c₁ c₁' hon => .pure hon
  exact (blockTurns_tied h hps hm hnested hbound []).mono fun _ _ _ hon => hon.mono hle

end Lockstep

end Stencil
