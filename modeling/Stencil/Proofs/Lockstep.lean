import Mathlib
import Stencil.Proofs.Reading
import Stencil.Proofs.Standard
/-!
# Readings in lockstep

Two readings of two lists of tokens that are abreast: what the first one gives, the second one
gives, and they are abreast again. What abreast means is left open, but for what a reading can see
of it: the next tokens are alike, or the first list has come to the end of its line where the second
one goes on with a mark. The relation is established step by step, along the steps of both readings.
-/

namespace Stencil

/-- Whether two tokens are the same up to their lines. -/
def Token.Alike (t u : Token) : Prop :=
  t.kind = u.kind ∧ t.text = u.text

theorem Token.Alike.refl (t : Token) : t.Alike t :=
  ⟨rfl, rfl⟩

/-- The rules ask a token for its kind and its text only, and so they do not see lines. -/
theorem Token.Alike.is {t u : Token} (h : t.Alike u) (kind : TokenKind) (text : String) :
    t.is kind text = u.is kind text := by
  rw [Token.is, Token.is, h.1, h.2]

theorem Token.is_of_kind_ne {t : Token} {kind : TokenKind} (h : t.kind ≠ kind) (text : String) :
    t.is kind text = false := by
  simp [Token.is, h]

/-- Whether a token opens a comment where a statement can begin. -/
def Token.IsSign (t : Token) : Prop :=
  t.kind.isWord = true ∧ t.text = "#"

/-- Whether a mark comes next and behind it a token with `p`. -/
def Cursor.atMarked (p : Token → Bool) (c : Cursor) : Bool :=
  match c.tokens with
  | t :: u :: _ => t.kind == .mark && p u
  | _ => false

namespace Lockstep

/-- How two lists of tokens go on that are abreast. `ends` says whether the second one goes on with
the end of a block where the first one is at the end of its line. -/
inductive Heads (Beside : List Token → List Token → Prop) (Excused : SyntaxError → Prop)
    (ends : Bool) : List Token → List Token → Prop
  | done : Heads Beside Excused ends [] []
  | word {t u : Token} {ts us : List Token} :
      t.Alike u → t.kind ≠ .newline → Beside ts us → Heads Beside Excused ends (t :: ts) (u :: us)
  | line {t u : Token} {ts us : List Token} :
      t.Alike u → t.kind = .newline → Heads Beside Excused ends (t :: ts) (u :: us)
  | tail {t u : Token} {us : List Token} :
      t.kind = .newline → u.kind = .mark → u.text = "@" → (∀ e, Excused e) →
      (∀ c : Cursor, c.tokens = u :: us → c.atBlockEnd = ends) →
        Heads Beside Excused ends [t] (u :: us)

/-- How two lists go on where a statement can begin: abreast, or with a comment in the second one,
or not at all in the first one. Only fenced readings pass a comment. -/
inductive Resumes (Beside : List Token → List Token → Prop) (Excused : SyntaxError → Prop)
    (fenced : Bool) : List Token → List Token → Prop
  | level {ts us : List Token} : Beside ts us → Resumes Beside Excused fenced ts us
  | note {ts words rest : List Token} {t u v : Token} :
      fenced = true → t.kind = .mark → u.kind = .comment → u.text = "#" →
      (∀ w ∈ words, w.kind ≠ .newline) → v.kind = .newline →
      Beside ts (rest.dropWhile fun w => w.kind == .newline) →
        Resumes Beside Excused fenced ts (t :: u :: (words ++ v :: rest))
  | finished {us : List Token} : (∀ e, Excused e) → Resumes Beside Excused fenced [] us

/-- Where no statements are around, nothing is asked of them. -/
theorem open_of_none : ∀ p ∈ ([] : List Pending).head?, p.closed = false :=
  nofun

/-- There are no statements in an empty list, and so this case of a lockstep never comes. -/
theorem excused_of_none {Excused : SyntaxError → Prop} (h : ([] : List Pending) ≠ []) :
    ∀ e, Excused e :=
  absurd rfl h

end Lockstep

/-- What it takes for two readings to go on in lockstep. -/
structure Lockstep where
  /-- Whether two lists of tokens are abreast. -/
  Beside : List Token → List Token → Prop
  /-- The errors of the first reading after which nothing is said of the second one. -/
  Excused : SyntaxError → Prop
  /-- The statements that wait for the second reading only, around those of both. -/
  around : List Pending
  /-- The strings in attributes are shorter. -/
  longest : Nat
  /-- Whether the second list goes on with the end of a block where the first one ends its line. -/
  ends : Bool
  /-- Whether the statement around an expression must not find its end inside of it. -/
  fenced : Bool
  heads : ∀ {ts us : List Token}, Beside ts us → Lockstep.Heads Beside Excused ends ts us
  strings : ∀ {t : Token} {ts us : List Token}, Beside (t :: ts) us → t.kind = .string →
    t.text.length < longest
  comment : ∀ {t u : Token} {ts us : List Token}, Beside (t :: ts) (u :: us) → t.IsSign →
    Beside (ts.dropWhile fun w => w.kind != .newline) (us.dropWhile fun w => w.kind != .newline)
  resumes : ∀ {ts us : List Token}, Beside ts us →
    Lockstep.Resumes Beside Excused fenced (ts.dropWhile fun w => w.kind == .newline)
      (us.dropWhile fun w => w.kind == .newline)
  around_open : ∀ p ∈ around.head?, p.closed = false
  excused_of_around : around ≠ [] → ∀ e, Excused e
  fenced_of_ends : ends = false → fenced = true

/-- Whether the innermost statement that waits has not found its end. -/
def Pending.AllOpen (ps : List Pending) : Prop :=
  ∀ p ∈ ps.head?, p.closed = false

/-- A reading that is told to wait for its end goes on. -/
theorem Cursor.ownerClosed_of_open {c : Cursor} {ps : List Pending} (hps : Pending.AllOpen ps)
    (h : c.pending = ps) : c.ownerClosed = false := by
  unfold ownerClosed
  rw [h]
  cases ps with
  | nil => rfl
  | cons p rest => exact hps p (by simp)

/-- The other way round: where a reading goes on, it has not found its end. -/
theorem Cursor.allOpen_pending {c : Cursor} (h : c.ownerClosed = false) :
    Pending.AllOpen c.pending := by
  intro p hp
  unfold ownerClosed at h
  cases hpending : c.pending with
  | nil => simp [hpending] at hp
  | cons q rest =>
    rw [hpending] at h hp
    cases hp
    exact h

/-- What becomes of the statements that wait: they are the same, or the innermost one has found its
end. -/
def Pending.Onward (ps qs : List Pending) : Prop :=
  qs = ps ∨ ∃ p q rest, ps = p :: rest ∧ qs = q :: rest ∧ q.closed = true

namespace Pending

variable {ps qs rs : List Pending}

/-- If the innermost statement still has no end, nothing has become of it. -/
theorem Onward.eq_of_open (h : Onward ps qs) (hqs : AllOpen qs) : qs = ps := by
  rcases h with h | ⟨p, q, rest, -, rfl, hclosed⟩
  · exact h
  · exact absurd (hqs q rfl) (by simp [hclosed])

/-- Ends are found once, and so what has happened behind both readings has happened behind one of
them. -/
theorem Onward.trans (h : Onward ps qs) (h' : Onward qs rs) : Onward ps rs := by
  rcases h with rfl | ⟨p, q, rest, rfl, rfl, hclosed⟩
  · exact h'
  · rcases h' with rfl | ⟨p', q', rest', hq, rfl, hclosed'⟩
    · exact Or.inr ⟨p, q, rest, rfl, rfl, hclosed⟩
    · obtain ⟨rfl, rfl⟩ := List.cons.inj hq
      exact Or.inr ⟨p, q', rest, rfl, rfl, hclosed'⟩

/-- Statements further out are not touched. -/
theorem Onward.of_cons {p : Pending} (h : Onward (p :: ps) qs) : ∃ q, qs = q :: ps := by
  rcases h with rfl | ⟨p', q, rest, hp, rfl, -⟩
  · exact ⟨p, rfl⟩
  · exact ⟨q, by rw [(List.cons_eq_cons.1 hp).2]⟩

/-- A statement that has just begun to wait has no end yet. -/
theorem allOpen_new (kind : Compound) (ps : List Pending) : AllOpen (.new kind :: ps) := by
  intro p hp
  cases hp
  rfl

end Pending

namespace Lockstep

open Reading

variable {S : Lockstep} {α β σ : Type} {ps qs : List Pending} {n k : ℕ × ℕ} {c c' : Cursor}

/-! ## Cursors -/

/-- Whether the innermost statement has found its end is the same for both cursors. -/
theorem ownerClosed_eq_of_pending (h : c.pending = ps) (h' : c'.pending = ps ++ S.around) :
    c.ownerClosed = c'.ownerClosed := by
  unfold Cursor.ownerClosed
  rw [h, h']
  cases ps with
  | nil =>
    cases haround : S.around with
    | nil => rfl
    | cons p rest => exact (S.around_open p (by simp [haround])).symm
  | cons p rest => rfl

/-- What becomes of the statements that wait behind an expression. If the readings are fenced, they
are the same. -/
def Keeps (S : Lockstep) (ps qs : List Pending) : Prop :=
  qs = ps ∨ S.fenced = false ∧ Pending.Onward ps qs

theorem Keeps.refl (ps : List Pending) : S.Keeps ps ps :=
  Or.inl rfl

/-- Fenced readings keep the statements that wait as they are. -/
theorem Keeps.eq (h : S.Keeps ps qs) (hfenced : S.fenced = true) : qs = ps :=
  h.resolve_right fun hloose => by simp [hfenced] at hloose

/-- Whether they are fenced or not, at most the innermost statement is touched. -/
theorem Keeps.onward (h : S.Keeps ps qs) : Pending.Onward ps qs :=
  h.elim Or.inl And.right

/-- What becomes of the statements behind two expressions in a row becomes of them behind one. -/
theorem Keeps.trans {rs : List Pending} (h : S.Keeps ps qs) (h' : S.Keeps qs rs) :
    S.Keeps ps rs := by
  rcases h with rfl | ⟨hfenced, h⟩
  · exact h'
  · exact Or.inr ⟨hfenced, h.trans h'.onward⟩

/-- Two cursors are abreast, with `ps` waiting for the first one or what has become of them, and
with fewer tokens left than `n` says. -/
structure Abreast (S : Lockstep) (ps : List Pending) (n : ℕ × ℕ) (c c' : Cursor) : Prop where
  beside : S.Beside c.tokens c'.tokens
  waiting : ∃ qs, S.Keeps ps qs ∧ c.pending = qs ∧ c'.pending = qs ++ S.around
  length : c.tokens.length < n.1
  length' : c'.tokens.length < n.2

/-- The first reading is at the end of its line where the second one goes on. -/
def AtTail (c c' : Cursor) : Prop :=
  c.tokens.head?.map Token.kind = some .newline ∧ c'.tokens.head?.map Token.kind = some .mark

/-- A line that goes on is not at its end. -/
theorem not_atTail (h : ∀ t rest, c.tokens = t :: rest → t.kind ≠ .newline) :
    ¬AtTail c c' := by
  rintro ⟨hline, -⟩
  cases ht : c.tokens with
  | nil =>
    rw [ht] at hline
    cases hline
  | cons t rest =>
    rw [ht] at hline
    exact h t rest ht (Option.some.inj hline)

namespace Abreast

theorem mono (h : S.Abreast ps n c c') (hnk : n ≤ k) : S.Abreast ps k c c' :=
  ⟨h.beside, h.waiting, Nat.lt_of_lt_of_le h.length hnk.1,
    Nat.lt_of_lt_of_le h.length' hnk.2⟩

theorem succ (h : S.Abreast ps n c c') : S.Abreast ps (n + 1) c c' :=
  h.mono (le_self_add)

/-- Fewer tokens are left behind a token. -/
theorem next (h : S.Abreast ps (n + 1) c c') {t u : Token} {rest rest' : List Token}
    (ht : c.tokens = t :: rest) (hu : c'.tokens = u :: rest') (hrest : S.Beside rest rest') :
    S.Abreast ps n (c.moveTo rest) (c'.moveTo rest') := by
  have hlt : rest.length + 1 < n.1 + 1 := by
    have h := h.length
    rwa [ht] at h
  have hlt' : rest'.length + 1 < n.2 + 1 := by
    have h := h.length'
    rwa [hu] at h
  exact ⟨hrest, h.waiting, Nat.lt_of_succ_lt_succ hlt, Nat.lt_of_succ_lt_succ hlt'⟩

/-- The lists of both cursors go on in one of the few ways that `Heads` names. -/
theorem heads (h : S.Abreast ps n c c') :
    Heads S.Beside S.Excused S.ends c.tokens c'.tokens :=
  S.heads h.beside

/-- The tokens are abreast, whatever waits. -/
theorem withPending (h : S.Abreast ps n c c') (qs : List Pending) :
    S.Abreast qs n (c.withPending qs) (c'.withPending (qs ++ S.around)) :=
  ⟨h.beside, ⟨qs, .refl qs, rfl, rfl⟩, h.length, h.length'⟩

/-- What waits may be told as it was before an expression. -/
theorem keeps (h : S.Abreast qs n c c') (hqs : S.Keeps ps qs) : S.Abreast ps n c c' := by
  obtain ⟨rs, hrs, hpending⟩ := h.waiting
  exact ⟨h.beside, ⟨rs, hqs.trans hrs, hpending⟩, h.length, h.length'⟩

/-- If nothing waits for the first reading, nothing has become of it. -/
theorem pending_nil (h : S.Abreast [] n c c') : c.pending = [] ∧ c'.pending = S.around := by
  obtain ⟨qs, hqs, hpending, hpending'⟩ := h.waiting
  obtain rfl : qs = [] := by
    rcases hqs.onward with hqs | ⟨p, q, rest, hnil, -⟩
    · exact hqs
    · cases hnil
  exact ⟨hpending, hpending'⟩

/-- Where the first reading ends its line alone, its list ends as well, nothing is said of its
errors, and `ends` says what the second reading sees. -/
theorem of_tail (h : S.Abreast ps n c c') (htail : AtTail c c') :
    (∃ t, c.tokens = [t] ∧ t.kind = .newline) ∧ (∀ e, S.Excused e) ∧ c'.atBlockEnd = S.ends := by
  have hheads := h.heads
  obtain ⟨hnewline, hmark⟩ := htail
  cases ht : c.tokens with
  | nil =>
    rw [ht] at hnewline
    cases hnewline
  | cons t ts =>
    cases hu : c'.tokens with
    | nil =>
      rw [hu] at hmark
      cases hmark
    | cons u us =>
      rw [ht] at hheads hnewline
      rw [hu] at hheads hmark
      have hnewline : t.kind = .newline := Option.some.inj hnewline
      have hmark : u.kind = .mark := Option.some.inj hmark
      cases hheads with
      | word _ hne _ => exact absurd hnewline hne
      | line halike _ =>
        exact absurd (hnewline.symm.trans (halike.1.trans hmark)) (by decide)
      | tail hline _ _ hall hends => exact ⟨⟨t, rfl, hline⟩, hall, hends c' hu⟩

/-- Both readings see the same words but for ends of lines and marks. -/
theorem at?_eq (h : S.Abreast ps n c c') {kind : TokenKind} (hline : kind ≠ .newline)
    (hmark : kind ≠ .mark) (text : String) : c.at? kind text = c'.at? kind text := by
  have hheads := h.heads
  unfold Cursor.at?
  generalize c.tokens = ts at hheads
  generalize c'.tokens = us at hheads
  cases hheads with
  | done => rfl
  | word halike => exact halike.is kind text
  | line halike => exact halike.is kind text
  | tail ht hu =>
    have hleft : _ ≠ kind := ht ▸ hline.symm
    have hright : _ ≠ kind := hu ▸ hmark.symm
    exact (Token.is_of_kind_ne hleft text).trans (Token.is_of_kind_ne hright text).symm

theorem ownerClosed_eq (h : S.Abreast ps n c c') : c.ownerClosed = c'.ownerClosed :=
  have ⟨_, _, hpending, hpending'⟩ := h.waiting
  ownerClosed_eq_of_pending hpending hpending'

/-- A fenced reading does not find the end of its statement within an expression. -/
theorem ownerClosed_eq_false (h : S.Abreast ps n c c') (hps : Pending.AllOpen ps)
    (hfenced : S.fenced = true) : c.ownerClosed = false := by
  obtain ⟨qs, hqs, hpending, -⟩ := h.waiting
  obtain rfl := hqs.eq hfenced
  exact Cursor.ownerClosed_of_open hps hpending

/-- What stands in the way is named alike, or nothing is said of it. -/
theorem found_eq (h : S.Abreast ps n c c') : c.found = c'.found ∨ ∀ e, S.Excused e := by
  have hheads := h.heads
  unfold Cursor.found
  generalize c.tokens = ts at hheads
  generalize c'.tokens = us at hheads
  cases hheads with
  | done => exact Or.inl rfl
  | word halike => exact Or.inl (by simp [halike.1, halike.2])
  | line halike => exact Or.inl (by simp [halike.1, halike.2])
  | tail _ _ _ hall => exact Or.inr hall

/-- Unless the first line ends alone, both readings are at the end of a line or neither is. -/
theorem atLineEnd_eq (h : S.Abreast ps n c c') (htail : ¬AtTail c c') :
    c.atLineEnd = c'.atLineEnd := by
  have hheads := h.heads
  unfold AtTail at htail
  unfold Cursor.atLineEnd
  generalize c.tokens = ts at hheads htail
  generalize c'.tokens = us at hheads htail
  cases hheads with
  | done => rfl
  | word halike => simp [halike.1]
  | line halike => simp [halike.1]
  | tail ht hu => exact absurd ⟨by simp [ht], by simp [hu]⟩ htail

/-- The same for a mark with a word behind it that neither ends a line nor is a mark. -/
theorem atMarked_eq (h : S.Abreast ps n c c') (htail : ¬AtTail c c') {p : Token → Bool}
    (hsame : ∀ {t u : Token}, t.Alike u → p t = p u)
    (hline : ∀ {t : Token}, t.kind = .newline → p t = false)
    (hmark : ∀ {t : Token}, t.kind = .mark → p t = false) : c.atMarked p = c'.atMarked p := by
  have hheads := h.heads
  unfold AtTail at htail
  unfold Cursor.atMarked
  generalize c.tokens = ts at hheads htail
  generalize c'.tokens = us at hheads htail
  cases hheads with
  | done => rfl
  | @line t u ts us halike ht =>
    have hleft : (t.kind == .mark) = false := by rw [ht]; rfl
    have hright : (u.kind == .mark) = false := halike.1 ▸ hleft
    cases ts <;> cases us <;> simp [hleft, hright]
  | tail ht hu => exact absurd ⟨by simp [ht], by simp [hu]⟩ htail
  | word halike _ hbeside =>
    -- the second word can be the last one of the first line
    have hnext := S.heads hbeside
    cases hnext with
    | done => rfl
    | word halike' => simp only [halike.1, hsame halike']
    | line halike' => simp only [halike.1, hsame halike']
    | tail ht' hu' => simp only [hline ht', hmark hu', Bool.and_false]

/-- The two words that end a block are seen by both readings. -/
theorem atBlockEnd_eq (h : S.Abreast ps n c c') (htail : ¬AtTail c c') :
    c.atBlockEnd = c'.atBlockEnd :=
  h.atMarked_eq htail (p := fun u => u.is .keyword "end") (fun halike => halike.is _ _)
    (fun hline => Token.is_of_kind_ne (by simp [hline]) _)
    (fun hmark => Token.is_of_kind_ne (by simp [hmark]) _)

/-- Both readings see the same beginnings of statements. -/
theorem atStatement_eq (h : S.Abreast ps n c c') (htail : ¬AtTail c c') :
    c.atStatement = c'.atStatement :=
  h.atMarked_eq htail
    (p := fun u => u.kind == .keyword && u.text != "end" || u.kind == .comment)
    (fun halike => by simp only [halike.1, halike.2]) (fun hline => by rw [hline]; rfl)
    (fun hmark => by rw [hmark]; rfl)

end Abreast

/-! ## Readings -/

/-- Whether a second attempt gives what a first one gives, up to `R`, and fails for the same fault
where the first one fails and is not excused. -/
def Agree {α β : Type} (Excused : SyntaxError → Prop) (R : α → β → Prop)
    (x : Except SyntaxError α) (y : Except SyntaxError β) : Prop :=
  (∀ a, x = .ok a → ∃ b, y = .ok b ∧ R a b) ∧
    ∀ e, x = .error e → Excused e ∨ ∃ e', y = .error e' ∧ e'.fault = e.fault

namespace Agree

variable {E : SyntaxError → Prop} {R : α → β → Prop} {x : Except SyntaxError α}
variable {y : Except SyntaxError β}

theorem ok {a : α} {b : β} (h : R a b) : Agree E R (.ok a) (.ok b) :=
  ⟨fun _ ha => ⟨b, rfl, Except.ok.inj ha ▸ h⟩, fun _ he => nomatch he⟩

/-- The lines of two errors may differ, their faults do not. -/
theorem error {e e' : SyntaxError} (h : e'.fault = e.fault) :
    Agree E R (.error e : Except SyntaxError α) (.error e' : Except SyntaxError β) :=
  ⟨fun _ ha => (nomatch ha), fun _ he => Or.inr ⟨e', rfl, Except.error.inj he ▸ h⟩⟩

/-- More errors may be excused, and less may be said of the results. -/
theorem mono {E' : SyntaxError → Prop} {R' : α → β → Prop} (h : Agree E R x y)
    (hE : ∀ e, E e → E' e) (hR : ∀ a b, R a b → R' a b) : Agree E' R' x y := by
  refine ⟨fun a ha => ?_, fun e he => (h.2 e he).imp (hE e) id⟩
  obtain ⟨b, hb, hab⟩ := h.1 a ha
  exact ⟨b, hb, hR a b hab⟩

/-- If what comes first agrees and what follows agrees on results that correspond, both together do.
-/
theorem bind {γ δ : Type} {Q : γ → δ → Prop} {f : α → Except SyntaxError γ}
    {g : β → Except SyntaxError δ} (h : Agree E R x y)
    (hf : ∀ a b, R a b → Agree E Q (f a) (g b)) : Agree E Q (x >>= f) (y >>= g) := by
  cases x with
  | error e =>
    refine ⟨fun _ ha => (nomatch ha), fun e' he => ?_⟩
    cases he
    rcases h.2 e rfl with hexcused | ⟨e', rfl, hfault⟩
    · exact Or.inl hexcused
    · exact Or.inr ⟨e', rfl, hfault⟩
  | ok a =>
    obtain ⟨b, rfl, hab⟩ := h.1 a rfl
    exact hf a b hab

theorem map {γ δ : Type} {Q : γ → δ → Prop} {f : α → γ} {g : β → δ} (h : Agree E R x y)
    (hf : ∀ a b, R a b → Q (f a) (g b)) : Agree E Q (x.map f) (y.map g) := by
  have hbind : Agree E Q (x >>= fun a => .ok (f a)) (y >>= fun b => .ok (g b)) :=
    h.bind fun a b hab => ok (hf a b hab)
  cases x <;> cases y <;> exact hbind

end Agree

/-- What the first reading gives, the second one gives as well; where the first one fails and is not
excused, the second one fails for the same fault. -/
def Tied (S : Lockstep) (post : α → Cursor → Cursor → Prop) (r s : Reading α) (c c' : Cursor) :
    Prop :=
  (∀ a c₁, r c = .ok (a, c₁) → ∃ c₁', s c' = .ok (a, c₁') ∧ post a c₁ c₁') ∧
    ∀ e, r c = .error e → S.Excused e ∨ ∃ e', s c' = .error e' ∧ e'.fault = e.fault

/-- A result with `P`, and cursors that are abreast. -/
def After (S : Lockstep) (ps : List Pending) (n : ℕ × ℕ) (P : α → Prop) (a : α) (c c' : Cursor) :
    Prop :=
  P a ∧ S.Abreast ps n c c'

namespace Tied

variable {P : α → Cursor → Cursor → Prop} {Q : β → Cursor → Cursor → Prop} {r s : Reading α}

/-- Both readings succeed. -/
theorem of_ok {a : α} {c₁ c₁' : Cursor} (hr : r c = .ok (a, c₁)) (hs : s c' = .ok (a, c₁'))
    (h : P a c₁ c₁') : S.Tied P r s c c' := by
  refine ⟨fun b d hb => ?_, fun e he => ?_⟩
  · rw [hr] at hb
    cases hb
    exact ⟨c₁', hs, h⟩
  · rw [hr] at he
    cases he

/-- Both readings fail for the same fault. -/
theorem of_error {e e' : SyntaxError} (hr : r c = .error e) (hs : s c' = .error e')
    (h : e'.fault = e.fault) : S.Tied P r s c c' := by
  refine ⟨fun a d ha => ?_, fun e₁ he => ?_⟩
  · rw [hr] at ha
    cases ha
  · rw [hr] at he
    cases he
    exact Or.inr ⟨e', hs, h⟩

/-- A failure of the first reading that is excused. -/
theorem of_excused {e : SyntaxError} (hr : r c = .error e) (h : S.Excused e) :
    S.Tied P r s c c' := by
  refine ⟨fun a d ha => ?_, fun e₁ he => ?_⟩
  · rw [hr] at ha
    cases ha
  · rw [hr] at he
    cases he
    exact Or.inl h

theorem pure {a : α} (h : P a c c') : S.Tied P (pure a) (pure a) c c' :=
  of_ok (pure_apply a) (pure_apply a) h

theorem failAt {line line' : Nat} {fault : SyntaxFault} :
    S.Tied P (failAt line fault) (failAt line' fault) c c' :=
  of_error (show Reading.failAt line fault c = .error ⟨line, fault⟩ from rfl)
    (show Reading.failAt line' fault c' = .error ⟨line', fault⟩ from rfl) rfl

theorem fail {fault : SyntaxFault} : S.Tied P (fail fault) (fail fault) c c' :=
  of_error (show Reading.fail fault c = .error ⟨c.line, fault⟩ from rfl)
    (show Reading.fail fault c' = .error ⟨c'.line, fault⟩ from rfl) rfl

theorem mono {P' : α → Cursor → Cursor → Prop} (h : S.Tied P r s c c')
    (hP : ∀ a c₁ c₁', P a c₁ c₁' → P' a c₁ c₁') : S.Tied P' r s c c' := by
  refine ⟨fun a c₁ hr => ?_, h.2⟩
  obtain ⟨c₁', hs, ha⟩ := h.1 a c₁ hr
  exact ⟨c₁', hs, hP a c₁ c₁' ha⟩

/-- Readings that are tied agree, with the cursors that they leave among their results. -/
theorem agree (h : S.Tied P r s c c') :
    Agree S.Excused (fun x y => x.1 = y.1 ∧ P x.1 x.2 y.2) (r c) (s c') := by
  refine ⟨fun x hx => ?_, h.2⟩
  obtain ⟨c₁', hs, hx⟩ := h.1 x.1 x.2 hx
  exact ⟨(x.1, c₁'), hs, rfl, hx⟩

/-- A reading may be exchanged for one that does the same where the cursor stands. -/
theorem congr {r' s' : Reading α} {d d' : Cursor} (h : S.Tied P r s c c') (hr : r' d = r c)
    (hs : s' d' = s c') : S.Tied P r' s' d d' := by
  unfold Tied
  rw [hr, hs]
  exact h

theorem bind {f g : α → Reading β} (h : S.Tied P r s c c')
    (hf : ∀ a c₁ c₁', P a c₁ c₁' → S.Tied Q (f a) (g a) c₁ c₁') :
    S.Tied Q (r >>= f) (s >>= g) c c' := by
  cases hr : r c with
  | error e =>
    rcases h.2 e hr with he | ⟨e', hs, he⟩
    · exact of_excused (bind_of_error hr) he
    · exact of_error (bind_of_error hr) (bind_of_error hs) he
  | ok x =>
    obtain ⟨a, c₁⟩ := x
    obtain ⟨c₁', hs, ha⟩ := h.1 a c₁ hr
    obtain ⟨hok, herror⟩ := hf a c₁ c₁' ha
    refine ⟨fun b d hb => ?_, fun e he => ?_⟩
    · rw [bind_of_ok hr] at hb
      rw [bind_of_ok hs]
      exact hok b d hb
    · rw [bind_of_ok hr] at he
      rw [bind_of_ok hs]
      exact herror e he

/-- What follows steps whose results are known. They may differ. -/
theorem after {γ δ : Type} {r : Reading γ} {s : Reading δ} {f : γ → Reading β} {g : δ → Reading β}
    {a : γ} {b : δ} {c₁ c₁' : Cursor} (hr : r c = .ok (a, c₁)) (hs : s c' = .ok (b, c₁'))
    (h : S.Tied Q (f a) (g b) c₁ c₁') : S.Tied Q (r >>= f) (s >>= g) c c' := by
  refine ⟨fun b d hb => ?_, fun e he => ?_⟩
  · rw [bind_of_ok hr] at hb
    rw [bind_of_ok hs]
    exact h.1 b d hb
  · rw [bind_of_ok hr] at he
    rw [bind_of_ok hs]
    exact h.2 e he

theorem get {f g : Cursor → Reading β} (h : S.Tied Q (f c) (g c') c c') :
    S.Tied Q (get >>= f) (get >>= g) c c' :=
  after get_apply get_apply h

theorem ite {p p' : Prop} [Decidable p] [Decidable p'] {r' s' : Reading α} (hp : p ↔ p')
    (h : p → p' → S.Tied P r s c c') (h' : ¬p → ¬p' → S.Tied P r' s' c c') :
    S.Tied P (if p then r else r') (if p' then s else s') c c' := by
  by_cases hleft : p
  · rw [if_pos hleft, if_pos (hp.1 hleft)]
    exact h hleft (hp.1 hleft)
  · rw [if_neg hleft, if_neg fun hright => hleft (hp.2 hright)]
    exact h' hleft fun hright => hleft (hp.2 hright)

/-- A check that fails, in front of what follows. -/
theorem check {p p' : Prop} [Decidable p] [Decidable p'] {line line' : Nat} {fault : SyntaxFault}
    {f g : Unit → Reading β} (hp : p ↔ p')
    (h : ¬p → ¬p' → S.Tied Q (f ()) (g ()) c c') :
    S.Tied Q (if p then Reading.failAt line fault >>= f else f ())
      (if p' then Reading.failAt line' fault >>= g else g ()) c c' :=
  .ite hp (fun _ _ => .bind (P := fun _ _ _ => False) .failAt fun _ _ _ hfalse => hfalse.elim) h

theorem lift_ok {a : α} : (StateT.lift (.ok a) : Reading α) c = .ok (a, c) :=
  rfl

theorem lift_error {e : SyntaxError} : (StateT.lift (.error e) : Reading α) c = .error e :=
  rfl

/-- A value that is found apart from the cursor. -/
theorem lift {x y : Except SyntaxError α} (h : Agree S.Excused Eq x y)
    (hP : ∀ a, x = .ok a → P a c c') : S.Tied P (StateT.lift x) (StateT.lift y) c c' := by
  cases x with
  | error e =>
    rcases h.2 e rfl with he | ⟨e', rfl, he⟩
    · exact of_excused lift_error he
    · exact of_error lift_error lift_error he
  | ok a =>
    obtain ⟨b, rfl, rfl⟩ := h.1 a rfl
    exact of_ok lift_ok lift_ok (hP _ rfl)

/-! ## Steps along the tokens -/

/-- The next token, where it does not end a line. -/
theorem advance {f g : Token → Reading β} (hc : S.Abreast ps (n + 1) c c')
    (hhead : ∀ t rest, c.tokens = t :: rest → t.kind ≠ .newline)
    (h : ∀ t u rest rest', c.tokens = t :: rest → c'.tokens = u :: rest' → t.Alike u →
      S.Abreast ps n (c.moveTo rest) (c'.moveTo rest') →
        S.Tied Q (f t) (g u) (c.moveTo rest) (c'.moveTo rest')) :
    S.Tied Q (Reading.advance >>= f) (Reading.advance >>= g) c c' := by
  have hheads := hc.heads
  cases ht : c.tokens with
  | nil =>
    rw [ht] at hheads
    cases hu : c'.tokens with
    | cons u us =>
      rw [hu] at hheads
      cases hheads
    | nil =>
      have hr : Reading.advance c = .error ⟨c.lastLine, .unexpectedEnd⟩ := by
        simp [Reading.advance, ht]
      have hs : Reading.advance c' = .error ⟨c'.lastLine, .unexpectedEnd⟩ := by
        simp [Reading.advance, hu]
      exact of_error (bind_of_error hr) (bind_of_error hs) rfl
  | cons t rest =>
    have hkind := hhead t rest ht
    rw [ht] at hheads
    cases hu : c'.tokens with
    | nil =>
      rw [hu] at hheads
      cases hheads
    | cons u rest' =>
      rw [hu] at hheads
      -- the heads are words, since the first one ends no line
      have hfirst : t.Alike u ∧ S.Beside rest rest' := by
        cases hheads with
        | word halike _ hbeside => exact ⟨halike, hbeside⟩
        | line _ hline => exact absurd hline hkind
        | tail hline => exact absurd hline hkind
      exact .after (advance_of_cons ht) (advance_of_cons hu)
        (h t u rest rest' ht hu hfirst.1 (hc.next ht hu hfirst.2))

/-- A token that is known not to end a line can be taken by both readings. -/
theorem not_newline_of_at? {kind : TokenKind} {text : String} (hline : kind ≠ .newline)
    (hat : c.at? kind text = true) : ∀ t rest, c.tokens = t :: rest → t.kind ≠ .newline := by
  obtain ⟨t, rest, htok, ht⟩ := Cursor.at?_eq_true.1 hat
  intro t' rest' htok'
  rw [htok, List.cons.injEq] at htok'
  obtain ⟨rfl, -⟩ := htok'
  simp only [Token.is, Bool.and_eq_true, beq_iff_eq] at ht
  rw [ht.1]
  exact hline

/-- The next token, where it is known. -/
theorem advance_at {f g : Token → Reading β} {kind : TokenKind} {text : String}
    (hc : S.Abreast ps n c c') (hline : kind ≠ .newline) (hat : c.at? kind text = true)
    (h : ∀ t u c₁ c₁', S.Abreast ps n c₁ c₁' → S.Tied Q (f t) (g u) c₁ c₁') :
    S.Tied Q (Reading.advance >>= f) (Reading.advance >>= g) c c' :=
  .advance hc.succ (not_newline_of_at? hline hat) fun t u _ _ _ _ _ hrest => h t u _ _ hrest

/-- Something else was expected. -/
theorem expected {what : String} (hc : S.Abreast ps n c c') :
    S.Tied P (Reading.expected what) (Reading.expected what) c c' := by
  rcases hc.found_eq with hfound | hall
  · have hr : (Reading.expected what : Reading α) c = .error ⟨c.line, .expected what c.found⟩ := rfl
    have hs : (Reading.expected what : Reading α) c' =
        .error ⟨c'.line, .expected what c'.found⟩ := rfl
    exact of_error hr hs (by rw [hfound])
  · have hr : (Reading.expected what : Reading α) c = .error ⟨c.line, .expected what c.found⟩ := rfl
    exact of_excused hr (hall _)

/-- An expected word is taken by both readings, or missed by both. -/
theorem expect {kind : TokenKind} {text what : String} (hc : S.Abreast ps n c c')
    (hline : kind ≠ .newline) (hmark : kind ≠ .mark) :
    S.Tied (fun _ => S.Abreast ps n) (expect kind text what) (expect kind text what) c c' := by
  have hsame := hc.at?_eq hline hmark text
  cases hat : c.at? kind text with
  | false =>
    have hat' : c'.at? kind text = false := hsame.symm.trans hat
    have hr : Reading.expect kind text what c = Reading.expected what c := by
      simp [Reading.expect, hat]
    have hs : Reading.expect kind text what c' = Reading.expected what c' := by
      simp [Reading.expect, hat']
    exact (expected hc).congr hr hs
  | true =>
    obtain ⟨t, rest, ht, his⟩ := Cursor.at?_eq_true.1 hat
    obtain ⟨u, rest', hu, his'⟩ := Cursor.at?_eq_true.1 (hsame.symm.trans hat)
    have hkind := not_newline_of_at? hline hat t rest ht
    have hheads := hc.heads
    rw [ht, hu] at hheads
    have hbeside : S.Beside rest rest' := by
      cases hheads with
      | word _ _ hbeside => exact hbeside
      | line _ hnewline => exact absurd hnewline hkind
      | tail hnewline => exact absurd hnewline hkind
    exact of_ok (expect_of_cons ht his) (expect_of_cons hu his') (hc.succ.next ht hu hbeside)

/-- A name is taken by both readings, or refused by both. -/
theorem literal {what : String} (hc : S.Abreast ps (n + 1) c c') :
    S.Tied (fun _ => S.Abreast ps n) (literal what) (literal what) c c' := by
  -- a token of another kind is an error on both sides
  have hfail : ∀ {d : Cursor}, (∀ t rest, d.tokens = t :: rest → t.kind ≠ .literal) →
      Reading.literal what d = Reading.expected what d := by
    intro d hd
    unfold Reading.literal
    cases htok : d.tokens with
    | nil => rfl
    | cons t rest => simp [hd t rest htok]
  have hother : (∀ t rest, c.tokens = t :: rest → t.kind ≠ .literal) →
      (∀ t rest, c'.tokens = t :: rest → t.kind ≠ .literal) →
        S.Tied (fun _ => S.Abreast ps n) (Reading.literal what) (Reading.literal what) c c' :=
    fun hleft hright => (expected hc).congr (hfail hleft) (hfail hright)
  have hheads := hc.heads
  cases ht : c.tokens with
  | nil =>
    cases hu : c'.tokens with
    | nil => exact hother (by simp [ht]) (by simp [hu])
    | cons u us =>
      rw [ht, hu] at hheads
      cases hheads
  | cons t rest =>
    cases hu : c'.tokens with
    | nil =>
      rw [ht, hu] at hheads
      cases hheads
    | cons u rest' =>
      rw [ht, hu] at hheads
      cases hheads with
      | line halike hline =>
        exact hother (by simp [ht, hline]) (by simp [hu, halike.1.symm.trans hline])
      | tail hline hmark => exact hother (by simp [ht, hline]) (by simp [hu, hmark])
      | word halike _ hbeside =>
        by_cases hk : t.kind = .literal
        · have hs : Reading.literal what c' = .ok (u.text, c'.moveTo rest') :=
            literal_of_cons hu (halike.1.symm.trans hk)
          rw [← halike.2] at hs
          exact of_ok (literal_of_cons ht hk) hs (hc.next ht hu hbeside)
        · exact hother (by simpa [ht] using hk) (by simpa [hu, ← halike.1] using hk)

/-- The end of a turn that goes on behind a separator. -/
theorem separated {text : String} {a : α} {b : β} {I : α → Prop} {R : β → Prop}
    (hc : S.Abreast ps n c c') (ha : I a) (hb : R b) :
    S.Tied (fun x c₁ c₁' => Sum.elim (fun a => I a ∧ S.Abreast ps n c₁ c₁')
        (fun b => R b ∧ S.Abreast ps (n + 1) c₁ c₁') x)
      (do
        if (← MonadState.get).at? .delimiter text then
          let _ ← Reading.advance
          return .inl a
        else return .inr b : Reading (α ⊕ β))
      (do
        if (← MonadState.get).at? .delimiter text then
          let _ ← Reading.advance
          return .inl a
        else return .inr b : Reading (α ⊕ β)) c c' := by
  have hsame : c.at? .delimiter text = c'.at? .delimiter text :=
    hc.at?_eq (by decide) (by decide) text
  refine .get (.ite (by rw [hsame]) (fun hat _ => ?_) fun _ _ => .pure ⟨hb, hc.succ⟩)
  exact .advance_at hc (by decide) hat fun _ _ _ _ hrest => .pure ⟨ha, hrest⟩

/-! ## Loops -/

/-- Turns that keep step, unless they come to a place where they stop doing so. -/
theorem turns_or {turn turn' : σ → Reading (σ ⊕ β)} {I : σ → Prop}
    (R : ℕ × ℕ → β → Cursor → Cursor → Prop) (stop : Cursor → Cursor → Prop)
    (hmono : ∀ {n k b c c'}, n ≤ k → R n b c c' → R k b c c')
    (next : ∀ {n s c c'}, I s → S.Abreast ps (n + 1) c c' → ¬stop c c' →
      S.Tied (fun x c₁ c₁' => Sum.elim (fun s' => I s' ∧ S.Abreast ps n c₁ c₁')
        (fun b => R (n + 1) b c₁ c₁') x) (turn s) (turn' s) c c')
    {fuel fuel' : Nat} {s : σ} (start : I s) (hc : S.Abreast ps (fuel, fuel') c c') :
    S.Tied (R (fuel, fuel')) (turns turn fuel s) (turns turn' fuel' s) c c' ∨
      ∃ s₁ c₁ c₁' m m', I s₁ ∧ stop c₁ c₁' ∧ S.Abreast ps (m + 1, m' + 1) c₁ c₁' ∧
        (m + 1, m' + 1) ≤ (fuel, fuel') ∧ turns turn fuel s c = turns turn (m + 1) s₁ c₁ ∧
          turns turn' fuel' s c' = turns turn' (m' + 1) s₁ c₁' := by
  induction fuel generalizing fuel' s c c' with
  | zero => exact absurd hc.length (Nat.not_lt_zero _)
  | succ fuel ih =>
    obtain ⟨fuel', rfl⟩ : ∃ m, fuel' = m + 1 :=
      Nat.exists_eq_add_of_lt (Nat.lt_of_le_of_lt (Nat.zero_le _) hc.length') |>.imp fun m hm => by
        simpa using hm
    -- where the readings stop is told to the caller; otherwise one more turn is taken
    by_cases hstop : stop c c'
    · exact Or.inr ⟨s, c, c', fuel, fuel', start, hstop, hc, le_refl _, rfl, rfl⟩
    have hturn := next (n := (fuel, fuel')) start hc hstop
    rw [turns, turns]
    cases hr : turn s c with
    | error e =>
      rcases hturn.2 e hr with he | ⟨e', hs, he⟩
      · exact Or.inl (of_excused (bind_of_error hr) he)
      · exact Or.inl (of_error (bind_of_error hr) (bind_of_error hs) he)
    | ok x =>
      obtain ⟨x, c₁⟩ := x
      obtain ⟨c₁', hs, hx⟩ := hturn.1 x c₁ hr
      cases x with
      | inr b => exact Or.inl (.after hr hs (.pure hx))
      | inl s' =>
        have hle : ((fuel, fuel') : ℕ × ℕ) ≤ (fuel + 1, fuel' + 1) :=
          ⟨Nat.le_succ _, Nat.le_succ _⟩
        rcases ih hx.1 hx.2 with htied | ⟨s₁, c₂, c₂', m, m', hs₁, hat, habreast, hle', hl, hl'⟩
        · exact Or.inl (.after hr hs (htied.mono fun _ _ _ => hmono hle))
        · refine Or.inr ⟨s₁, c₂, c₂', m, m', hs₁, hat, habreast, hle'.trans hle, ?_, ?_⟩
          · rw [bind_of_ok hr]
            exact hl
          · rw [bind_of_ok hs]
            exact hl'

/-- A loop whose turns keep step, unless they come to a place where they stop doing so. -/
theorem loop_or {turn turn' : σ → Reading (σ ⊕ β)} {I : σ → Prop}
    (R : ℕ × ℕ → β → Cursor → Cursor → Prop) (stop : Cursor → Cursor → Prop)
    (hmono : ∀ {n k b c c'}, n ≤ k → R n b c c' → R k b c c')
    (next : ∀ {n s c c'}, I s → S.Abreast ps (n + 1) c c' → ¬stop c c' →
      S.Tied (fun x c₁ c₁' => Sum.elim (fun s' => I s' ∧ S.Abreast ps n c₁ c₁')
        (fun b => R (n + 1) b c₁ c₁') x) (turn s) (turn' s) c c')
    {s : σ} (start : I s) (hc : S.Abreast ps n c c') :
    S.Tied (R n) (Reading.loop turn s) (Reading.loop turn' s) c c' ∨
      ∃ s₁ c₁ c₁' m m', I s₁ ∧ stop c₁ c₁' ∧ S.Abreast ps n c₁ c₁' ∧
        Reading.loop turn s c = turns turn (m + 1) s₁ c₁ ∧
          Reading.loop turn' s c' = turns turn' (m' + 1) s₁ c₁' := by
  have hbound : S.Abreast ps (c.tokens.length + 1, c'.tokens.length + 1) c c' :=
    ⟨hc.beside, hc.waiting, Nat.lt_succ_self _, Nat.lt_succ_self _⟩
  have hle : ((c.tokens.length + 1, c'.tokens.length + 1) : ℕ × ℕ) ≤ n := ⟨hc.length, hc.length'⟩
  rcases turns_or R stop hmono next start hbound with
    h | ⟨s₁, c₁, c₁', m, m', hs₁, hat, h, hle', hl, hl'⟩
  · exact Or.inl (h.mono fun _ _ _ => hmono hle)
  · exact Or.inr ⟨s₁, c₁, c₁', m, m', hs₁, hat, h.mono (hle'.trans hle), hl, hl'⟩

/-- A loop whose turns keep step. -/
theorem loop {turn turn' : σ → Reading (σ ⊕ β)} {I : σ → Prop} {R : β → Prop}
    (next : ∀ {n s c c'}, I s → S.Abreast ps (n + 1) c c' →
      S.Tied (fun x c₁ c₁' => Sum.elim (fun s' => I s' ∧ S.Abreast ps n c₁ c₁')
        (fun b => R b ∧ S.Abreast ps (n + 1) c₁ c₁') x) (turn s) (turn' s) c c')
    {s : σ} (start : I s) (hc : S.Abreast ps n c c') :
    S.Tied (S.After ps n R) (Reading.loop turn s) (Reading.loop turn' s) c c' := by
  have hmono : ∀ {n k b c c'}, n ≤ k → S.After ps n R b c c' → S.After ps k R b c c' :=
    fun hle h => ⟨h.1, h.2.mono hle⟩
  rcases loop_or (fun n => S.After ps n R) (fun _ _ => False) hmono (fun hs hc _ => next hs hc)
    start hc with h | ⟨_, _, _, _, _, -, hstop, -⟩
  · exact h
  · exact hstop.elim

end Tied

end Lockstep

end Stencil
