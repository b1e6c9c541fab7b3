import Mathlib
import Stencil.Proofs.Comparison.Rules
import Stencil.Proofs.Expression
import Stencil.Proofs.Lexing
/-!
# Faults

Which errors a text can have, and what every reading keeps in order. A watch names what is known of
the tokens, in which lines they stand, and what is due of an error. Whoever reads with tokens that
are known passes on tokens that are known, and leaves the statements that wait for an `else` as
they were, but for the branches of the innermost one; so no statement is ever missed when its block
has ended. This is a comparison of a reading with itself. A bound on the tokens that are left goes
along, since a level that is never reached cannot refuse anything.
-/

namespace Stencil

namespace Watch

variable (W : Watch)

/-- A text of a string that is known. -/
def Text (text : String) : Prop :=
  ∃ t, W.Known t ∧ t.kind = .string ∧ t.text = text

/-- A node that, if it is a string, is one that is known. -/
def Fit (n : Node) : Prop :=
  ∀ text, n = .leaf (.string text) → W.Text text

/-- The same for a node that an expression may leave. -/
def FitIfAny (o : Option Node) : Prop :=
  ∀ n, o = some n → W.Fit n

/-- Fewer than `n` tokens are left, all of them known, and statements of the kinds `ks` wait. -/
structure At (n : ℕ∞) (ks : List Compound) (c : Cursor) : Prop where
  length : (c.tokens.length : ℕ∞) < n
  known : ∀ t ∈ c.tokens, W.Known t
  last : W.Told c.lastLine
  kinds : c.pending.map Pending.kind = ks

variable {W} {n m : ℕ∞} {ks : List Compound} {c : Cursor}

/-- Only strings have to be known, so every other node fits. -/
theorem fit_of_ne {x : Node} (h : ∀ lf, x ≠ .leaf lf) : W.Fit x :=
  fun _ heq => absurd heq (h _)

namespace At

/-- The line that an error would name is told, whether it is that of the next token or the last one.
-/
theorem line (h : W.At n ks c) : W.Told c.line :=
  W.told_line h.last h.known

/-- Tokens that are left out stay known, and only fewer are left. -/
theorem moveTo (h : W.At n ks c) {rest : List Token} (hsub : rest <:+ c.tokens) :
    W.At n ks (c.moveTo rest) :=
  ⟨lt_of_le_of_lt (Nat.cast_le.2 hsub.length_le) h.length,
    fun t ht => h.known t (hsub.subset ht), h.last, h.kinds⟩

theorem mono (h : W.At n ks c) (hnm : n ≤ m) : W.At m ks c :=
  ⟨lt_of_lt_of_le h.length hnm, h.known, h.last, h.kinds⟩

/-- What waits can be exchanged for statements of other kinds; the tokens do not know of it. -/
theorem withPending (h : W.At n ks c) {ps : List Pending} {ks' : List Compound}
    (hps : ps.map Pending.kind = ks') : W.At n ks' (c.withPending ps) :=
  ⟨h.length, h.known, h.last, hps⟩

end At

end Watch

namespace Reading

variable {α β σ : Type} {P : α → Prop} {R : β → Prop} {r s : Reading α}
variable {W : Watch} {n m : ℕ∞} {ks : List Compound} {ps ps' : List Pending}

/-- How a reading ends that has begun with the statements `ps` waiting: the innermost one may have
changed and is of the same kind, or there is an error that is due. -/
inductive Ends (W : Watch) (n : ℕ∞) (ks : List Compound) (P : α → Prop) (ps : List Pending) :
    Except SyntaxError (α × Cursor) → Prop
  | ok {a : α} {c : Cursor} : W.At n ks c → c.pending.tail = ps.tail → P a →
    Ends W n ks P ps (.ok (a, c))
  | error {e : SyntaxError} : W.Due e → Ends W n ks P ps (.error e)

/-- Whether a reading that starts with known tokens ends so, with a result that has `P`. -/
def Steady (W : Watch) (n : ℕ∞) (ks : List Compound) (P : α → Prop) (r : Reading α) : Prop :=
  ∀ c : Cursor, W.At n ks c → Ends W n ks P c.pending (r c)

namespace Ends

variable {x : Except SyntaxError (α × Cursor)}

/-- An end is measured by what lies below the innermost statement, so a step that leaves that alone
may come before. -/
theorem trans (h : Ends W n ks P ps' x) (htail : ps'.tail = ps.tail) : Ends W n ks P ps x := by
  cases h with
  | ok hc hps ha => exact .ok hc (hps.trans htail) ha
  | error he => exact .error he

theorem mono {P' : α → Prop} (h : Ends W n ks P ps x) (hnm : n ≤ m) (hP : ∀ a, P a → P' a) :
    Ends W m ks P' ps x := by
  cases h with
  | ok hc hps ha => exact .ok (hc.mono hnm) hps (hP _ ha)
  | error he => exact .error he

end Ends

namespace Steady

theorem pure {a : α} (h : P a) : Steady W n ks P (pure a) :=
  fun _ hc => .ok hc rfl h

theorem mono {P' : α → Prop} (h : Steady W n ks P r) (hP : ∀ a, P a → P' a) :
    Steady W n ks P' r :=
  fun c hc => (h c hc).mono le_rfl hP

/-- The second reading starts where the first one ended, with the same kinds waiting; so two steady
steps make a steady one. -/
theorem bind {f : α → Reading β} (h : Steady W n ks P r)
    (hf : ∀ a, P a → Steady W n ks R (f a)) : Steady W n ks R (r >>= f) := by
  intro c hc
  have hends := h c hc
  cases hr : r c with
  | error e =>
    rw [hr] at hends
    rw [bind_of_error hr]
    cases hends with
    | error he => exact .error he
  | ok x =>
    obtain ⟨a, c'⟩ := x
    rw [hr] at hends
    rw [bind_of_ok hr]
    cases hends with
    | ok hc' htail ha => exact (hf a ha c' hc').trans htail

/-- A look at the cursor gives all that is known of it to what follows. -/
theorem get {f : Cursor → Reading β} (h : ∀ d, W.At n ks d → Steady W n ks R (f d)) :
    Steady W n ks R (get >>= f) :=
  fun c hc => h c hc c hc

/-- A token that is taken is known; if there is none, the error that the template has ended is due
in every line that is told. -/
theorem advance : Steady W n ks W.Known advance := by
  intro c hc
  cases htok : c.tokens with
  | nil =>
    rw [advance_of_nil htok]
    exact .error (W.common _ _ hc.last rfl)
  | cons t rest =>
    rw [advance_of_cons htok]
    exact .ok (hc.moveTo (htok ▸ List.suffix_cons t rest)) rfl
      (hc.known t (htok ▸ List.mem_cons_self))

/-- Behind a token there are fewer left. -/
theorem step {f : Token → Reading β} (h : ∀ t, W.Known t → Steady W n ks R (f t)) :
    Steady W (n + 1) ks R (Reading.advance >>= f) := by
  intro c hc
  cases htok : c.tokens with
  | nil =>
    rw [bind_of_error (advance_of_nil htok)]
    exact .error (W.common _ _ hc.last rfl)
  | cons t rest =>
    have hlength := hc.length
    rw [htok, List.length_cons, Nat.cast_succ, ENat.add_lt_add_iff_right (by simp)] at hlength
    have hrest : W.At n ks (c.moveTo rest) :=
      ⟨hlength, fun u hu => hc.known u (htok ▸ .tail t hu), hc.last, hc.kinds⟩
    rw [bind_of_ok (advance_of_cons htok)]
    exact (h t (hc.known t (htok ▸ List.mem_cons_self)) _ hrest).mono le_self_add fun _ => id

/-- There is a waiting statement if there is a kind of one. -/
theorem owner : Steady W n ks (fun o => o.isSome = !ks.isEmpty) owner? := by
  intro c hc
  refine .ok hc rfl ?_
  rw [← hc.kinds]
  cases c.pending <;> rfl

/-- The innermost statement may change in everything but its kind. -/
theorem amend {f : Pending → Pending} (hf : ∀ p, (f p).kind = p.kind) :
    Steady W n ks (fun _ => True) (amend f) := by
  rintro ⟨tokens, lastLine, pending⟩ hc
  cases pending with
  | nil => exact .ok hc rfl trivial
  | cons p ps =>
    refine .ok (hc.withPending ?_) rfl trivial
    rw [← hc.kinds, List.map_cons, List.map_cons, hf]

/-- A statement that waits while its block is read is there when the block has ended. -/
theorem awaited {kind : Compound} {body : Reading α} {f : α → Option Pending → Reading β}
    (hbody : Steady W n (kind :: ks) P body) (hf : ∀ a p, P a → Steady W n ks R (f a (some p))) :
    Steady W n ks R (await kind >>= fun _ => body >>= fun a => settle? >>= fun o => f a o) := by
  intro c hc
  rw [bind_of_ok (await_apply kind)]
  have hends := hbody (c.withPending (.new kind :: c.pending))
    (hc.withPending (by rw [List.map_cons, hc.kinds]; rfl))
  cases hr : body (c.withPending (.new kind :: c.pending)) with
  | error e =>
    rw [hr] at hends
    rw [bind_of_error hr]
    cases hends with
    | error he => exact .error he
  | ok x =>
    obtain ⟨a, c'⟩ := x
    rw [hr] at hends
    rw [bind_of_ok hr]
    cases hends with
    | ok hc' htail ha =>
      -- the statement still waits, since the kinds of those that wait are known
      obtain ⟨p, qs, hpending⟩ : ∃ p qs, c'.pending = p :: qs := by
        refine List.exists_cons_of_ne_nil fun hnil => ?_
        have hkinds := hc'.kinds
        rw [hnil] at hkinds
        cases hkinds
      have hrest : qs = c.pending := by
        rw [hpending] at htail
        exact htail
      rw [bind_of_ok (settle?_of_cons hpending)]
      have hend := hf a p ha (c'.withPending qs) (hc'.withPending (hrest ▸ hc.kinds))
      exact hend.trans (congrArg List.tail hrest)

/-- Tokens that are passed over are a suffix less, so nothing new comes up. -/
theorem dropWhile (p : Token → Bool) : Steady W n ks (fun _ => True)
    (modify fun c => { c with tokens := c.tokens.dropWhile p } : Reading Unit) :=
  fun _ hc => .ok (hc.moveTo (List.dropWhile_suffix p)) rfl trivial

theorem lift {x : Except SyntaxError α} (hx : ∀ e, x = .error e → W.Due e) :
    Steady W n ks (fun _ => True) (StateT.lift x) := by
  intro c hc
  cases x with
  | error e => exact .error (hx e rfl)
  | ok a => exact .ok hc rfl trivial

end Steady

end Reading

open Reading

/-- The same for all readings of a level that the rules use. -/
structure Level.Watched (W : Watch) (n : ℕ∞) (l : Level) : Prop where
  expression : ∀ ks power, Steady W n ks W.FitIfAny (l.expression power)
  block : ∀ ks nested, Steady W n ks (fun _ => True) (l.block nested)
  attributeText : ∀ text line, W.Text text → W.Told line → ∀ e,
    l.attributeText text line = .error e → W.Due e

variable {W : Watch} {n : ℕ∞} {ks : List Compound} {l : Level} {t : Token}

/-! ## The comparison -/

/-- A node is related to itself, and a string in an expression is one of the known tokens. -/
def Watch.likeness (W : Watch) : Likeness where
  toWatch := W
  Text := W.Text
  below p x y := x = y ∧ (p = .operand → W.Fit x)
  here p x y := x = y ∧ (p = .operand → W.Fit x)
  text_of_known ht hkind := ⟨_, ht, hkind, rfl⟩
  lift h := h
  test h := ⟨h.1, nofun⟩
  formed h := by
    refine ⟨Node.eq_of_formed And.left And.left h, fun hp => ?_⟩
    cases h with
    | leaf htext _ => exact fun s hs => htext s (Node.leaf.inj hs)
    | line => cases hp
    | child => cases hp
    | block => cases hp
    | text => cases hp
    | _ => exact fit_of_ne fun _ => nofun
  kindName h := h.1 ▸ rfl
  leaf h l := by rw [h.1]

/-- What an expression leaves fits if it is related to anything. -/
theorem Watch.fitIfAny_of_rel {o o' : Option Node}
    (h : Option.Rel (W.likeness.here .operand) o o') : W.FitIfAny o := by
  rintro x rfl
  cases h with
  | some hx => exact hx.2 rfl

/-- To be steady is a comparison of every reading with itself. It is told of the statements that
wait whether there are any, and a level is asked behind a token, when fewer are left. -/
def Level.Watched.comparison (h : l.Watched W n) :
    Comparison W.likeness (fun _ : Unit => l) fun _ => l where
  rel k w _ _ R r _ := ∀ ks, (w = true → ks ≠ []) →
    Steady W (bif k then n else n + 1) ks (fun a => ∃ b, R a b) (r ())
  pure hab _ _ := .pure ⟨_, hab⟩
  bind hr hf ks hks := (hr ks hks).bind fun a ⟨b, hab⟩ => hf a b hab ks hks
  failAt hdue _ _ := fun _ _ => .error hdue
  look hf ks hks := .get fun d hd => hf d d.pending ⟨rfl, hd.known, hd.line⟩ ks hks
  take {k} _ _ _ _ _ _ hf ks hks := by
    cases k with
    | true => exact .bind .advance fun t ht => hf t ht ks hks
    | false => exact .step fun t ht => hf t ht ks hks
  pass p _ _ := .mono (.dropWhile p) fun u _ => ⟨u, rfl⟩
  owner hnone hsome ks hks := .bind .owner fun o ho => by
    cases o with
    | none => exact hnone ks hks
    | some p =>
      refine hsome p p rfl rfl ks fun _ hnil => ?_
      rw [hnil] at ho
      cases ho
  still hthere ks hks := .bind .owner fun o ho => by
    -- the statement that has waited for the word waits until its block has ended
    have hsome : ¬o.isNone = true := by
      rw [← Option.not_isSome, ho]
      simp [hks rfl]
    simp only [if_neg hsome]
    exact hthere ks hks
  mark _ _ := .mono (.amend fun _ => rfl) fun u _ => ⟨u, rfl⟩
  record _ _ _ := .mono (.amend fun _ => rfl) fun u _ => ⟨u, rfl⟩
  awaited _ _ hnext ks hks := .awaited (h.block _ true) fun body p _ =>
    hnext body body p p ⟨rfl, nofun⟩
      (branches_self (fun _ => ⟨rfl, nofun⟩) (fun _ => ⟨rfl, nofun⟩) p.branches) ks hks
  expression power ks _ := .mono (h.expression ks power) fun o ho =>
    ⟨o, rel_self fun x hx => ⟨rfl, fun _ => ho x hx⟩⟩
  block nested ks _ := .mono (h.block ks nested) fun x _ => ⟨x, rfl, nofun⟩
  attributeText hn hline ks _ :=
    .mono (.lift (h.attributeText _ _ (hn.2 rfl _ rfl) hline)) fun x _ => ⟨x, rfl, nofun⟩
  power _ := ⟨_, fun _ => ⟨rfl, rfl⟩⟩
  resolve hn := ⟨_, _, ⟨congrArg _ hn.1, nofun⟩, fun _ => ⟨rfl, rfl⟩⟩

/-- A line of a watched level is steady, since the level is compared with itself. -/
theorem Level.Watched.content (h : l.Watched W n) (mode : OutputMode) :
    Steady W (n + 1) ks (fun _ => True) (l.content mode) :=
  (h.comparison.content (k := false) (w := false) mode ks nofun).mono fun _ _ => trivial

/-- A block of a watched level leaves the statements that wait around it as they were. -/
theorem Level.Watched.blockOf (h : l.Watched W n) (nested : Bool) :
    Steady W (n + 1) ks (fun _ => True) (l.blockOf nested) :=
  (h.comparison.blockOf (k := false) (w := false) nested ks nofun).mono fun _ _ => trivial

/-! ## Grammars -/

namespace Grammar

/-- The rules of a grammar keep what is watched if the levels do that they read with. -/
structure Watched (W : Watch) (g : Grammar) : Prop where
  opening : ∀ {n l ks t rule}, g.opening? t = some rule → l.Watched W n → W.Known t →
    Steady W n ks W.FitIfAny (rule l t)
  joining : ∀ {n l ks t rule left}, g.joining? t = some rule → l.Watched W n → W.Known t →
    W.Fit left → Steady W n ks W.Fit (rule l t left)

/-- The rules of the standard grammar keep whatever is watched. -/
theorem HasStandardRules.watched {g : Grammar} (hg : g.HasStandardRules) (W : Watch) :
    g.Watched W where
  opening {n l ks t rule} hrule h ht :=
    (h.comparison.opening (w := false) (hg.opening hrule) ht ks nofun).mono fun _ ⟨_, ho⟩ =>
      W.fitIfAny_of_rel ho
  joining {n l ks t rule left} hrule h ht hleft := by
    obtain ⟨text, hr⟩ := hg.joining hrule
    have hsame : W.likeness.here .operand left left := ⟨rfl, fun _ => hleft⟩
    exact (h.comparison.joins (w := false) hr ht hsame ks nofun).mono fun _ ⟨_, hx⟩ => hx.2 rfl

variable {g : Grammar} (hg : g.Watched W) (h : l.Watched W n)
include hg h

/-- Whatever the rules of the grammar are, they compare if they keep what is watched. -/
theorem Watched.grammars : h.comparison.Grammars g g where
  power _ := rfl
  opening {t} ht := rel_self fun rule hrule => fun {w} ks _ =>
    (hg.opening hrule h ht).mono fun o ho =>
      ⟨o, rel_self fun x hx => ⟨rfl, fun _ => ho x hx⟩⟩
  joining {t} ht := rel_self fun rule hrule => fun {w n n'} hn ks _ => by
    obtain rfl := hn.1
    exact (hg.joining hrule h ht (hn.2 rfl)).mono fun x hx => ⟨x, rfl, fun _ => hx⟩

/-- An expression of a watched level fits, if there is one: a string in it was a token. -/
theorem expressionOf_steady (power : Nat) :
    Steady W (n + 1) ks W.FitIfAny (g.expressionOf l power) :=
  ((hg.grammars h).expressionOf (k := false) (w := false) power ks nofun).mono fun _ ⟨_, ho⟩ =>
    W.fitIfAny_of_rel ho

end Grammar

/-! ## Levels and templates -/

namespace Watch

/-- The tokens of a text, all of them known. -/
theorem at_ofTokens {ts : List Token} (hts : ∀ t ∈ ts, W.Known t)
    (hlast : W.Told (Cursor.ofTokens ts).lastLine)
    (hlength : ((Cursor.ofTokens ts).tokens.length : ℕ∞) < n) : W.At n [] (Cursor.ofTokens ts) :=
  ⟨hlength, fun t ht => hts t ((List.takeWhile_prefix _).subset ht), hlast, rfl⟩

end Watch

namespace Dialect

variable {d : Dialect} {A : String → Nat → Except SyntaxError Node}

section Levels

variable (hd : d.grammar.Watched W)
variable (hA : ∀ text line, W.Text text → W.Told line → ∀ e, A text line = .error e → W.Due e)
include hd hA

/-- One level more allows one token more. -/
theorem levels_succ_watched {k : Nat} (h : (d.levels A k).Watched W n) :
    (d.levels A (k + 1)).Watched W (n + 1) where
  expression _ power := Grammar.expressionOf_steady hd h power
  block _ nested := h.blockOf nested
  attributeText := hA

/-- Levels for fewer tokens than there are levels: the lowest one is never reached. -/
theorem levels_watched_of_lt (k : Nat) : (d.levels A k).Watched W k := by
  induction k with
  | zero =>
    have hnone : ∀ ks c, ¬W.At ((0 : Nat) : ℕ∞) ks c := fun _ _ hc => not_lt_zero hc.length
    exact ⟨fun ks _ c hc => absurd hc (hnone ks c), fun ks _ c hc => absurd hc (hnone ks c), hA⟩
  | succ k ih =>
    rw [Nat.cast_succ]
    exact levels_succ_watched hd hA ih

/-- Levels for any tokens, if it is due that the limit of nesting is reached. -/
theorem levels_watched (hdeep : ∀ line, W.Told line → W.Due ⟨line, .tooDeep d.maxDepth⟩)
    (k : Nat) : (d.levels A k).Watched W ⊤ := by
  induction k with
  | zero =>
    exact ⟨fun _ _ _ hc => .error (hdeep _ hc.line), fun _ _ _ hc => .error (hdeep _ hc.line), hA⟩
  | succ k ih => exact levels_succ_watched (n := ⊤) hd hA ih

end Levels

/-- An error of a string in an attribute is one of its tokens or of its content. -/
theorem reread_eq_error {text : String} {line : Nat} {e : SyntaxError}
    (h : d.reread A text line = .error e) :
    Lexer.tokenizeFrom d.grammar.vocabulary text line = .error e ∨
      ∃ ts, Lexer.tokenizeFrom d.grammar.vocabulary text line = .ok ts ∧
        (d.levels A d.maxDepth).content .attribute (Cursor.ofTokens ts) = .error e := by
  rw [reread] at h
  cases htokens : Lexer.tokenizeFrom d.grammar.vocabulary text line with
  | error e' =>
    rw [htokens] at h
    cases h
    exact Or.inl rfl
  | ok ts =>
    rw [htokens] at h
    refine Or.inr ⟨ts, rfl, ?_⟩
    cases hcontent : (d.levels A d.maxDepth).content .attribute (Cursor.ofTokens ts) with
    | error e' =>
      simp only [bind, Except.bind, hcontent, Except.error.injEq] at h
      rw [h]
    | ok r => simp [bind, Except.bind, hcontent, pure, Except.pure] at h

/-- An error of a source is one of its tokens or of its blocks. -/
theorem parseSource_eq_error {source : String} {e : SyntaxError}
    (h : d.parseSource source = .error e) :
    Lexer.tokenize d.grammar.vocabulary source = .error e ∨
      ∃ ts, Lexer.tokenize d.grammar.vocabulary source = .ok ts ∧
        (d.top ts).block false (Cursor.ofTokens ts) = .error e := by
  rw [parseSource] at h
  cases htokens : Lexer.tokenize d.grammar.vocabulary source with
  | error e' =>
    rw [htokens] at h
    cases h
    exact Or.inl rfl
  | ok ts =>
    rw [htokens] at h
    change d.parse ts = .error e at h
    refine Or.inr ⟨ts, rfl, ?_⟩
    rw [parse, read] at h
    cases hblock : (d.top ts).block false (Cursor.ofTokens ts) with
    | error e' =>
      rw [hblock] at h
      cases h
      rfl
    | ok r =>
      rw [hblock] at h
      cases h

/-- What a watch has to know of a dialect: its rules, the division of texts into tokens, and that
the limit of nesting may be told. -/
structure Watched (W : Watch) (d : Dialect) : Prop where
  rules : d.grammar.Watched W
  tokens : ∀ text line, W.Text text → W.Told line → ∀ ts,
    Lexer.tokenizeFrom d.grammar.vocabulary text line = .ok ts → ∀ t ∈ ts, W.Known t
  lexical : ∀ text line, W.Text text → W.Told line → ∀ e,
    Lexer.tokenizeFrom d.grammar.vocabulary text line = .error e → W.Due e
  deep : ∀ line, W.Told line → W.Due ⟨line, .tooDeep d.maxDepth⟩

namespace Watched

variable (hd : d.Watched W)
include hd

/-- Every error of a string in an attribute is due. -/
theorem attributeText (budget : Nat) : ∀ text line, W.Text text → W.Told line → ∀ e,
    d.attributeText budget text line = .error e → W.Due e := by
  induction budget with
  | zero => exact fun _ _ _ _ _ h => nomatch h
  | succ budget ih =>
    intro text line htext hline e h
    rcases reread_eq_error h with htokens | ⟨ts, htokens, hcontent⟩
    · exact hd.lexical text line htext hline e htokens
    · have hts := hd.tokens text line htext hline ts htokens
      have hstart : W.At ⊤ [] (Cursor.ofTokens ts) := Watch.at_ofTokens hts
        (Watch.told_lastLine hts (Lexer.exists_stop htokens)) (ENat.natCast_lt_top _)
      have hlevels := levels_watched hd.rules ih hd.deep d.maxDepth
      have hends : Ends W _ [] _ _ _ := hlevels.content .attribute _ hstart
      rw [hcontent] at hends
      cases hends with
      | error he => exact he

/-- **Every error of known tokens is due.** -/
theorem block {ts : List Token} (hts : ∀ t ∈ ts, W.Known t)
    (hlast : W.Told (Cursor.ofTokens ts).lastLine) {e : SyntaxError}
    (h : (d.top ts).block false (Cursor.ofTokens ts) = .error e) : W.Due e := by
  have hlevels := levels_watched hd.rules (hd.attributeText (longestText ts + 1)) hd.deep d.maxDepth
  have hends := hlevels.block [] false _ (Watch.at_ofTokens hts hlast (ENat.natCast_lt_top _))
  rw [top] at h
  rw [h] at hends
  cases hends with
  | error he => exact he

/-- Every error of a source is due, if its tokens are known. -/
theorem parseSource {source : String} {e : SyntaxError}
    (htokens : ∀ ts, Lexer.tokenize d.grammar.vocabulary source = .ok ts → ∀ t ∈ ts, W.Known t)
    (hlexical : ∀ e, Lexer.tokenize d.grammar.vocabulary source = .error e → W.Due e)
    (h : d.parseSource source = .error e) : W.Due e := by
  rcases parseSource_eq_error h with herror | ⟨ts, hok, hblock⟩
  · exact hlexical e herror
  · have hts := htokens ts hok
    exact hd.block hts (Watch.told_lastLine hts (Lexer.exists_stop hok)) hblock

end Watched

end Dialect

end Stencil
