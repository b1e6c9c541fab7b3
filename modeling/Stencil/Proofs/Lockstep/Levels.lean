import Stencil.Proofs.Lexing
import Stencil.Proofs.Lockstep.Rules
import Stencil.Proofs.Refinement
/-!
# Levels in lockstep

All levels of a dialect keep step with higher levels of the standard dialect, if the rules for
elements do. Strings in attributes are read alike, since the tokens of a string are the same in
every line.
-/

namespace Stencil

open Reading

namespace Grammar

/-! ## Other rules for elements -/

/-- The standard grammar with other rules for `elem` and `elex`. -/
def withElements (onElem onElex : PrefixRule) : Grammar :=
  (standardWith onElem).add ⟨"elex", 0, some onElex, none⟩

variable {onElem onElex : PrefixRule} {t u : Token}

/-- The table is the standard one with two rules exchanged. -/
theorem symbols_withElements : (withElements onElem onElex).symbols =
    Table.insert (entries onElem) "elex" ⟨.keyword, 0, some onElex, none⟩ :=
  (rfl)

/-- Other rules do not make other words. -/
theorem vocabulary_withElements : (withElements onElem onElex).vocabulary = .standard := by
  rw [withElements, vocabulary_add, vocabulary_standardWith]
  rw [vocabulary_standardWith]
  rfl

/-- With its own rule for `elex` the grammar is the standard one but for `elem`. -/
theorem withElements_elementText :
    withElements onElem Statement.elementText = standardWith onElem := by
  refine eq_of_parts (vocabulary_withElements.trans vocabulary_standardWith.symm) ?_
  rw [symbols_withElements, symbols_standardWith]
  rfl

/-- All other words have their standard rules. -/
theorem symbol?_withElements (h : t.text ≠ "elex") :
    (withElements onElem onElex).symbol? t = (standardWith onElem).symbol? t := by
  cases hk : t.kind.isWord with
  | false => rw [symbol?_of_not_isWord hk, symbol?_of_not_isWord hk]
  | true =>
    have hsame : Table.get? (withElements onElem onElex).symbols t.text =
        Table.get? (entries onElem) t.text := by
      rw [symbols_withElements]
      exact Table.get?_insert_of_ne _ _ h.symm
    rw [symbol?_of_isWord hk, ← hsame, symbol?]
    split <;> simp_all [TokenKind.isWord]

/-- The word `elex` has the rule that has been given to it. -/
theorem symbol?_elex (h : t.text = "elex") (hk : t.kind.isWord = true) :
    (withElements onElem onElex).symbol? t = some ⟨.keyword, 0, some onElex, none⟩ := by
  have hself : Table.get? (withElements onElem onElex).symbols t.text =
      some ⟨.keyword, 0, some onElex, none⟩ := by
    rw [symbols_withElements, h]
    rfl
  rw [← hself, symbol?]
  split <;> simp_all [TokenKind.isWord]

/-- How strongly words bind is not changed by the rules for elements. -/
theorem power_withElements : (withElements onElem onElex).power t = standard.power t := by
  by_cases h : t.text = "elex"
  · cases hk : t.kind.isWord with
    | false => rw [power, power, symbol?_of_not_isWord hk, symbol?_of_not_isWord hk]
    | true =>
      rw [power, symbol?_elex h hk, power, symbol?_standard hk, h]
      rfl
  · rw [power, symbol?_withElements h, ← power, power_standardWith]

theorem opening?_elex (h : t.text = "elex") (hk : t.kind.isWord = true) :
    (withElements onElem onElex).opening? t = some onElex := by
  rw [opening?, symbol?_elex h hk]
  rfl

/-- A word other than `elex` opens what it opens without it. -/
theorem opening?_withElements (h : t.text ≠ "elex") :
    (withElements onElem onElex).opening? t = (standardWith onElem).opening? t := by
  rw [opening?, opening?, symbol?_withElements h]

/-- No word joins operands in another way. -/
theorem joining?_withElements :
    (withElements onElem onElex).joining? t = (standardWith onElem).joining? t := by
  by_cases h : t.text = "elex"
  · cases hk : t.kind.isWord with
    | false => rw [joining?, joining?, symbol?_of_not_isWord hk, symbol?_of_not_isWord hk]
    | true =>
      rw [joining?, joining?, symbol?_elex h hk, symbol?_of_isWord hk, h]
      rfl
  · rw [joining?, joining?, symbol?_withElements h]

/-- Tokens that are alike are the same word. -/
theorem symbol?_alike {g : Grammar} (h : t.Alike u) : g.symbol? t = g.symbol? u := by
  rw [symbol?, symbol?, h.1, h.2]

/-- Tokens that are alike bind equally. -/
theorem power_alike {g : Grammar} (h : t.Alike u) : g.power t = g.power u := by
  rw [power, power, symbol?_alike h]

end Grammar

namespace Lockstep

variable {S : Lockstep} {ps : List Pending} {n : ℕ × ℕ} {c c' : Cursor} {t u : Token}
variable {l m : Level} {onElem onElex : PrefixRule}

/-- Whether a rule at the start of an expression keeps step with another one. -/
def KeepsStep (S : Lockstep) (onLeft onRight : PrefixRule) : Prop :=
  ∀ ⦃l m : Level⦄ ⦃ps n c c' t u⦄, S.Levels l m → Pending.AllOpen ps → S.Abreast ps n c c' →
    S.Tied (S.Leaves ps n) (onLeft l t) (onRight m u) c c'

section

variable (h : S.Levels l m) (hps : Pending.AllOpen ps) (hc : S.Abreast ps n c c')

include h hps hc

/-! ## Expressions -/

/-- Words but those of elements at the start of an expression. -/
theorem opens_tied {text : String} {rule : PrefixRule} (hr : Grammar.Opens text rule)
    (hcomment : text = "#" → S.Beside (c.tokens.dropWhile fun w => w.kind != .newline)
      (c'.tokens.dropWhile fun w => w.kind != .newline)) (helex : text ≠ "elex") :
    S.Tied (S.Leaves ps n) (rule l t) (rule m u) c c' := by
  cases hr with
  | negation =>
    exact .bind (h.require hps hc.succ 0 _) fun _ _ _ hc₁ =>
      .pure ⟨short_of_ne fun _ => Node.noConfusion, hc₁.2⟩
  | group =>
    refine .bind (h.require hps hc.succ 0 _) fun _ _ _ hc₁ => ?_
    exact .bind (.expect hc₁.2 (by decide) (by decide)) fun _ _ _ hc₂ => .pure ⟨hc₁.1, hc₂⟩
  | array =>
    exact .bind (sequence_tied h hps hc _ _) fun _ _ _ hc₁ =>
      .pure ⟨short_of_ne fun _ => Node.noConfusion, hc₁⟩
  | object =>
    refine .bind (.loop (I := fun _ => True) (R := fun _ => True)
      (fun _ hc => memberTurn_tied h hps hc _) trivial hc) fun _ _ _ hc₁ => ?_
    exact .bind (.expect hc₁.2 (by decide) (by decide)) fun _ _ _ hc₂ =>
      .pure ⟨short_of_ne fun _ => Node.noConfusion, hc₂⟩
  | comment =>
    have hshort : ∀ ts : List Token,
        (ts.dropWhile fun w => w.kind != .newline).length ≤ ts.length :=
      fun ts => (List.dropWhile_suffix _).length_le
    have hpassed : S.Abreast ps n (c.moveTo (c.tokens.dropWhile fun w => w.kind != .newline))
        (c'.moveTo (c'.tokens.dropWhile fun w => w.kind != .newline)) :=
      ⟨hcomment rfl, hc.waiting, Nat.lt_of_le_of_lt (hshort _) hc.length,
        Nat.lt_of_le_of_lt (hshort _) hc.length'⟩
    exact .of_ok (a := none) rfl rfl hpassed.onto
  | choice => exact choice_tied h hps hc
  | branch => exact branch_tied h hps hc
  | loop => exact loop_tied h hps hc
  | render => exact render_tied h hps hc
  | assignment => exact assignment_tied h hps hc
  | elementText => exact absurd rfl helex

/-- A word behind an operand keeps step by its rule. -/
theorem joins_tied {text : String} {rule : InfixRule} (hr : Grammar.Joins text rule)
    (htu : t.Alike u) (left : Node) :
    S.Tied (S.After ps n S.Short) (rule l t left) (rule m u left) c c' := by
  have hlogical : S.Tied (S.After ps n S.Short) (Operation.logical l t left)
      (Operation.logical m u left) c c' := by
    unfold Operation.logical
    rw [h.power htu]
    exact h.binary hps hc htu _ _
  cases hr with
  | conjunction => exact hlogical
  | disjunction => exact hlogical
  | membership =>
    exact .bind (h.require hps hc.succ 0 _) fun _ _ _ hc₁ =>
      .pure ⟨short_of_ne fun _ => Node.noConfusion, hc₁.2⟩
  | conditional => exact conditional_tied h hps hc left
  | attributePair => exact attributePair_tied h hps hc left
  | call =>
    exact .bind (sequence_tied h hps hc _ _) fun _ _ _ hc₁ =>
      .pure ⟨short_of_ne fun _ => Node.noConfusion, hc₁⟩
  | index =>
    refine .bind (h.require hps hc.succ 0 _) fun _ _ _ hc₁ => ?_
    exact .bind (.expect hc₁.2 (by decide) (by decide)) fun _ _ _ hc₂ =>
      .pure ⟨short_of_ne fun _ => Node.noConfusion, hc₂⟩
  | path =>
    exact .bind (.loop (I := fun _ => True) (R := fun _ => True)
      (fun _ hc => segmentTurn_tied hc _) trivial hc) fun _ _ _ hc₁ =>
        .pure ⟨short_of_ne fun _ => Node.noConfusion, hc₁.2⟩
  | filtered =>
    exact .bind (.loop (I := fun _ => True) (R := fun _ => True)
      (fun _ hc => filterTurn_tied hc _) trivial hc) fun _ _ _ hc₁ =>
        .pure ⟨short_of_ne fun _ => Node.noConfusion, hc₁.2⟩

/-- So does a word without a rule, which is an operator. -/
theorem extend_tied (htu : t.Alike u) (left : Node) :
    S.Tied (S.After ps n S.Short) ((Grammar.withElements onElem onElex).extend l t left)
      (Grammar.standard.extend m u left) c c' := by
  have hsame : Grammar.standard.joining? u = (Grammar.withElements onElem onElex).joining? t := by
    rw [Grammar.joining?_withElements, ← Grammar.standardWith_element, Grammar.joining?,
      ← Grammar.symbol?_alike htu, ← Grammar.joining?]
    rcases Grammar.joining?_cases t with ⟨rule, -, hj⟩ | hj
    · rw [hj, hj]
    · rw [hj, hj]
  rcases Grammar.joining?_cases t with ⟨rule, hr, hj⟩ | hj
  · have hleft : (Grammar.withElements onElem onElex).joining? t = some rule :=
      Grammar.joining?_withElements.trans (hj onElem)
    rw [Grammar.extend_of_joining? hleft, Grammar.extend_of_joining? (hsame.trans hleft)]
    exact joins_tied h hps hc hr htu left
  · have hleft : (Grammar.withElements onElem onElex).joining? t = none :=
      Grammar.joining?_withElements.trans (hj onElem)
    rw [Grammar.extend_of_joining?_none hleft, Grammar.extend_of_joining?_none (hsame.trans hleft),
      Grammar.power_withElements, Grammar.power_alike htu]
    exact h.binary hps hc htu left _

end

/-- A leaf is the same for tokens that are alike. -/
theorem leaf_tied (hc : S.Abreast ps n c c') (htu : t.Alike u)
    (hstring : t.kind = .string → t.text.length < S.longest) :
    S.Tied (S.Leaves ps n) (do return some (.leaf (← Level.leaf t)))
      (do return some (.leaf (← Level.leaf u))) c c' := by
  obtain ⟨kind, text, line⟩ := t
  obtain ⟨_, _, line'⟩ := u
  obtain ⟨rfl, rfl⟩ := htu
  have hleaf : S.Tied (fun lf c₁ c₁' => S.Short (.leaf lf) ∧ S.Abreast ps n c₁ c₁')
      (Level.leaf ⟨kind, text, line⟩) (Level.leaf ⟨kind, text, line'⟩) c c' := by
    have hother : ∀ lf : Leaf, (∀ s, lf ≠ .string s) → S.Short (.leaf lf) :=
      fun lf hlf s hs => absurd (Node.leaf.inj hs) (hlf s)
    unfold Level.leaf
    cases kind with
    | string =>
      refine .pure ⟨fun s hs => ?_, hc⟩
      cases hs
      exact hstring rfl
    | number =>
      dsimp only
      cases Number.ofText? text.toList with
      | none => exact .failAt
      | some x => exact .pure ⟨hother _ fun _ => Leaf.noConfusion, hc⟩
    | literal => exact .pure ⟨hother _ fun _ => Leaf.noConfusion, hc⟩
    | trueWord => exact .pure ⟨hother _ fun _ => Leaf.noConfusion, hc⟩
    | falseWord => exact .pure ⟨hother _ fun _ => Leaf.noConfusion, hc⟩
    | nullWord => exact .pure ⟨hother _ fun _ => Leaf.noConfusion, hc⟩
    | _ => exact .failAt
  exact .bind hleaf fun lf c₁ c₁' hlf => .pure hlf

/-- The start of an expression keeps step if the two rules for elements do. -/
theorem start_tied (helem : S.KeepsStep onElem Statement.element)
    (helex : S.KeepsStep onElex Statement.elementText) (h : S.Levels l m)
    (hps : Pending.AllOpen ps) (hc : S.Abreast ps n c c') (htu : t.Alike u)
    (hstring : t.kind = .string → t.text.length < S.longest)
    (hcomment : t.IsSign → S.Beside (c.tokens.dropWhile fun w => w.kind != .newline)
      (c'.tokens.dropWhile fun w => w.kind != .newline)) :
    S.Tied (S.Leaves ps n) ((Grammar.withElements onElem onElex).start l t)
      (Grammar.standard.start m u) c c' := by
  have hright : Grammar.standard.opening? u =
      (Grammar.standardWith Statement.element).opening? t := by
    rw [Grammar.standardWith_element, Grammar.opening?, Grammar.opening?, Grammar.symbol?_alike htu]
  -- the word `elex` has a rule of its own on the left
  by_cases hword : t.text = "elex" ∧ t.kind.isWord = true
  · have hu : Grammar.standard.opening? u = some Statement.elementText := by
      rw [hright, Grammar.opening?, Grammar.symbol?_of_isWord hword.2, hword.1]
      rfl
    rw [Grammar.start_of_opening? (Grammar.opening?_elex hword.1 hword.2),
      Grammar.start_of_opening? hu]
    exact helex h hps hc
  have hleft : (Grammar.withElements onElem onElex).opening? t =
      (Grammar.standardWith onElem).opening? t := by
    by_cases htext : t.text = "elex"
    · have hk : t.kind.isWord = false := by simpa [htext] using hword
      rw [Grammar.opening?, Grammar.opening?, Grammar.symbol?_of_not_isWord hk,
        Grammar.symbol?_of_not_isWord hk]
    · exact Grammar.opening?_withElements htext
  -- any other token: `elem`, a word with a standard rule, or a leaf
  rcases Grammar.opening?_cases t with ⟨-, ho⟩ | ⟨rule, hr, ho⟩ | ho
  · rw [Grammar.start_of_opening? (hleft.trans (ho _)),
      Grammar.start_of_opening? (hright.trans (ho _))]
    exact helem h hps hc
  · have hk : t.kind.isWord = true := Grammar.isWord_of_opening? (ho onElem)
    rw [Grammar.start_of_opening? (hleft.trans (ho _)),
      Grammar.start_of_opening? (hright.trans (ho _))]
    exact opens_tied h hps hc hr (fun htext => hcomment ⟨hk, htext⟩) fun htext => hword ⟨htext, hk⟩
  · rw [Grammar.start_of_opening?_none (hleft.trans (ho _)),
      Grammar.start_of_opening?_none (hright.trans (ho _))]
    exact leaf_tied hc htu hstring

/-- A mark binds nothing. -/
theorem power_mark (h : t.text = "@") : Grammar.standard.power t = 0 :=
  Grammar.power_of_get?_none (by rw [h]; rfl)

/-- A turn behind an operand ends for both readings or for neither. -/
theorem extendTurn_tied (h : S.Levels l m) {I : Option Node → Prop}
    (hI : ∀ x y, I (some x) → S.Short y → I (some y))
    (hps : ∀ x, I (some x) → Pending.AllOpen ps) (hc : S.Abreast ps (n + 1) c c') (power : Nat)
    {o : Option Node} (ho : I o) :
    S.Tied (fun x c₁ c₁' => Sum.elim (fun o => I o ∧ S.Abreast ps n c₁ c₁')
        (fun o => I o ∧ S.Abreast ps (n + 1) c₁ c₁') x)
      ((Grammar.withElements onElem onElex).extendTurn l power o)
      (Grammar.standard.extendTurn m power o) c c' := by
  have hheads := hc.heads
  refine .get ?_
  cases ht : c.tokens with
  | nil =>
    cases hu : c'.tokens with
    | nil => exact .pure ⟨ho, hc⟩
    | cons u us =>
      rw [ht, hu] at hheads
      cases hheads
  | cons t rest =>
    cases hu : c'.tokens with
    | nil =>
      rw [ht, hu] at hheads
      cases hheads
    | cons u rest' =>
      rw [ht, hu] at hheads
      dsimp only
      rw [Grammar.power_withElements]
      cases hheads with
      -- the power of the word decides, and it is the same on both sides
      | word halike _ hbeside =>
        refine .ite (by rw [Grammar.power_alike halike, halike.1]) (fun _ _ => ?_)
          fun _ _ => .pure ⟨ho, hc⟩
        refine .after (advance_of_cons ht) (advance_of_cons hu) ?_
        cases o with
        | none =>
          rw [halike.2]
          exact .failAt
        | some x =>
          exact .bind (extend_tied h (hps x ho) (hc.next ht hu hbeside) halike x)
            fun y c₁ c₁' hy => .pure ⟨hI x y ho hy.1, hy.2⟩
      | line halike hline =>
        have hline' : u.kind = .newline := halike.1.symm.trans hline
        simp only [hline, hline', bne_self_eq_false, Bool.false_and, Bool.false_eq_true, if_false]
        exact .pure ⟨ho, hc⟩
      -- the first reading is at its last line end and the second one at a mark; neither goes on
      | tail hline hmark htext =>
        simp only [hline, power_mark htext, bne_self_eq_false, Bool.false_and, Nat.not_lt_zero,
          decide_false, Bool.and_false, Bool.false_eq_true, if_false]
        exact .pure ⟨ho, hc⟩

/-- No expression begins with the end of a line. -/
theorem expressionOf_newline (g : Grammar) (l : Level) (power : Nat) {rest : List Token}
    (ht : c.tokens = t :: rest) (hline : t.kind = .newline) :
    g.expressionOf l power c = .error ⟨t.line, .unexpected .newline t.text⟩ := by
  have hnone : g.opening? t = none := by
    rw [Grammar.opening?, Grammar.symbol?_of_not_isWord (by rw [hline]; rfl)]
    rfl
  have hleaf : Level.leaf t (c.moveTo rest) = .error ⟨t.line, .unexpected .newline t.text⟩ := by
    unfold Level.leaf
    rw [hline]
    rfl
  have hstart : g.start l t (c.moveTo rest) = .error ⟨t.line, .unexpected .newline t.text⟩ := by
    rw [Grammar.start_of_opening?_none hnone]
    exact bind_of_error hleaf
  rw [Grammar.expressionOf, bind_of_ok (advance_of_cons ht)]
  exact bind_of_error hstart

/-- An expression keeps step from its first token on. -/
theorem expressionOf_tied (helem : S.KeepsStep onElem Statement.element)
    (helex : S.KeepsStep onElex Statement.elementText) (h : S.Levels l m)
    (hps : Pending.AllOpen ps) (hc : S.Abreast ps (n + 1) c c') (power : Nat) :
    S.Tied (S.Leaves ps n) ((Grammar.withElements onElem onElex).expressionOf l power)
      (Grammar.standard.expressionOf m power) c c' := by
  have hheads := hc.heads
  cases ht : c.tokens with
  | nil =>
    cases hu : c'.tokens with
    | cons u us =>
      rw [ht, hu] at hheads
      cases hheads
    | nil =>
      refine .advance hc (by simp [ht]) fun t _ _ _ htok => ?_
      rw [ht] at htok
      cases htok
  | cons t rest =>
    cases hu : c'.tokens with
    | nil =>
      rw [ht, hu] at hheads
      cases hheads
    | cons u rest' =>
      have hbeside := hc.beside
      rw [ht, hu] at hheads hbeside
      cases hheads with
      | line halike hline =>
        have hright := expressionOf_newline .standard m power hu (halike.1.symm.trans hline)
        exact .of_error (expressionOf_newline _ l power ht hline) hright (by rw [halike.2])
      | tail hline _ _ hall => exact .of_excused (expressionOf_newline _ l power ht hline) (hall _)
      | word halike _ hrest =>
        have hnext := hc.next ht hu hrest
        refine .after (advance_of_cons ht) (advance_of_cons hu) ?_
        refine .bind (start_tied helem helex h hps hnext halike (S.strings hbeside)
          (S.comment hbeside)) fun o c₁ c₁' ho => ?_
        cases o with
        -- an operand has been read, so that the invariant of the loop is that there is one
        | some x =>
          refine (Tied.loop (I := fun o => ∃ y, o = some y ∧ S.Short y)
            (R := fun o => ∃ y, o = some y ∧ S.Short y) (fun hs hc => extendTurn_tied h ?_ ?_ hc
              power hs) ⟨x, rfl, ho.1⟩ ho.2).mono ?_
          · exact fun _ y _ hy => ⟨y, rfl, hy⟩
          · exact fun _ _ => hps
          · rintro _ c₂ c₂' ⟨⟨y, rfl, hy⟩, hc₂⟩
            exact ⟨hy, hc₂⟩
        -- nothing has been read, and nothing is extended
        | none =>
          obtain ⟨qs, hqs, hc₁⟩ := ho
          refine (Tied.loop (I := fun o => o = none) (R := fun o => o = none)
            (fun hs hc => extendTurn_tied h ?_ ?_ hc power hs) rfl hc₁).mono ?_
          · exact fun _ _ hx => absurd hx (by simp)
          · exact fun _ hx => absurd hx (by simp)
          · rintro _ c₂ c₂' ⟨rfl, hc₂⟩
            exact ⟨qs, hqs, hc₂⟩

/-! ## Strings in attributes -/

/-- Tokens that are alike are passed over together. -/
theorem forall₂_dropWhile {p : Token → Bool} (hp : ∀ {t u : Token}, t.Alike u → p t = p u)
    {ts us : List Token} (h : List.Forall₂ Token.Alike ts us) :
    List.Forall₂ Token.Alike (ts.dropWhile p) (us.dropWhile p) := by
  induction h with
  | nil => exact .nil
  | cons hhead htail ih =>
    rw [List.dropWhile_cons, List.dropWhile_cons, hp hhead]
    split
    · exact ih
    · exact .cons hhead htail

/-- The same words in the same order, with strings shorter than `longest`. -/
def same (Excused : SyntaxError → Prop) (longest : Nat) : Lockstep where
  Beside ts us := List.Forall₂ Token.Alike ts us ∧
    ∀ t ∈ ts, t.kind = .string → t.text.length < longest
  Excused := Excused
  around := []
  longest := longest
  ends := true
  fenced := false
  heads := by
    rintro ts us ⟨h, hstrings⟩
    cases h with
    | nil => exact .done
    | @cons t u ts us hhead htail =>
      by_cases hline : t.kind = .newline
      · exact .line hhead hline
      · exact .word hhead hline ⟨htail, fun v hv => hstrings v (List.mem_cons_of_mem _ hv)⟩
  strings := fun h hstring => h.2 _ List.mem_cons_self hstring
  comment := by
    rintro t u ts us ⟨h, hstrings⟩ -
    cases h with
    | cons hhead htail =>
      refine ⟨forall₂_dropWhile (fun h => by rw [h.1]) htail, fun v hv => hstrings v ?_⟩
      exact List.mem_cons_of_mem _ ((List.dropWhile_suffix _).subset hv)
  resumes := by
    rintro ts us ⟨h, hstrings⟩
    refine .level ⟨forall₂_dropWhile (fun h => by rw [h.1]) h, fun v hv => hstrings v ?_⟩
    exact (List.dropWhile_suffix _).subset hv
  around_open := open_of_none
  excused_of_around := excused_of_none
  fenced_of_ends := by simp

/-! ## Dialects -/

/-- The levels of the standard dialect but the lowest one read comments. -/
theorem passesComments_succ {d : Dialect} (hd : d.grammar = .standard)
    {A : String → Nat → Except SyntaxError Node} (k : Nat) :
    PassesComments (d.levels A (k + 1)) := by
  intro c u v words rest htok hu hsign hwords hv
  have hopens : Grammar.standard.opening? u = some Statement.comment := by
    rw [Grammar.opening?, Grammar.symbol?_standard (by rw [hu]; rfl), hsign]
    rfl
  have hpassed : (words ++ v :: rest).dropWhile (fun t => t.kind != .newline) = v :: rest := by
    rw [List.dropWhile_append_of_pos (fun w hw => by simpa using hwords w hw)]
    simp [hv]
  have hstart : Grammar.standard.start (d.levels A k) u (c.moveTo (words ++ v :: rest)) =
      .ok (none, c.moveTo (v :: rest)) := by
    rw [Grammar.start_of_opening? hopens]
    change Except.ok (none, (c.moveTo (words ++ v :: rest)).moveTo
      ((words ++ v :: rest).dropWhile fun t => t.kind != .newline)) = _
    rw [hpassed]
    rfl
  have hturn : Grammar.standard.extendTurn (d.levels A k) 0 none (c.moveTo (v :: rest)) =
      .ok (.inr none, c.moveTo (v :: rest)) := by
    rw [Grammar.extendTurn, get_bind_apply]
    simp only [Cursor.moveTo_tokens, hv, bne_self_eq_false, Bool.false_and, Bool.false_eq_true,
      if_false]
    rfl
  change d.grammar.expressionOf (d.levels A k) 0 c = _
  rw [hd, Grammar.expressionOf, bind_of_ok (advance_of_cons htok), bind_of_ok hstart]
  exact loop_stop hturn

/-- **The levels of a dialect keep step** with those of the standard dialect that are at the same
height, or with higher ones where nothing is said once the nesting is too deep, if its rules for
elements do and strings in attributes are read alike. Only the lowest level does not pass comments,
as fenced readings have to. -/
theorem levels_tied {d d' : Dialect} (hg : d.grammar = .withElements onElem onElex)
    (hg' : d'.grammar = .standard) (hm : d'.modifier? = d.modifier?)
    (helem : S.KeepsStep onElem Statement.element)
    (helex : S.KeepsStep onElex Statement.elementText) {extra : Nat}
    (hheight : extra = 0 ∧ d'.maxDepth = d.maxDepth ∨
      ∀ line, S.Excused ⟨line, .tooDeep d.maxDepth⟩)
    (hextra : S.fenced = true → 0 < extra)
    {A A' : String → Nat → Except SyntaxError Node}
    (hA : ∀ {text} line line', text.length < S.longest →
      Agree S.Excused Eq (A text line) (A' text line')) (k : Nat) :
    S.Levels (d.levels A k) (d'.levels A' (extra + k)) := by
  -- what does not depend on the height is the same at every level
  have hlevels : ∀ k,
      (∀ power {ps n c c'}, Pending.AllOpen ps → S.Abreast ps (n + 1) c c' →
        S.Tied (S.Leaves ps n) ((d.levels A k).expression power)
          ((d'.levels A' (extra + k)).expression power) c c') →
      (∀ {ps n c c'}, Pending.AllOpen ps → S.Abreast ps n c c' →
        S.Tied (fun _ => S.Onto ps n) ((d.levels A k).block true)
          ((d'.levels A' (extra + k)).block true) c c') →
        S.Levels (d.levels A k) (d'.levels A' (extra + k)) := by
    refine fun k hexpr hblock => ⟨hexpr, hblock, ?_, ?_, ?_⟩
    · rw [Dialect.attributeText_levels, Dialect.attributeText_levels]
      exact hA
    · intro t u htu
      rw [Dialect.power_levels, Dialect.power_levels, hg, hg', Grammar.power_withElements,
        Grammar.power_alike htu]
    · rw [Dialect.modifier?_levels, Dialect.modifier?_levels, hm]
  induction k with
  | zero =>
    rcases hheight with ⟨rfl, hsame⟩ | hdeep
    -- of equal height, both readings have come to their limit
    · have hfails : ∀ (β : Type) {P : β → Cursor → Cursor → Prop} {c c' : Cursor},
          S.Tied P (Reading.fail (.tooDeep d.maxDepth)) (Reading.fail (.tooDeep d'.maxDepth))
            c c' :=
        fun β P c c' => by
          rw [hsame]
          exact .fail
      exact hlevels 0 (fun _ _ _ _ _ _ _ => hfails _) fun _ _ => hfails _
    -- or else only the first one has, and this error is excused
    · refine hlevels 0 (fun power ps n c c' _ _ => ?_) fun {_ _ c c'} _ _ => ?_
      · exact .of_excused (e := ⟨c.line, .tooDeep d.maxDepth⟩) rfl (hdeep _)
      · exact .of_excused (e := ⟨c.line, .tooDeep d.maxDepth⟩) rfl (hdeep _)
  | succ k ih =>
    refine hlevels (k + 1) (fun power ps n c c' hps hc => ?_) fun hps hc => ?_
    · change S.Tied _ (d.grammar.expressionOf _ power) (d'.grammar.expressionOf _ power) c c'
      rw [hg, hg']
      exact expressionOf_tied helem helex ih hps hc power
    · refine blockOf_tied ih hps (fun hfenced => ?_) (Or.inl rfl) hc.resuming
      -- a fenced reading needs a level more for the comments between the lines
      obtain ⟨j, hj⟩ : ∃ j, extra + k = j + 1 := ⟨extra + k - 1, by have := hextra hfenced; omega⟩
      rw [hj]
      exact passesComments_succ hg' _

/-- At the same height nothing but words in other lines can be told apart. -/
theorem same_levels {d d' : Dialect} {E : SyntaxError → Prop} {longest : Nat}
    (hg : d.grammar = .withElements onElem onElex) (hg' : d'.grammar = .standard)
    (hm : d'.modifier? = d.modifier?) (hdepth : d'.maxDepth = d.maxDepth)
    (helem : (same E longest).KeepsStep onElem Statement.element)
    (helex : (same E longest).KeepsStep onElex Statement.elementText)
    {A A' : String → Nat → Except SyntaxError Node}
    (hA : ∀ text line line', text.length < longest → Agree E Eq (A text line) (A' text line'))
    (k : Nat) : (same E longest).Levels (d.levels A k) (d'.levels A' k) := by
  have hlevels := levels_tied hg hg' hm helem helex (Or.inl ⟨rfl, hdepth⟩)
    (fun hfenced => absurd hfenced Bool.false_ne_true) (fun {text} => hA text) k
  rwa [Nat.zero_add] at hlevels

/-! ## Tokens of a text in other lines -/

end Lockstep

namespace Lexer

variable {v : Vocabulary}

open Lockstep

/-- The number of a line is part of its tokens and of its error, and of nothing else. -/
theorem line_agree (number number' : Nat) (text : List Char) :
    Agree (fun _ => False) (List.Forall₂ Token.Alike) (line v number text)
      (line v number' text) := by
  unfold line
  dsimp only
  split
  · exact .ok .nil
  · split
    · exact .error rfl
    · refine .ok (List.rel_append ?_ (.cons ⟨rfl, rfl⟩ .nil))
      rw [List.forall₂_map_left_iff, List.forall₂_map_right_iff]
      exact List.forall₂_same.2 fun x _ => ⟨rfl, rfl⟩

/-- Lines are divided one after the other, with their numbers. -/
theorem lines_cons (number : Nat) (text : List Char) (texts : List (List Char)) :
    lines v number (text :: texts) =
      line v number text >>= fun here => (lines v (number + 1) texts).map (here ++ ·) := by
  rw [lines]
  cases line v number text <;> rfl

/-- So it is for all lines of a text. -/
theorem lines_agree (number number' : Nat) (texts : List (List Char)) :
    Agree (fun _ => False) (List.Forall₂ Token.Alike) (lines v number texts)
      (lines v number' texts) := by
  induction texts generalizing number number' with
  | nil => exact .ok .nil
  | cons text texts ih =>
    rw [lines_cons, lines_cons]
    exact (line_agree number number' text).bind fun here here' hhere =>
      (ih _ _).map fun _ _ hrest => List.rel_append hhere hrest

/-- The words of a text are the same in every line. -/
theorem tokenizeFrom_agree (first first' : Nat) (source : String) :
    Agree (fun _ => False) (List.Forall₂ Token.Alike) (tokenizeFrom v source first)
      (tokenizeFrom v source first') :=
  (lines_agree first first' _).map fun _ _ htokens =>
    List.rel_append htokens (.cons ⟨rfl, rfl⟩ .nil)

end Lexer

namespace Lockstep

/-- Tokens that are alike are kept together. -/
theorem forall₂_takeWhile {p : Token → Bool} (hp : ∀ {t u : Token}, t.Alike u → p t = p u)
    {ts us : List Token} (h : List.Forall₂ Token.Alike ts us) :
    List.Forall₂ Token.Alike (ts.takeWhile p) (us.takeWhile p) := by
  induction h with
  | nil => exact .nil
  | cons hhead htail ih =>
    rw [List.takeWhile_cons, List.takeWhile_cons, hp hhead]
    split
    · exact .cons hhead ih
    · exact .nil

variable {d d' : Dialect} {onElem onElex : PrefixRule} {E : SyntaxError → Prop}

/-- The same words in other lines are abreast from the first one on. -/
theorem abreast_ofTokens {longest : Nat} {ts us : List Token} (h : List.Forall₂ Token.Alike ts us)
    (hstrings : ∀ t ∈ ts, t.kind = .string → t.text.length < longest) :
    (same E longest).Abreast [] (ts.length + 1, us.length + 1) (Cursor.ofTokens ts)
      (Cursor.ofTokens us) where
  beside := ⟨forall₂_takeWhile (fun h => by rw [h.1]) h,
    fun t ht => hstrings t ((List.takeWhile_prefix _).subset ht)⟩
  waiting := ⟨[], .refl [], rfl, rfl⟩
  length := Nat.lt_succ_of_le (List.takeWhile_prefix _).length_le
  length' := Nat.lt_succ_of_le (List.takeWhile_prefix _).length_le

/-- The same words in other lines are the same template, for levels that keep step. -/
theorem blockOf_agree {longest : Nat} {ts us : List Token} (h : List.Forall₂ Token.Alike ts us)
    (hstrings : ∀ t ∈ ts, t.kind = .string → t.text.length < longest) {l m : Level}
    (hlevels : (same E longest).Levels l m) (hE : ∃ e, ¬E e) :
    Agree E Eq ((l.blockOf false (Cursor.ofTokens ts)).map Prod.fst)
      ((m.blockOf false (Cursor.ofTokens us)).map Prod.fst) := by
  have hends : false = true ∨ ∃ e, ¬E e := Or.inr hE
  have htied := blockOf_tied hlevels open_of_none (fun hfenced => absurd hfenced Bool.false_ne_true)
    hends (abreast_ofTokens h hstrings).resuming
  exact htied.agree.map fun _ _ hxy => hxy.1

/-- Strings in attributes are read alike, whatever their line and the limit of nesting. A string in
such a string is shorter, and so the budgets do not run out. -/
theorem attributeText_agree (hg : d.grammar = .withElements onElem onElex)
    (hg' : d'.grammar = .standard) (hm : d'.modifier? = d.modifier?)
    (helem : ∀ longest, (same E longest).KeepsStep onElem Statement.element)
    (helex : ∀ longest, (same E longest).KeepsStep onElex Statement.elementText)
    (hheight : d'.maxDepth = d.maxDepth ∨
      d.maxDepth ≤ d'.maxDepth ∧ ∀ line, E ⟨line, .tooDeep d.maxDepth⟩)
    {budget budget' : Nat} {text : String} (line line' : Nat) (hlong : text.length < budget)
    (hlong' : text.length < budget') :
    Agree E Eq (d.attributeText budget text line) (d'.attributeText budget' text line') := by
  induction budget generalizing budget' text line line' with
  | zero => exact absurd hlong (Nat.not_lt_zero _)
  | succ budget ih =>
    obtain ⟨budget', rfl⟩ : ∃ k, budget' = k + 1 := ⟨budget' - 1, by omega⟩
    have hv : d.grammar.vocabulary = .standard := by rw [hg, Grammar.vocabulary_withElements]
    have hv' : d'.grammar.vocabulary = .standard := by rw [hg', Grammar.vocabulary_standard]
    rw [Dialect.attributeText, Dialect.attributeText, hv, hv']
    cases htokens : Lexer.tokenizeFrom .standard text line with
    | error e =>
      have hsame := (Lexer.tokenizeFrom_agree (v := .standard) line line' text).2 e htokens
      rcases hsame with hfalse | ⟨e', htokens', hfault⟩
      · exact hfalse.elim
      · rw [htokens']
        exact .error hfault
    | ok tokens =>
      obtain ⟨tokens', htokens', halike⟩ :=
        (Lexer.tokenizeFrom_agree line line' text).1 tokens htokens
      rw [htokens']
      -- in an attribute nothing waits, and both readings end their lines alike
      obtain ⟨S, hS⟩ : ∃ S, S = same E text.length := ⟨_, rfl⟩
      have hstart : S.Abreast [] (tokens.length + 1, tokens'.length + 1) (Cursor.ofTokens tokens)
          (Cursor.ofTokens tokens') := by
        rw [hS]
        exact abreast_ofTokens halike fun t ht hstring =>
          Lexer.length_lt_of_tokenizeFrom Vocabulary.not_string htokens ht hstring
      -- the strings in the text are shorter, so the hypothesis is about their values
      have hlevels : S.Levels (d.levels (d.attributeText budget) d.maxDepth)
          (d'.levels (d'.attributeText budget') d'.maxDepth) := by
        obtain ⟨extra, hextra⟩ : ∃ extra, d'.maxDepth = extra + d.maxDepth :=
          ⟨d'.maxDepth - d.maxDepth, by omega⟩
        have hexcused : extra = 0 ∧ d'.maxDepth = d.maxDepth ∨
            ∀ line, E ⟨line, .tooDeep d.maxDepth⟩ :=
          hheight.imp (fun h => ⟨by omega, h⟩) And.right
        conv => arg 3; rw [hextra]
        rw [hS]
        refine levels_tied hg hg' hm (helem _) (helex _) hexcused
          (fun hfenced => absurd hfenced Bool.false_ne_true) (fun line line' hshort => ?_) _
        change _ < text.length at hshort
        exact ih line line' (by omega) (by omega)
      have hcontent : S.Tied (fun _ => S.Onto [] (tokens.length + 1, tokens'.length + 1))
          ((d.levels (d.attributeText budget) d.maxDepth).content .attribute)
          ((d'.levels (d'.attributeText budget') d'.maxDepth).content .attribute)
          (Cursor.ofTokens tokens) (Cursor.ofTokens tokens') :=
        (content_or hlevels (by simp [Pending.AllOpen]) hstart .attribute).resolve_right fun h =>
          absurd h.1 (by simp [hS, same])
      have hexcused : S.Excused = E := by rw [hS]; rfl
      exact (hexcused ▸ hcontent.agree).bind fun x y hxy => .ok (by rw [hxy.1])

end Lockstep

/-! ## The fenced dialect -/

/-- Whether an error says that an `else` has closed the statement around an element. -/
def SyntaxError.IsLost (e : SyntaxError) : Prop :=
  e.fault = .lostElseOwner

/-- The fenced rule does what the rule for elements does, or says that an `else` has closed the
statement around the element. -/
theorem Statement.fencedElement_upTo {l m : Level} (h : l.UpTo SyntaxError.IsLost m) (t : Token) :
    UpTo SyntaxError.IsLost (element l t) (fencedElement true m t) := by
  refine .bind (elementHeader_upTo h) fun _ => .after _ fun _ => .ite ?_ ?_
  · refine .after _ fun _ => .bind (h.block true) fun _ => .look fun _ => ?_
    exact .refuse (fun c => ⟨⟨c.line, .lostElseOwner⟩, rfl, rfl⟩) (.refl _)
  · exact fun c => Or.inl rfl

namespace Dialect

variable {d : Dialect}

/-- The standard grammar is the one with its own rules for elements. -/
theorem grammar_eq_withElements (hd : d.grammar = .standard) :
    d.grammar = .withElements Statement.element Statement.elementText := by
  rw [hd, Grammar.withElements_elementText, Grammar.standardWith_element]

/-- The dialect where an `else` in the block of an element must not close the statement around
it. -/
def fenced (d : Dialect) : Dialect :=
  { d with grammar := .standardWith (Statement.fencedElement true) }

/-- The fenced dialect reads the same templates, but for those it refuses for an element. -/
theorem fenced_upTo (hd : d.grammar = .standard) (ts : List Token) :
    d.fenced.parse ts = d.parse ts ∨
      ∃ e : SyntaxError, e.IsLost ∧ d.fenced.parse ts = .error e := by
  have hg : d.grammar = .standardWith Statement.element :=
    hd.trans Grammar.standardWith_element.symm
  have hfenced : d.fenced.grammar = .standardWith (Statement.fencedElement true) := rfl
  have hv : d.fenced.grammar.vocabulary = d.grammar.vocabulary := by
    rw [hfenced, hg, Grammar.vocabulary_standardWith, Grammar.vocabulary_standardWith]
  exact parse_upTo hv (fun _ _ hA => levels_upTo_of_depth hg hfenced rfl rfl
    (fun _ _ h t => Statement.fencedElement_upTo h t) hA _) ts

/-- The fenced rule for elements keeps step with the rule of the standard grammar. -/
theorem fencedElement_keepsStep {S : Lockstep} (hlost : ∀ line, S.Excused ⟨line, .lostElseOwner⟩)
    {atEnd : Bool} (hends : S.ends = true ∨ atEnd = false) :
    S.KeepsStep (Statement.fencedElement atEnd) Statement.element :=
  fun _ _ _ _ _ _ _ _ h hps hc => Lockstep.fencedElement_tied h hps hlost hends hc

/-- So does the rule of the standard grammar itself, where nothing is fenced. -/
theorem element_keepsStep {S : Lockstep} (hfenced : S.fenced = false) :
    S.KeepsStep Statement.element Statement.element :=
  fun _ _ _ _ _ _ _ _ h hps hc => Lockstep.element_tied h hps hfenced hc

/-- A text behind a tag needs no block, and so it keeps step where the ends of lines are seen alike.
-/
theorem elementText_keepsStep {S : Lockstep} (hends : S.ends = true) :
    S.KeepsStep Statement.elementText Statement.elementText :=
  fun _ _ _ _ _ _ _ _ h hps hc => Lockstep.elementText_tied h hps hends hc

/-- An element with a text that may not end with its line keeps step wherever the readings go on. -/
theorem fencedText_keepsStep {S : Lockstep}
    (hlost : ∀ line, S.Excused ⟨line, .lostElseOwner⟩) :
    S.KeepsStep Statement.fencedText Statement.elementText :=
  fun _ _ _ _ _ _ _ _ h hps hc => Lockstep.fencedText_tied h hps hlost hc

end Dialect

end Stencil
