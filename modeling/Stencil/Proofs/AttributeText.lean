import Mathlib
import Stencil.Proofs.Derivation.Frame
import Stencil.Proofs.Derivation.Levels
import Stencil.Proofs.Termination
/-!
# Attribute texts

The string of an attribute is read again like a line of a block, and nobody asks for what this
reading leaves. The parts of the value account for the tokens of the text, one after the other: a
word is a text, a mark and what its expression takes are an expression, and a comment takes the rest
of its line without a part. This goes on to the end of the line, or to an `@end` that no statement
in the text has taken. Such an end is refused where no block is open, but here it only ends the
value, and what stands behind it is lost.
-/

namespace Stencil

open Reading

namespace Level

/-- What the next part of a line takes. Only a comment leaves no part. -/
inductive Takes (l : Level) : Cursor → Option Part → Cursor → Prop
  | text {c : Cursor} {t : Token} {rest : List Token} {s : String} :
      c.tokens = t :: rest → t.kind ≠ .newline → t.kind ≠ .mark →
      contentText t (c.moveTo rest) = .ok (s, c.moveTo rest) →
        Takes l c (some (.text s)) (c.moveTo rest)
  | expr {c c' : Cursor} {t : Token} {taken : List Token} {e : Node} :
      c.tokens = t :: (taken ++ c'.tokens) → t.kind = .mark → c.atBlockEnd = false → taken ≠ [] →
      l.expression 0 (c.moveTo (taken ++ c'.tokens)) = .ok (some e, c') →
        Takes l c (some (.expr e)) c'
  | comment {c : Cursor} {t u : Token} {rest : List Token} :
      c.tokens = t :: u :: rest → t.kind = .mark → u.kind.isWord = true → u.text = "#" →
      l.expression 0 (c.moveTo (u :: rest)) =
          .ok (none, c.moveTo (rest.dropWhile fun t => t.kind != .newline)) →
        Takes l c none (c.moveTo (rest.dropWhile fun t => t.kind != .newline))

/-- How the parts of a line account for its tokens, from one cursor up to another. -/
inductive Covers (l : Level) : Cursor → List Part → Cursor → Prop
  | done {c : Cursor} : Covers l c [] c
  | next {c c₁ c' : Cursor} {o : Option Part} {parts : List Part} :
      l.Takes c o c₁ → Covers l c₁ parts c' → Covers l c (o.toList ++ parts) c'

/-- Whether expressions with no statement around them leave none behind that waits, and leave a node
unless they are comments. -/
def Detached (l : Level) : Prop :=
  ∀ c o c', c.pending = [] → l.expression 0 c = .ok (o, c') → c'.pending = [] ∧
    (o = none → ∃ u rest, c.tokens = u :: rest ∧ u.kind.isWord = true ∧ u.text = "#" ∧
      c' = c.moveTo (rest.dropWhile fun t => t.kind != .newline))

/-- A branch needs a statement that waits, so that only comments leave nothing. -/
theorem Sound.detached {L : Level → Level → Prop} {l m : Level} (h : l.Sound L m) :
    l.Detached := by
  intro c o c' hp hr
  obtain ⟨k, ho, -⟩ := h.expression 0 c o c' hr
  cases o with
  | some n =>
    have hwaits := Derives.waits ho
    rw [hp] at hwaits
    exact ⟨hwaits.nil, nofun⟩
  | none =>
    rcases ho with ⟨-, u, rest, htok, hword, htext, rfl⟩ | hbranch
    · exact ⟨hp, fun _ => ⟨u, rest, htok, hword, htext, rfl⟩⟩
    · cases hbranch with
      | tested _ _ hpending => exact absurd (hp.symm.trans hpending) (List.cons_ne_nil _ _).symm
      | untested _ _ hpending => exact absurd (hp.symm.trans hpending) (List.cons_ne_nil _ _).symm

variable {l : Level} {c c' c₁ : Cursor} {parts parts' : List Part} {o : Option Part}

namespace Takes

theorem suffix (h : l.Takes c o c') : c'.tokens <:+ c.tokens := by
  cases h with
  | text hc => exact Derives.suffix_of_cons hc
  | expr hc =>
    rw [hc]
    exact (List.suffix_append _ _).trans (List.suffix_cons _ _)
  | comment hc =>
    rw [hc]
    exact ((List.dropWhile_suffix _).trans (List.suffix_cons _ _)).trans (List.suffix_cons _ _)

theorem length_lt (h : l.Takes c o c') : c'.tokens.length < c.tokens.length := by
  cases h with
  | text hc =>
    rw [hc]
    exact Nat.lt_succ_self _
  | expr hc =>
    rw [hc, List.length_cons, List.length_append]
    omega
  | comment hc =>
    rw [hc]
    exact Nat.lt_succ_of_le ((List.dropWhile_suffix _).trans (List.suffix_cons _ _)).length_le

theorem pending (h : l.Takes c o c') (hl : l.Detached) (hp : c.pending = []) :
    c'.pending = [] := by
  cases h with
  | text => exact hp
  | @expr _ _ taken _ _ _ _ _ he => exact (hl (c.moveTo (taken ++ c'.tokens)) _ _ hp he).1
  | comment => exact hp

/-- A part is taken where neither the line nor the block ends. -/
theorem inside (h : l.Takes c o c') : c.atLineEnd = false ∧ c.atBlockEnd = false := by
  have hmark : ∀ {t : Token} {rest : List Token}, c.tokens = t :: rest → t.kind = .mark →
      c.atLineEnd = false := by
    intro t rest hc hk
    rw [Cursor.atLineEnd, hc]
    simp [hk]
  cases h with
  | text hc hline hk =>
    refine ⟨?_, ?_⟩
    · rw [Cursor.atLineEnd, hc]
      simpa using hline
    · simp only [Cursor.atBlockEnd, hc]
      split <;> simp_all
  | expr hc hk hend => exact ⟨hmark hc hk, hend⟩
  | comment hc hk hword htext =>
    refine ⟨hmark hc hk, ?_⟩
    simp [Cursor.atBlockEnd, hc, Token.is, htext]

end Takes

theorem contentTurn_stop (hstop : c.atLineEnd = true ∨ c.atBlockEnd = true) :
    l.contentTurn parts c = .ok (.inr parts, c) := by
  rw [contentTurn, get_bind_apply, if_pos (by simpa using hstop)]
  rfl

section

variable (hl : l.Detached) (ha : l.Advances) (hp : c.pending = [])
include hl ha hp

/-- **One turn takes one part**, where neither the line nor the block ends and no statement
waits. -/
theorem contentTurn_eq_ok {x : List Part ⊕ List Part}
    (hline : c.atLineEnd = false) (hend : c.atBlockEnd = false) :
    l.contentTurn parts c = .ok (x, c') ↔
      ∃ o, l.Takes c o c' ∧ x = .inl (o.toList ++ parts) := by
  -- nothing waits in an attribute, so no expression can end the line from inside
  have hopen : ∀ {c : Cursor}, c.pending = [] → ¬c.ownerClosed = true := by
    intro c hc
    simp [Cursor.ownerClosed, hc]
  rw [contentTurn, get_bind_apply]
  simp only [hline, hend, Bool.or_self, Bool.false_eq_true, if_false]
  constructor
  · intro h
    obtain ⟨t, _, hadv, h⟩ := bind_eq_ok.1 h
    obtain ⟨rest, hc, rfl⟩ := advance_eq_ok.1 hadv
    split at h
    -- behind a mark there is an expression or a comment
    · next hmark =>
      rw [beq_iff_eq] at hmark
      obtain ⟨o, c₂, he, h⟩ := bind_eq_ok.1 h
      obtain ⟨hp₂, hnone⟩ := hl (c.moveTo rest) _ _ hp he
      rw [get_bind_apply, if_neg (hopen hp₂)] at h
      obtain ⟨hx, rfl⟩ := pure_eq_ok.1 h
      cases o with
      | none =>
        obtain ⟨u, rest', htok, hword, htext, rfl⟩ := hnone rfl
        rw [Cursor.moveTo_tokens] at htok
        subst htok
        exact ⟨none, .comment hc hmark hword htext he, hx⟩
      | some e =>
        obtain ⟨⟨taken, htaken⟩, hlt⟩ := ha.expression 0 (c.moveTo rest) _ _ he
        rw [Cursor.moveTo_tokens] at htaken hlt
        have hne : taken ≠ [] := by
          rintro rfl
          rw [← htaken] at hlt
          exact absurd (hlt trivial) (lt_irrefl _)
        refine ⟨_, .expr ?_ hmark hend hne ?_, hx⟩
        · rw [hc, htaken]
        · rw [htaken]
          exact he
    -- any other token is text
    · next hmark =>
      rw [beq_iff_eq] at hmark
      obtain ⟨s, c₂, htext, h⟩ := bind_eq_ok.1 h
      obtain rfl := Sound.contentText_cursor htext
      obtain ⟨hx, rfl⟩ := pure_eq_ok.1 h
      have hnewline : t.kind ≠ .newline := by simpa [Cursor.atLineEnd, hc] using hline
      exact ⟨_, .text hc hnewline hmark htext, hx⟩
  · rintro ⟨o, htakes, rfl⟩
    have hp' := htakes.pending hl hp
    cases htakes with
    | text hc _ hmark htext =>
      rw [bind_of_ok (advance_of_cons hc), if_neg (by simpa using hmark), bind_of_ok htext]
      rfl
    | expr hc hmark _ _ he =>
      rw [bind_of_ok (advance_of_cons hc), if_pos (by simpa using hmark), bind_of_ok he,
        get_bind_apply, if_neg (hopen hp')]
      rfl
    | comment hc hmark _ _ he =>
      rw [bind_of_ok (advance_of_cons hc), if_pos (by simpa using hmark), bind_of_ok he,
        get_bind_apply, if_neg (hopen hp')]
      rfl

/-- A line is read as its parts account for it, up to the end of the line or to an `@end`. -/
theorem loop_contentTurn_eq_ok : loop l.contentTurn parts c = .ok (parts', c') ↔
    ∃ new, l.Covers c new c' ∧ (c'.atLineEnd = true ∨ c'.atBlockEnd = true) ∧
      parts' = new.reverse ++ parts := by
  constructor
  -- a turn that goes on takes a token, so the induction is on a bound of the tokens
  · obtain ⟨n, hn⟩ : ∃ n, c.tokens.length < n := ⟨_, Nat.lt_succ_self _⟩
    induction n generalizing parts c with
    | zero => omega
    | succ n ih =>
      intro h
      by_cases hstop : c.atLineEnd = true ∨ c.atBlockEnd = true
      · rw [loop_stop (contentTurn_stop hstop)] at h
        obtain ⟨rfl, rfl⟩ := Prod.mk.inj (Except.ok.inj h)
        exact ⟨[], .done, hstop, rfl⟩
      · simp only [not_or, Bool.not_eq_true] at hstop
        rw [ha.contentTurn.loop_eq] at h
        obtain ⟨x, c₁, hturn, h⟩ := bind_eq_ok.1 h
        obtain ⟨o, htakes, rfl⟩ := (contentTurn_eq_ok hl ha hp hstop.1 hstop.2).1 hturn
        obtain ⟨new, hnew, hend, rfl⟩ :=
          ih (htakes.pending hl hp) (Nat.lt_of_lt_of_le htakes.length_lt (by omega)) h
        refine ⟨_, .next htakes hnew, hend, ?_⟩
        cases o <;> simp
  -- the other way round, turn by turn along what is covered
  · rintro ⟨new, hcovers, hend, rfl⟩
    induction hcovers generalizing parts with
    | done => exact loop_stop (contentTurn_stop hend)
    | @next c c₁ c' o new htakes hnew ih =>
      obtain ⟨hline, hblock⟩ := htakes.inside
      rw [ha.contentTurn.loop_eq,
        bind_of_ok ((contentTurn_eq_ok hl ha hp hline hblock).2 ⟨o, htakes, rfl⟩)]
      refine (ih (htakes.pending hl hp) hend).trans ?_
      cases o <;> simp

/-- The value of a line: an output of its parts, or none if there are no parts. -/
theorem content_eq_ok (mode : OutputMode) {o : Option Node} :
    l.content mode c = .ok (o, c') ↔
      ∃ parts, l.Covers c parts c' ∧ (c'.atLineEnd = true ∨ c'.atBlockEnd = true) ∧
        o = if parts.isEmpty then none else some (.output mode parts) := by
  rw [content]
  constructor
  · intro h
    obtain ⟨_, c₁, hloop, h⟩ := bind_eq_ok.1 h
    obtain ⟨parts, hcovers, hend, rfl⟩ := (loop_contentTurn_eq_ok hl ha hp).1 hloop
    refine ⟨parts, ?_⟩
    simp only [List.append_nil, List.isEmpty_reverse, List.reverse_reverse] at h
    split at h
    · next hempty =>
      obtain ⟨rfl, rfl⟩ := pure_eq_ok.1 h
      exact ⟨hcovers, hend, (if_pos hempty).symm⟩
    · next hempty =>
      obtain ⟨rfl, rfl⟩ := pure_eq_ok.1 h
      exact ⟨hcovers, hend, (if_neg hempty).symm⟩
  · rintro ⟨parts, hcovers, hend, rfl⟩
    rw [bind_of_ok ((loop_contentTurn_eq_ok hl ha hp).2 ⟨parts, hcovers, hend, rfl⟩)]
    simp only [List.append_nil, List.isEmpty_reverse, List.reverse_reverse]
    split <;> rfl

end

end Level

/-- What the parts account for leaves an end of the tokens. -/
theorem Level.Covers.suffix {l : Level} {c c' : Cursor} {parts : List Part}
    (h : l.Covers c parts c') : c'.tokens <:+ c.tokens := by
  induction h with
  | done => exact List.suffix_refl _
  | next htakes _ ih => exact ih.trans htakes.suffix

theorem Cursor.atBlockEnd_eq_true {c : Cursor} (h : c.atBlockEnd = true) :
    ∃ t u, [t, u] <+: c.tokens ∧ t.kind = .mark ∧ u.is .keyword "end" = true := by
  unfold atBlockEnd at h
  split at h
  · next t u rest hc =>
    rw [Bool.and_eq_true, beq_iff_eq] at h
    exact ⟨t, u, ⟨rest, hc.symm⟩, h⟩
  · exact absurd h Bool.false_ne_true

namespace Dialect

variable {d : Dialect}

theorem levels_detached (hd : d.grammar = .standard)
    (A : String → Nat → Except SyntaxError Node) (k : Nat) : (d.levels A k).Detached :=
  (levels_sound_of hd (fun _ _ => Or.inl rfl) k).detached

/-- The value of a text is made of the parts that account for its tokens, up to the end of the line
or to an `@end`. -/
theorem attributeValue_eq_ok (hd : d.grammar = .standard) {text : String} {line : Nat} {n : Node} :
    d.attributeValue text line = .ok n ↔
      ∃ ts parts c, Lexer.tokenizeFrom d.grammar.vocabulary text line = .ok ts ∧
        (d.levels d.attributeValue d.maxDepth).Covers (Cursor.ofTokens ts) parts c ∧
        (c.atLineEnd = true ∨ c.atBlockEnd = true) ∧ n = .output .attribute parts := by
  have hl := levels_detached hd d.attributeValue d.maxDepth
  have ha := levels_advances hd d.attributeValue d.maxDepth
  rw [attributeValue_eq hd, reread_eq_ok]
  constructor
  · rintro ⟨ts, o, c, htok, hline, rfl⟩
    obtain ⟨parts, hcovers, hend, rfl⟩ := (Level.content_eq_ok hl ha rfl .attribute).1 hline
    refine ⟨ts, parts, c, htok, hcovers, hend, ?_⟩
    cases parts <;> rfl
  · rintro ⟨ts, parts, c, htok, hcovers, hend, rfl⟩
    have hline := (Level.content_eq_ok hl ha rfl .attribute).2
      ⟨parts, hcovers, hend, rfl⟩
    refine ⟨ts, _, c, htok, hline, ?_⟩
    cases parts <;> rfl

/-- Without an `@end` among its tokens a text is read to the end of its line. -/
theorem atLineEnd_of_covers {l : Level} {ts : List Token} {parts : List Part} {c : Cursor}
    (hcovers : l.Covers (Cursor.ofTokens ts) parts c)
    (hstop : c.atLineEnd = true ∨ c.atBlockEnd = true)
    (hends : ∀ t u, [t, u] <:+: ts → t.kind = .mark → u.is .keyword "end" = false) :
    c.atLineEnd = true := by
  refine hstop.resolve_right fun hend => ?_
  obtain ⟨t, u, hnext, ht, hu⟩ := Cursor.atBlockEnd_eq_true hend
  have hmem : [t, u] <:+: ts :=
    (hnext.isInfix.trans hcovers.suffix.isInfix).trans (List.takeWhile_prefix _).isInfix
  exact Bool.false_ne_true ((hends t u hmem ht).symm.trans hu)

/-- **The text of an attribute is read up to an `@end` that none of its statements takes.** A
template is read with the values of its attribute texts, and where the value of an attribute is
written as a string, the attribute is read exactly if parts account for the tokens of the string,
one after the other up to the end of the line or to an `@end`; these parts are its value. Without
an `@end` in the string they reach the end of the line, so that nothing is lost. -/
theorem attributePair_covers (hd : d.grammar = .standard) :
    (∀ ts, d.parse ts =
      ((d.levels d.attributeValue d.maxDepth).block false (Cursor.ofTokens ts)).map Prod.fst) ∧
    (∀ k t left text c c₁,
      (d.levels d.attributeValue k).require 0 "属性值" c = .ok (.leaf (.string text), c₁) →
      ∀ n c', Operation.attributePair (d.levels d.attributeValue k) t left c = .ok (n, c') ↔
        ∃ name ts parts e, left.label? = some name ∧
          Lexer.tokenizeFrom d.grammar.vocabulary text t.line = .ok ts ∧
          (d.levels d.attributeValue d.maxDepth).Covers (Cursor.ofTokens ts) parts e ∧
          (e.atLineEnd = true ∨ e.atBlockEnd = true) ∧
          n = .attribute name (.output .attribute parts) ∧ c' = c₁) ∧
    ∀ k ts parts e, (d.levels d.attributeValue k).Covers (Cursor.ofTokens ts) parts e →
      (e.atLineEnd = true ∨ e.atBlockEnd = true) →
      (∀ t u, [t, u] <:+: ts → t.kind = .mark → u.is .keyword "end" = false) →
        e.atLineEnd = true := by
  -- the value of the string is its reading as a template; the other two clauses are lemmas about
  -- that
  refine ⟨fun ts => parse_eq hd, fun k t left text c c₁ hvalue n c' => ?_,
    fun k ts parts e => atLineEnd_of_covers⟩
  unfold Operation.attributePair
  cases hlabel : left.label? with
  | none =>
    refine ⟨fun h => absurd h failAt_ne_ok, ?_⟩
    rintro ⟨name, -, -, -, hname, -⟩
    cases hname
  | some name =>
    dsimp only
    rw [bind_of_ok hvalue, attributeText_levels]
    dsimp only
    constructor
    · intro h
      obtain ⟨value, c₂, hlift, h⟩ := bind_eq_ok.1 h
      obtain ⟨rfl, rfl⟩ := pure_eq_ok.1 h
      cases hread : d.attributeValue text t.line with
      | error e =>
        rw [hread] at hlift
        cases hlift
      | ok value' =>
        rw [hread] at hlift
        cases hlift
        obtain ⟨ts, parts, e, htok, hcovers, hend, rfl⟩ := (attributeValue_eq_ok hd).1 hread
        exact ⟨name, ts, parts, e, rfl, htok, hcovers, hend, rfl, rfl⟩
    · rintro ⟨_, ts, parts, e, hname, htok, hcovers, hend, rfl, rfl⟩
      obtain rfl := Option.some.inj hname
      have hread := (attributeValue_eq_ok hd).2 ⟨ts, parts, e, htok, hcovers, hend, rfl⟩
      rw [hread]
      rfl

/-- A name between words in the string of an attribute. -/
theorem attributePair_covers_name :
    let d : Dialect := ⟨.standard, fun _ => none, 4⟩
    let text : Token := ⟨.string, "a @b c", 1⟩
    let parts : List Part := [.text "a", .expr (.leaf (.name "b")), .text "c"]
    ∃ c, Operation.attributePair (d.levels d.attributeValue 2) ⟨.assignment, "=", 1⟩
        (.leaf (.name "title")) ⟨[text], 1, []⟩ =
          .ok (.attribute "title" (.output .attribute parts), c) ∧
      ∃ ts e, Lexer.tokenizeFrom .standard "a @b c" 1 = .ok ts ∧
        (d.levels d.attributeValue 4).Covers (Cursor.ofTokens ts) parts e ∧
        e.atLineEnd = true := by
  intro d text parts
  obtain ⟨-, hpair, hline⟩ := attributePair_covers (d := d) rfl
  have hvalue : (d.levels d.attributeValue 2).require 0 "属性值" ⟨[text], 1, []⟩ =
      .ok (.leaf (.string "a @b c"), ⟨[], 1, []⟩) := by
    rfl
  let tokens : List Token := [⟨.literal, "a", 1⟩, ⟨.mark, "@", 1⟩, ⟨.literal, "b", 1⟩,
    ⟨.literal, "c", 1⟩, ⟨.newline, "\n", 1⟩, ⟨.stop, "(end)", 1⟩]
  have htokens : Lexer.tokenizeFrom .standard "a @b c" 1 = .ok tokens := by cbv
  have hread : Operation.attributePair (d.levels d.attributeValue 2) ⟨.assignment, "=", 1⟩
      (.leaf (.name "title")) ⟨[text], 1, []⟩ =
        .ok (.attribute "title" (.output .attribute parts), ⟨[], 1, []⟩) := by
    cbv
  refine ⟨_, hread, ?_⟩
  obtain ⟨_, ts, parts', e, -, htok, hcovers, hend, hnode, -⟩ :=
    (hpair _ _ _ _ _ _ hvalue _ _).1 hread
  obtain ⟨-, hparts⟩ := Node.attribute.inj hnode
  obtain ⟨-, rfl⟩ := Node.output.inj hparts
  rw [show d.grammar = .standard from rfl, Grammar.vocabulary_standard] at htok
  obtain rfl := Except.ok.inj (htokens.symm.trans htok)
  have hends : ∀ u ∈ tokens, u.is .keyword "end" = false := by decide
  exact ⟨_, e, htok, hcovers, hline 4 _ _ e hcovers hend fun t u hsub _ =>
    hends u (hsub.subset (by simp))⟩

/-- An `@end` in the string of an attribute ends the value, and the words behind it are lost. -/
theorem attributeText_lost :
    let d : Dialect := ⟨.standard, fun _ => none, 4⟩
    let parts : List Part := [.text "a"]
    d.parseSource "@elem p title=\"a @end b\"" = .ok (.block [.element "p"
        [.attribute "title" (.output .attribute parts)] .empty]) ∧
      ¬ ∀ text line n, d.attributeValue text line = .ok n →
        ∃ ts parts e, Lexer.tokenizeFrom d.grammar.vocabulary text line = .ok ts ∧
          (d.levels d.attributeValue d.maxDepth).Covers (Cursor.ofTokens ts) parts e ∧
          e.atLineEnd = true ∧ n = .output .attribute parts := by
  intro d parts
  refine ⟨by cbv, fun h => ?_⟩
  have hread : d.attributeValue "a @end b" 1 = .ok (.output .attribute parts) := by cbv
  obtain ⟨ts, parts', e, htok, hcovers, hline, -⟩ := h _ _ _ hread
  let rest : List Token := [⟨.mark, "@", 1⟩, ⟨.keyword, "end", 1⟩, ⟨.literal, "b", 1⟩,
    ⟨.newline, "\n", 1⟩]
  have htokens : Lexer.tokenizeFrom .standard "a @end b" 1 =
      .ok (⟨.literal, "a", 1⟩ :: rest ++ [⟨.stop, "(end)", 1⟩]) := by
    cbv
  rw [show d.grammar = .standard from rfl, Grammar.vocabulary_standard] at htok
  obtain rfl := Except.ok.inj (htokens.symm.trans htok)
  -- the reading of the line stands still at the `@end`
  have hstops : (d.levels d.attributeValue d.maxDepth).content .attribute
      (Cursor.ofTokens (⟨.literal, "a", 1⟩ :: rest ++ [⟨.stop, "(end)", 1⟩])) =
        .ok (some (.output .attribute parts), ⟨rest, 1, []⟩) := by
    cbv
  have hl := levels_detached (d := d) rfl d.attributeValue d.maxDepth
  have ha := levels_advances (d := d) rfl d.attributeValue d.maxDepth
  have hends := (Level.content_eq_ok hl ha rfl .attribute).2
    ⟨parts', hcovers, Or.inl hline, rfl⟩
  obtain ⟨-, rfl⟩ := Prod.mk.inj (Except.ok.inj (hstops.symm.trans hends))
  cases hline

end Dialect

end Stencil
