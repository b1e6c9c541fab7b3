import Stencil.Proofs.Lexing
import Stencil.Proofs.Parallel
import Stencil.Proofs.Progress
/-!
# Termination

Nothing in the reading of a template is bounded by a number. Each loop takes a token with each turn
that goes on, so that its equation has no bound in it. A string in an attribute is read again, and
so is a string in this string; but each is shorter than the one around it, and the reader of
attribute texts is the only solution of its equation. In the tokens as a vector that a stop closes,
a reading moves from one index to a later one and never looks beyond the stop.
-/

namespace Stencil

open Reading

/-! ## Strings that are read again -/

theorem Likewise.eq {ε α : Type} {x y : Except ε α} (h : Likewise Eq x y) : x = y := by
  cases h with
  | ok h => rw [h]
  | error e => rfl

/-- The same nodes, where the strings among operands are admitted texts. -/
def Node.SameWithin (Text : String → Prop) (p : Place) (n n' : Node) : Prop :=
  n = n' ∧ (p = .operand → ∀ s, n = .leaf (.string s) → Text s)

/-- The likeness of nodes to themselves, where the strings among operands are admitted texts. -/
def Likeness.same (Text : String → Prop) : Likeness where
  toWatch := .ofTokens fun t => t.kind = .string → Text t.text
  Text := Text
  below := Node.SameWithin Text
  here := Node.SameWithin Text
  text_of_known h hk := h hk
  lift h := h
  test h := ⟨h.1, nofun⟩
  formed h := by
    refine ⟨Node.eq_of_formed And.left And.left h, ?_⟩
    rintro rfl s hs
    cases h with
    | leaf htext => exact htext s (Node.leaf.inj hs)
    | _ => cases hs
  kindName h := by rw [h.1]
  leaf h l := by rw [h.1]

namespace Dialect

variable {d : Dialect} {A A' : String → Nat → Except SyntaxError Node}
variable {text : String} {line n : Nat} {ts : List Token}

/-- The value of an attribute that is written as a string, with a budget beyond the string. -/
def attributeValue (d : Dialect) (text : String) (line : Nat) : Except SyntaxError Node :=
  d.attributeText (text.length + 1) text line

section

variable (hd : d.grammar = .standard)
include hd

/-- The strings of a text are shorter than the text. -/
theorem length_lt_of_tokenizeFrom (h : Lexer.tokenizeFrom d.grammar.vocabulary text line = .ok ts)
    {t : Token} (ht : t ∈ ts) (hk : t.kind = .string) : t.text.length < text.length := by
  rw [hd, Grammar.vocabulary_standard] at h
  exact Lexer.length_lt_of_tokenizeFrom Vocabulary.not_string h ht hk

theorem dialects_same (n : Nat) :
    (Likeness.same fun s => s.length < n).Dialects d d where
  rules := hd ▸ Grammar.hasStandardRules_standard
  symbol _ _ := rfl
  maxDepth := rfl
  below_eq := rfl
  text h := h.2 rfl _ rfl
  resolve l m hl hm x x' hx := by
    rw [hx.1]
    exact ⟨Statement.resolve_congr (hl.trans hm.symm) x', nofun⟩
  tokens _ _ _ := rfl
  known s line ts hs h t ht hk := (length_lt_of_tokenizeFrom hd h ht hk).trans hs

/-- Two readers of attribute texts that do the same with short texts make levels that do the same
with tokens whose strings are short. -/
theorem levels_same (hA : ∀ s, s.length < n → ∀ line, A s line = A' s line) (k : Nat) :
    (Likeness.same fun s => s.length < n).Levels (d.levels A k) (d.levels A' k) := by
  refine (dialects_same hd n).levels_parallel (fun s line hs => ?_) k
  rw [hA s hs line]
  cases A' s line with
  | error e => exact .error e
  | ok node => exact .ok ⟨rfl, fun hplace => by cases hplace⟩

/-- The value of a text depends on the values of shorter texts only. -/
theorem reread_congr (hA : ∀ s, s.length < text.length → ∀ line, A s line = A' s line) :
    d.reread A text line = d.reread A' text line := by
  unfold reread
  cases hts : Lexer.tokenizeFrom d.grammar.vocabulary text line with
  | error e => rfl
  | ok ts =>
    have hknown : ∀ t ∈ ts, t.kind = .string → t.text.length < text.length :=
      fun t ht => length_lt_of_tokenizeFrom hd hts ht
    have hread := ((levels_same hd hA d.maxDepth).content .attribute) _ _ (.ofTokens hknown trivial)
    refine Likewise.eq (hread.bind ?_)
    rintro ⟨o, _⟩ ⟨o', _⟩ ⟨ho, -⟩
    have hnode : o = o' := by
      refine eq_of_rel ho ?_
      rintro _ _ ⟨parts, parts', -, hparts, rfl, rfl⟩
      rw [parts_eq And.left hparts]
    rw [hnode]
    exact .ok rfl

/-- A budget beyond the length of a text is never used up. -/
theorem attributeText_eq {budget budget' : Nat} (h : text.length < budget)
    (h' : text.length < budget') :
    d.attributeText budget text line = d.attributeText budget' text line := by
  induction budget generalizing budget' text line with
  | zero => omega
  | succ budget ih =>
    obtain ⟨budget', rfl⟩ : ∃ b, budget' = b + 1 := ⟨budget' - 1, by omega⟩
    rw [attributeText_succ, attributeText_succ]
    exact reread_congr hd fun s hs line => ih (by omega) (by omega)

/-- The value of a text is put together from the values of the strings in it. -/
theorem attributeValue_eq : d.attributeValue text line = d.reread d.attributeValue text line := by
  rw [attributeValue, attributeText_succ]
  exact reread_congr hd fun s hs line => attributeText_eq hd hs (Nat.lt_succ_self _)

/-- **There is one reader of attribute texts**: whatever reads a text as it reads the strings in it
gives the values. -/
theorem eq_attributeValue (hA : ∀ text line, A text line = d.reread A text line) :
    A = d.attributeValue := by
  have hall : ∀ n (text : String) line, text.length < n →
      A text line = d.attributeValue text line := by
    intro n
    induction n with
    | zero => exact fun text line h => absurd h (Nat.not_lt_zero _)
    | succ n ih =>
      intro text line h
      rw [hA, attributeValue_eq hd]
      exact reread_congr hd fun s hs line => ih s line (by omega)
  funext text line
  exact hall _ text line (Nat.lt_succ_self _)

/-- A template is read with the values of its attribute texts. -/
theorem parse_eq : d.parse ts =
    ((d.levels d.attributeValue d.maxDepth).block false (Cursor.ofTokens ts)).map Prod.fst := by
  have hknown : ∀ t ∈ ts, t.kind = .string → t.text.length < longestText ts + 1 :=
    fun t ht _ => Nat.lt_succ_of_le (le_longestText ht)
  have hA : ∀ s : String, s.length < longestText ts + 1 → ∀ line,
      d.attributeText (longestText ts + 1) s line = d.attributeValue s line :=
    fun s hs line => attributeText_eq hd hs (Nat.lt_succ_self _)
  have hblock := ((levels_same hd hA d.maxDepth).block false) _ _ (.ofTokens hknown trivial)
  exact Likewise.eq (hblock.map fun x y hxy => hxy.1.1)

end

end Dialect

/-! ## Places in a vector -/

/-- Tokens as a vector that is read: a stop closes them, if they do not end in one. -/
def closed (ts : List Token) : List Token :=
  if ts.getLast?.any fun t => t.kind == .stop then ts
  else ts ++ [⟨.stop, "(end)", (ts.getLast?.map Token.line).getD 1⟩]

/-- Whether a vector ends in a stop. -/
def EndsInStop (v : List Token) : Prop :=
  ∃ init stop, v = init ++ [stop] ∧ stop.kind = .stop

/-- Whether a cursor stands at an index of a vector: what is left are the tokens from there up to
the next stop, and the token at the index is the current one. -/
structure Cursor.At (c : Cursor) (v : List Token) (i : Nat) : Prop where
  bound : i < v.length
  tokens : c.tokens = (v.drop i).takeWhile fun t => t.kind != .stop

theorem endsInStop_closed (ts : List Token) : EndsInStop (closed ts) := by
  unfold closed
  split
  · next h =>
    rcases List.eq_nil_or_concat ts with rfl | ⟨init, stop, rfl⟩
    · cases h
    · refine ⟨init, stop, List.concat_eq_append, ?_⟩
      simpa using h
  · exact ⟨ts, _, rfl, rfl⟩

/-- A template is read from the first token of its vector on. -/
theorem Cursor.ofTokens_at (ts : List Token) : (Cursor.ofTokens ts).At (closed ts) 0 := by
  obtain ⟨init, stop, hv, -⟩ := endsInStop_closed ts
  refine ⟨by rw [hv]; simp, ?_⟩
  rw [List.drop_zero, closed]
  split
  · rfl
  · have hstop : ∀ t : Token, t.kind = .stop → [t].takeWhile (fun t => t.kind != .stop) = [] :=
      fun t ht => by simp [ht]
    rw [List.takeWhile_append, hstop _ rfl, List.append_nil]
    split
    · next hlen => exact (List.takeWhile_prefix _).eq_of_length hlen
    · rfl

variable {v : List Token} {i : Nat} {c c' : Cursor}

namespace EndsInStop

variable (hv : EndsInStop v)
include hv

/-- From every index on there is a stop. -/
theorem length_takeWhile_lt (hi : i < v.length) :
    ((v.drop i).takeWhile fun t => t.kind != .stop).length < (v.drop i).length := by
  obtain ⟨init, stop, rfl, hstop⟩ := hv
  rw [List.length_append, List.length_singleton] at hi
  rw [List.drop_append_of_le_length (by omega), List.takeWhile_append]
  have hnone : [stop].takeWhile (fun t : Token => t.kind != .stop) = [] := by simp [hstop]
  have hle := (List.takeWhile_prefix (p := fun t : Token => t.kind != .stop)
    (l := init.drop i)).length_le
  rw [hnone, List.append_nil, List.length_append, List.length_singleton]
  split <;> omega

/-- What is left after some tokens stands at a later index. -/
theorem at_of_suffix (hc : c.At v i) (hsub : c'.tokens <:+ c.tokens) :
    c'.At v (i + (c.tokens.length - c'.tokens.length)) := by
  obtain ⟨taken, htaken⟩ := hsub
  have hlen := hv.length_takeWhile_lt hc.bound
  rw [← hc.tokens, ← htaken, List.length_append, List.length_drop] at hlen
  have hk : c.tokens.length - c'.tokens.length = taken.length := by
    rw [← htaken, List.length_append]
    omega
  rw [hk]
  refine ⟨by omega, ?_⟩
  have htokens := hc.tokens
  rw [← htaken] at htokens
  have hdrop : (v.drop i).take taken.length = taken := by
    have hprefix := List.takeWhile_prefix (p := fun t : Token => t.kind != .stop) (l := v.drop i)
    rw [← htokens] at hprefix
    exact (List.prefix_iff_eq_take.1 ((List.prefix_append taken c'.tokens).trans hprefix)).symm
  have hall : ∀ t ∈ taken, (t.kind != .stop) = true := by
    intro t ht
    have hmem : t ∈ (v.drop i).takeWhile fun t => t.kind != .stop :=
      htokens ▸ List.mem_append_left _ ht
    exact List.all_eq_true.1 List.all_takeWhile t hmem
  have hsplit := List.take_append_drop taken.length (v.drop i)
  rw [hdrop, List.drop_drop] at hsplit
  rw [← hsplit, List.takeWhile_append_of_pos hall] at htokens
  exact List.append_cancel_left htokens

/-- **No index is out of bounds**: where a cursor stands at an index, there is a token. A stop is
never taken, and taking another token leads to the next index. -/
theorem advance_at (hc : c.At v i) : ∃ t, v[i]? = some t ∧
    (t.kind = .stop ∧ advance c = .error ⟨c.lastLine, .unexpectedEnd⟩ ∨
      t.kind ≠ .stop ∧ ∃ c', advance c = .ok (t, c') ∧ c'.At v (i + 1)) := by
  have hbound := hc.bound
  have htokens := hc.tokens
  rw [List.drop_eq_getElem_cons hbound] at htokens
  refine ⟨v[i], List.getElem?_eq_getElem hbound, ?_⟩
  by_cases hstop : v[i].kind = .stop
  · refine .inl ⟨hstop, ?_⟩
    rw [List.takeWhile_cons_of_neg (by simp [hstop])] at htokens
    rw [advance, htokens]
  · refine .inr ⟨hstop, ?_⟩
    rw [List.takeWhile_cons_of_pos (by simp [hstop])] at htokens
    refine ⟨_, advance_of_cons htokens, ?_⟩
    have hrest : (c.moveTo ((v.drop (i + 1)).takeWhile fun t => t.kind != .stop)).tokens <:+
        c.tokens :=
      htokens ▸ List.suffix_cons _ _
    have hat := hv.at_of_suffix hc hrest
    rwa [htokens, List.length_cons, Cursor.moveTo, Nat.add_sub_cancel_left] at hat

end EndsInStop

namespace Reading

variable {α β σ : Type} {P : α → Prop} {r : Reading α}

/-- Whether a reading leads from an index of `v` to one that is not before it, and that is behind
it if the result has `P`. -/
def Moves (v : List Token) (P : α → Prop) (r : Reading α) : Prop :=
  ∀ c i, c.At v i → ∀ a c', r c = .ok (a, c') → ∃ j, c'.At v j ∧ i ≤ j ∧ (P a → i < j)

theorem Onward.moves (h : Onward P r) (hv : EndsInStop v) : Moves v P r := by
  intro c i hc a c' hr
  obtain ⟨hsub, hlt⟩ := h c a c' hr
  refine ⟨_, hv.at_of_suffix hc hsub, Nat.le_add_right _ _, fun ha => ?_⟩
  have hlength := hlt ha
  omega

/-- Whether a loop comes to an end in `v`: a turn that goes on has moved to a later index, and the
loop is the only one that takes a turn and, if that goes on, goes on itself. -/
structure Terminates (v : List Token) (turn : σ → Reading (σ ⊕ β)) : Prop where
  moves : ∀ s, Moves v (fun x => x.isLeft = true) (turn s)
  unique : ∀ f : σ → Reading β, (∀ s, f s = (do
    match ← turn s with
    | .inl s => f s
    | .inr b => return b)) ↔ f = loop turn

theorem Advances.terminates {turn : σ → Reading (σ ⊕ β)} (h : Advances turn)
    (hv : EndsInStop v) : Terminates v turn where
  moves s := (h s).moves hv
  unique _ := h.eq_loop_iff

end Reading

/-- What the readers of a level do in a vector: an expression takes a token or fails, and every
loop comes to an end. -/
structure Level.Progress (v : List Token) (l : Level) : Prop where
  expression : ∀ power, Moves v (fun _ => True) (l.expression power)
  operators : ∀ power, Terminates v (Grammar.standard.extendTurn l power)
  block : ∀ nested, Terminates v (l.blockTurn nested)
  content : Terminates v l.contentTurn
  items : ∀ close what, Terminates v (Operation.itemTurn l close what)
  members : Terminates v (Operation.memberTurn l)
  segments : Terminates v Operation.segmentTurn
  filters : Terminates v Operation.filterTurn
  names : Terminates v Statement.nameTurn
  modifiers : Terminates v (Statement.modifierTurn l)
  note : Terminates v Statement.commentTurn
  comment : ∀ t, Statement.comment l t = do
    Reading.loop Statement.commentTurn ()
    return none

theorem Level.Advances.progress {l : Level} (h : l.Advances) (hv : EndsInStop v) :
    l.Progress v where
  expression power := (h.expression power).moves hv
  operators power := (Grammar.extendTurn_advances h power).terminates hv
  block nested := (h.blockTurn nested).terminates hv
  content := h.contentTurn.terminates hv
  items close what := (Operation.itemTurn_advances h close what).terminates hv
  members := (Operation.memberTurn_advances h).terminates hv
  segments := Operation.segmentTurn_advances.terminates hv
  filters := Operation.filterTurn_advances.terminates hv
  names := Statement.nameTurn_advances.terminates hv
  modifiers := (Statement.modifierTurn_advances h).terminates hv
  note := Statement.commentTurn_advances.terminates hv
  comment := Statement.comment_eq_loop

namespace Dialect

variable {d : Dialect}

/-- **Every template is read to its end.** A template is what its block says, from the first token
of its vector on, with the values of its attribute texts. The strings in such a text are shorter
than the text, whose value is put together from their values only; so the reader of the values is
the only solution of its equation. In a vector that ends in a stop no index is out of bounds, an
expression takes a token or fails, and every loop comes to an end, at all levels however many there
are. -/
theorem parse_terminates (hd : d.grammar = .standard) :
    (∀ ts, (Cursor.ofTokens ts).At (closed ts) 0 ∧ EndsInStop (closed ts) ∧
      d.parse ts =
        ((d.levels d.attributeValue d.maxDepth).block false (Cursor.ofTokens ts)).map Prod.fst) ∧
    (∀ text line ts, Lexer.tokenizeFrom d.grammar.vocabulary text line = .ok ts →
      ∀ t ∈ ts, t.kind = .string → t.text.length < text.length) ∧
    (∀ A A' text line,
      (∀ s : String, s.length < text.length → ∀ line, A s line = A' s line) →
        d.reread A text line = d.reread A' text line) ∧
    (∀ A, (∀ text line, A text line = d.reread A text line) ↔ A = d.attributeValue) ∧
    ∀ v, EndsInStop v →
      (∀ (c : Cursor) i, c.At v i → ∃ t, v[i]? = some t ∧
        (t.kind = .stop ∧ advance c = .error ⟨c.lastLine, .unexpectedEnd⟩ ∨
          t.kind ≠ .stop ∧ ∃ c', advance c = .ok (t, c') ∧ c'.At v (i + 1))) ∧
      ∀ A k, (d.levels A k).Progress v := by
  refine ⟨fun ts => ⟨Cursor.ofTokens_at ts, endsInStop_closed ts, parse_eq hd⟩,
    fun _ _ _ htokens _ => length_lt_of_tokenizeFrom hd htokens, fun _ _ _ _ => reread_congr hd,
    fun A => ⟨eq_attributeValue hd, ?_⟩,
    fun v hv => ⟨fun c i => hv.advance_at, fun A k => (levels_advances hd A k).progress hv⟩⟩
  rintro rfl text line
  exact attributeValue_eq hd

/-- A stop among the tokens ends the template, and a list without one gets one. -/
theorem parse_terminates_stop :
    let d : Dialect := ⟨.standard, fun _ => none, 64⟩
    let word : Token := ⟨.literal, "x", 1⟩
    let ts : List Token := [word, ⟨.stop, "(end)", 1⟩, word]
    EndsInStop (closed ts) ∧ (closed ts).length = 4 ∧
      (d.levels d.attributeValue 64).Progress (closed ts) ∧
      d.parse ts = .ok (.block [.output .content [.text "x"]]) := by
  intro d word ts
  have hall := parse_terminates (d := d) rfl
  exact ⟨(hall.1 ts).2.1, rfl, (hall.2.2.2.2 _ (hall.1 ts).2.1).2 _ _, rfl⟩

end Dialect

end Stencil
