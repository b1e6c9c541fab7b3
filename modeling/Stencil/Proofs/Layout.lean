import Mathlib
import Stencil.Proofs.Lockstep.Levels
import Stencil.Proofs.Nesting
import Stencil.Proofs.RoundTrip
/-!
# Blocks in one line and in several

A choice whose blocks are one line each can be written in one line or in several. A block is read
like its line alone, up to the end of the line: there the line alone is over, and the block goes on
with a mark, in the same line or in the next one. What the mark stands in front of is met where the
line alone ends: by the block, or in one line by the line of content. All that is left open there
is an element without a block, whose modifiers go on up to the end of the line and pass over an
`else`.
-/

namespace Stencil

open Reading

/-! ## A line and what stands behind it -/

/-- Whether tokens are words of one line without a comment. -/
def OneLine (ts : List Token) : Prop :=
  ∀ t ∈ ts, t.kind ≠ .newline ∧ t.kind ≠ .stop ∧ ¬t.IsSign

/-- The end of a line. -/
def Token.lineEnd (line : Nat) : Token :=
  ⟨.newline, "\n", line⟩

/-- Tokens that go on behind a line: with its end, or in the same line with a mark, which stands in
front of the end of a block if `ends` says so. -/
inductive GoesOn (ends : Bool) : List Token → Prop
  | line {line : Nat} {rest : List Token} : GoesOn ends (.lineEnd line :: rest)
  | mark {line : Nat} {rest : List Token} :
      (∀ c : Cursor, c.tokens = ⟨.mark, "@", line⟩ :: rest → c.atBlockEnd = ends) →
        GoesOn ends (⟨.mark, "@", line⟩ :: rest)

namespace Lockstep

variable {longest : Nat} {tail : List Token} {p : Pending} {ends : Bool}

/-- A line alone, and the same words in front of `tail`. -/
def Line (longest : Nat) (tail ts us : List Token) : Prop :=
  ∃ words words' line, ts = words ++ [Token.lineEnd line] ∧ us = words' ++ tail ∧
    List.Forall₂ Token.Alike words words' ∧ OneLine words ∧
      ∀ t ∈ words, t.kind = .string → t.text.length < longest

theorem Line.heads {E : SyntaxError → Prop} (hE : ∀ e, E e) (htail : GoesOn ends tail)
    {ts us : List Token} (h : Line longest tail ts us) :
    Heads (Line longest tail) E ends ts us := by
  obtain ⟨words, words', line, rfl, rfl, halike, hwords, hstrings⟩ := h
  cases halike with
  | nil =>
    cases htail with
    | line => exact .line ⟨rfl, rfl⟩ rfl
    | mark hends => exact .tail rfl rfl rfl hE hends
  | @cons t u ts us hhead halike =>
    refine .word hhead (hwords t List.mem_cons_self).1 ⟨ts, us, line, rfl, rfl, halike, ?_, ?_⟩
    · exact fun v hv => hwords v (List.mem_cons_of_mem _ hv)
    · exact fun v hv => hstrings v (List.mem_cons_of_mem _ hv)

/-- A line alone, read in lockstep with a block that holds this line and goes on with `tail`. -/
def inside (longest : Nat) (p : Pending) (hp : p.closed = false) (ends : Bool)
    (htail : GoesOn ends tail) : Lockstep where
  Beside := Line longest tail
  Excused := fun _ => True
  around := [p]
  longest := longest
  ends := ends
  fenced := !ends
  heads := fun h => h.heads (fun _ => trivial) htail
  strings := by
    rintro t ts us ⟨words, words', line, hts, -, -, -, hstrings⟩ hstring
    cases words with
    | nil =>
      obtain ⟨rfl, -⟩ := List.cons.inj hts
      cases hstring
    | cons w ws =>
      obtain ⟨rfl, -⟩ := List.cons.inj hts
      exact hstrings t List.mem_cons_self hstring
  comment := by
    rintro t u ts us ⟨words, words', line, hts, -, -, hwords, -⟩ hsign
    cases words with
    | nil =>
      obtain ⟨rfl, -⟩ := List.cons.inj hts
      cases hsign.1
    | cons w ws =>
      obtain ⟨rfl, -⟩ := List.cons.inj hts
      exact absurd hsign (hwords t List.mem_cons_self).2.2
  resumes := by
    rintro ts us ⟨words, words', line, rfl, rfl, halike, hwords, hstrings⟩
    cases halike with
    | nil => exact .finished fun _ => trivial
    | @cons t u ts us hhead halike =>
      have hleft : t.kind ≠ .newline := (hwords t List.mem_cons_self).1
      have hright : u.kind ≠ .newline := hhead.1 ▸ hleft
      rw [List.cons_append, List.cons_append, List.dropWhile_cons_of_neg (by simpa using hleft),
        List.dropWhile_cons_of_neg (by simpa using hright)]
      exact .level ⟨t :: ts, u :: us, line, rfl, rfl, .cons hhead halike, hwords, hstrings⟩
  around_open := by
    intro q hq
    cases hq
    exact hp
  excused_of_around := fun _ _ => trivial
  fenced_of_ends := by rintro rfl; rfl

/-! ## Up to the end of the line -/

variable {l m : Level} {c c' d : Cursor} {children out : List Node}

/-- A turn ends a block only where the statement around it has found its end. -/
theorem ownerClosed_of_lineTurn (h : lineTurn l children c = .ok (.inr out, d)) :
    d.ownerClosed = true := by
  have hends : ∀ (ns : List Node) (c₁ : Cursor),
      (do if (← MonadState.get).ownerClosed then return .inr ns else return .inl ns :
        Reading (List Node ⊕ List Node)) c₁ = .ok (.inr out, d) → d.ownerClosed = true := by
    intro ns c₁ hend
    rw [get_bind_apply] at hend
    split at hend
    · next hclosed =>
      obtain ⟨-, rfl⟩ := pure_eq_ok.1 hend
      exact hclosed
    · exact absurd (pure_eq_ok.1 hend).1 (by simp)
  unfold lineTurn at h
  rw [get_bind_apply] at h
  split at h
  · obtain ⟨t, c₁, -, h⟩ := bind_eq_ok.1 h
    obtain ⟨o, c₂, -, h⟩ := bind_eq_ok.1 h
    exact hends _ c₂ h
  · obtain ⟨o, c₁, -, h⟩ := bind_eq_ok.1 h
    exact hends _ c₁ h

/-- An end on the level of the template is refused. -/
theorem blockTurn_atBlockEnd {x : (List Node ⊕ List Node) × Cursor} (hend : c.atBlockEnd = true)
    (hhead : ∀ t rest, c.tokens = t :: rest → t.kind ≠ .newline) :
    l.blockTurn false children c ≠ .ok x := by
  have hne : c.tokens.isEmpty = false := by
    cases ht : c.tokens with
    | nil => simp [Cursor.atBlockEnd, ht] at hend
    | cons t rest => rfl
  intro hok
  unfold Level.blockTurn at hok
  rw [bind_of_ok skipNewlines_apply, moveTo_dropWhile_of_head hhead, get_bind_apply] at hok
  simp only [hne, hend, Bool.false_eq_true, if_false, if_true] at hok
  obtain ⟨t, c₁, -, hok⟩ := bind_eq_ok.1 hok
  obtain ⟨u, c₂, -, hok⟩ := bind_eq_ok.1 hok
  exact failAt_ne_ok hok

/-- Behind the line alone the template is over. -/
theorem eq_of_turns_lineEnd {fuel : Nat} {v : Token} (hv : c.tokens = [v])
    (hline : v.kind = .newline) (hok : turns (l.blockTurn false) fuel children c = .ok (out, d)) :
    out = children := by
  cases fuel with
  | zero => exact absurd hok fail_ne_ok
  | succ fuel =>
    have hturn : l.blockTurn false children c = .ok (.inr children, c.moveTo []) := by
      unfold Level.blockTurn
      rw [bind_of_ok skipNewlines_apply, hv, List.dropWhile_cons_of_pos (by simp [hline]),
        get_bind_apply]
      rfl
    rw [turns, bind_of_ok hturn] at hok
    exact (pure_eq_ok.1 hok).1

/-- What a block does behind the parts of a line. -/
def afterLine (m : Level) (fuel : Nat) (children : List Node) (parts : List Part) :
    Reading (List Node) := do
  let children := (lineOf .content parts).toList ++ children
  if (← get).ownerClosed then return children else turns (m.blockTurn true) fuel children

theorem bind_congr_apply {α β : Type} {r s : Reading α} {f : α → Reading β} (h : r c = s c') :
    (r >>= f) c = (s >>= f) c' := by
  cases hr : r c with
  | error e => rw [bind_of_error hr, bind_of_error (h ▸ hr)]
  | ok x => rw [bind_of_ok hr, bind_of_ok (h ▸ hr)]

/-- A turn of a block that is a line of content. -/
theorem turns_of_content {fuel : Nat} (hstatement : c.atStatement = false)
    (hturn : m.blockTurn true children c = lineTurn m children c) :
    turns (m.blockTurn true) (fuel + 1) children c =
      (loop m.contentTurn [] >>= afterLine m fuel children) c := by
  rw [turns]
  cases hloop : loop m.contentTurn [] c with
  | error e =>
    have hline : lineTurn m children c = .error e := by
      unfold lineTurn
      rw [get_bind_apply]
      simp only [hstatement, Bool.false_eq_true, if_false, content_eq]
      exact bind_of_error (bind_of_error hloop)
    rw [bind_of_error (hturn.trans hline), bind_of_error hloop]
  | ok x =>
    obtain ⟨parts, c₁⟩ := x
    have hline := hturn.trans (lineTurn_of_content hstatement hloop)
    rw [bind_of_ok hline, bind_of_ok hloop, afterLine, get_bind_apply]
    cases c₁.ownerClosed <;> rfl

/-- Where the line is over that a block holds: the block goes on behind it, or a line of content
does. -/
inductive Reaches (m : Level) (p : Pending) (tail : List Token) (ends : Bool) (out : List Node)
    (r : Except SyntaxError (List Node × Cursor)) : Prop
  | block {c : Cursor} {fuel : Nat} : c.tokens = tail → c.pending = [p] →
      r = turns (m.blockTurn true) (fuel + 1) out c → Reaches m p tail ends out r
  | line {c : Cursor} {fuel fuel' : Nat} {parts : List Part} {children : List Node} :
      ends = false → c.tokens = tail → c.pending = [p] →
      c.tokens.head?.map Token.kind = some .mark →
      out = (lineOf .content parts).toList ++ children →
      r = (turns m.contentTurn (fuel + 1) parts >>= afterLine m fuel' children) c →
        Reaches m p tail ends out r

/-- Where the line alone ends in its last line of content, it is over, and the block goes on with
this line. -/
theorem Reaches.of_strays {hp : p.closed = false} {htail : GoesOn ends tail} {n : ℕ × ℕ}
    {fuel fuel' : Nat} (hstatement : c.atStatement = false) (hstatement' : c'.atStatement = false)
    (hleft : l.blockTurn false children c = lineTurn l children c)
    (hright : m.blockTurn true children c' = lineTurn m children c')
    (hstray : (inside longest p hp ends htail).Strays m [] n (loop l.contentTurn [])
      (loop m.contentTurn []) c c')
    (hok : turns (l.blockTurn false) (fuel + 1) children c = .ok (out, d)) :
    Reaches m p tail ends out (turns (m.blockTurn true) (fuel' + 1) children c') := by
  obtain ⟨hends, parts, c₁, c₁', j, hat, hc₁, hl, hr⟩ := hstray
  obtain ⟨⟨v, hv, hline⟩, -, -⟩ := hc₁.of_tail hat
  have hopen : c₁.ownerClosed = false := by rw [Cursor.ownerClosed, hc₁.pending_nil.1]
  have hturn := hleft.trans (lineTurn_of_content hstatement hl)
  rw [hopen] at hturn
  rw [turns, bind_of_ok hturn] at hok
  have hout : out = (lineOf .content parts).toList ++ children := eq_of_turns_lineEnd hv hline hok
  -- the words of the line are used up on both sides
  obtain ⟨ws, ws', line', hws, hws', halike, -⟩ := hc₁.beside
  obtain rfl : ws = [] := by
    have hlength := congrArg List.length (hws.symm.trans hv)
    simpa using hlength
  cases halike
  exact .line hends hws' hc₁.pending_nil.2 hat.2 hout
    ((turns_of_content hstatement' hright).trans (bind_congr_apply hr))

/-- **A block is read like its line alone**, up to the end of the line. -/
theorem turns_inside {hp : p.closed = false} {htail : GoesOn ends tail}
    (h : (inside longest p hp ends htail).Levels l m) {fuel fuel' : Nat}
    (hc : (inside longest p hp ends htail).Abreast [] (fuel, fuel') c c')
    (hok : turns (l.blockTurn false) fuel children c = .ok (out, d)) :
    Reaches m p tail ends out (turns (m.blockTurn true) fuel' children c') := by
  induction fuel generalizing fuel' c c' children with
  | zero => exact absurd hc.length (Nat.not_lt_zero _)
  | succ fuel ih =>
    obtain ⟨fuel', rfl⟩ : ∃ k, fuel' = k + 1 := by
      have hlength : c'.tokens.length < fuel' := hc.length'
      exact ⟨fuel' - 1, by omega⟩
    obtain ⟨words, words', line, hts, hus, halike, hwords, hstrings⟩ := hc.beside
    cases halike with
    | nil =>
      obtain rfl := eq_of_turns_lineEnd hts rfl hok
      exact .block hus hc.pending_nil.2 rfl
    | @cons t u ts us hhead halike =>
      have htokens : c.tokens = t :: (ts ++ [Token.lineEnd line]) := hts
      have htokens' : c'.tokens = u :: (us ++ tail) := hus
      have hfirst : ∀ v rest, c.tokens = v :: rest → v.kind ≠ .newline := by
        intro v rest hv
        rw [htokens] at hv
        exact (List.cons.inj hv).1 ▸ (hwords t List.mem_cons_self).1
      cases hend : c.atBlockEnd with
      | true =>
        rw [turns] at hok
        obtain ⟨x, c₁, hturn, -⟩ := bind_eq_ok.1 hok
        exact absurd hturn (blockTurn_atBlockEnd hend hfirst)
      | false =>
        have hend' : c'.atBlockEnd = false :=
          (hc.atBlockEnd_eq (not_atTail hfirst)).symm.trans hend
        have hleft := blockTurn_of_part l false children (by simp [htokens]) hfirst hend
        have hright := blockTurn_of_part m true children (by simp [htokens'])
          (hc.head_ne_newline hfirst) hend'
        have hstep : ((inside longest p hp ends htail).Abreast [] ((fuel, fuel') + 1) c c') := hc
        rcases lineTurn_or h (by simp [Pending.AllOpen]) hstep (by simp [htokens]) hfirst hend
          children with htied | ⟨hstatement, hstatement', hstray⟩
        · rw [turns] at hok
          obtain ⟨x, c₁, hturn, hok⟩ := bind_eq_ok.1 hok
          rw [hleft] at hturn
          obtain ⟨c₁', hturn', hx⟩ := htied.1 x c₁ hturn
          rw [turns, bind_of_ok (hright.trans hturn')]
          cases x with
          | inl children' => exact ih hx hok
          | inr children' =>
            -- no statement waits for the line alone, and so none has found its end
            have hclosed := ownerClosed_of_lineTurn hturn
            obtain ⟨qs, hqs, hc₁⟩ := hx
            obtain rfl : qs = [] := by
              rcases hqs with hqs | ⟨_, _, _, hnil, -⟩
              · exact hqs
              · cases hnil
            rw [Cursor.ownerClosed, hc₁.pending_nil.1] at hclosed
            cases hclosed
        · exact .of_strays hstatement hstatement' hleft hright hstray hok

/-- Behind a newline a block goes on as in front of it. -/
theorem blockTurn_newline {t : Token} {rest : List Token} (ht : c.tokens = t :: rest)
    (hline : t.kind = .newline) :
    m.blockTurn true children c = m.blockTurn true children (c.moveTo rest) := by
  rw [blockTurn_skip, blockTurn_skip m true children (c.moveTo rest), ht,
    List.dropWhile_cons_of_pos (by simp [hline])]
  rfl

/-- The same for a block from its start, which may stand in the next line. -/
theorem loop_inside {hp : p.closed = false} {htail : GoesOn ends tail}
    (h : (inside longest p hp ends htail).Levels l m) {words words' sep : List Token} {line : Nat}
    (hsep : sep = [] ∨ ∃ line, sep = [Token.lineEnd line])
    (hc : c.tokens = words ++ [.lineEnd line]) (hc' : c'.tokens = sep ++ (words' ++ tail))
    (halike : List.Forall₂ Token.Alike words words')
    (hwords : OneLine words) (hstrings : ∀ t ∈ words, t.kind = .string → t.text.length < longest)
    (hpending : c.pending = []) (hpending' : c'.pending = [p]) {ns : List Node}
    (hok : l.blockOf false c = .ok (.block ns, d)) :
    Reaches m p tail ends ns.reverse (loop (m.blockTurn true) [] c') := by
  rw [Level.blockOf] at hok
  obtain ⟨out, c₁, hloop, hok⟩ := bind_eq_ok.1 hok
  obtain ⟨hns, -⟩ := pure_eq_ok.1 hok
  obtain rfl : ns.reverse = out := by
    rw [Node.block.inj hns, List.reverse_reverse]
  have hbeside : Line longest tail c.tokens (words' ++ tail) :=
    ⟨words, words', line, hc, rfl, halike, hwords, hstrings⟩
  have hwaiting : ∃ qs, (inside longest p hp ends htail).Keeps [] qs ∧ c.pending = qs ∧
      c'.pending = qs ++ [p] := ⟨[], .refl [], hpending, hpending'⟩
  rcases hsep with rfl | ⟨line', rfl⟩
  · refine turns_inside h ⟨?_, hwaiting, Nat.lt_succ_self _, Nat.lt_succ_self _⟩ hloop
    rw [hc']
    exact hbeside
  · have hskip : loop (m.blockTurn true) [] c' =
        turns (m.blockTurn true) (c'.tokens.length + 1) [] (c'.moveTo (words' ++ tail)) := by
      rw [loop, turns]
      exact bind_congr_apply (blockTurn_newline hc' rfl)
    rw [hskip]
    refine turns_inside h ⟨hbeside, hwaiting, Nat.lt_succ_self _, ?_⟩ hloop
    rw [hc']
    simp

/-! ## Behind the end of the line -/

/-- The end of the block comes next. -/
theorem Reaches.to_end {r : Except SyntaxError (List Node × Cursor)} {line line' : Nat}
    {rest : List Token} (h : Reaches m p tail true out r)
    (htail : (tail.dropWhile fun t => t.kind == .newline) =
      ⟨.mark, "@", line⟩ :: ⟨.keyword, "end", line'⟩ :: rest) :
    ∃ c₁, r = .ok (out, c₁) ∧ c₁.tokens = rest ∧ c₁.pending = [p] := by
  cases h with
  | line hfalse => cases hfalse
  | @block c fuel htokens hpending hr =>
    have hturn : m.blockTurn true out c = .ok (.inr out, c.moveTo rest) := by
      unfold Level.blockTurn
      rw [bind_of_ok skipNewlines_apply, htokens, htail, get_bind_apply]
      rfl
    refine ⟨c.moveTo rest, ?_, rfl, hpending⟩
    rw [hr, turns, bind_of_ok hturn]
    rfl

/-- A branch comes next, which closes the statement around the block. -/
theorem Reaches.to_branch {r : Except SyntaxError (List Node × Cursor)} {line : Nat} {u : Token}
    {rest : List Token} {Q : Cursor → Prop} (h : Reaches m p tail ends out r)
    (htail : (tail.dropWhile fun t => t.kind == .newline) = ⟨.mark, "@", line⟩ :: u :: rest)
    (hu : u.kind = .keyword) (hend : u.text ≠ "end")
    (hbranch : ∀ c : Cursor, c.tokens = u :: rest → c.pending = [p] →
      ∃ c₁, m.expression 0 c = .ok (none, c₁) ∧ c₁.ownerClosed = true ∧ Q c₁) :
    ∃ c₁, r = .ok (out, c₁) ∧ Q c₁ := by
  -- neither the end of a block nor, at a statement, a line of content
  have hnoend : ∀ c : Cursor, c.tokens = ⟨.mark, "@", line⟩ :: u :: rest →
      c.atBlockEnd = false := by
    intro c hc
    simp [Cursor.atBlockEnd, hc, Token.is, hend]
  have hstatement : ∀ c : Cursor, c.tokens = ⟨.mark, "@", line⟩ :: u :: rest →
      c.atStatement = true := by
    intro c hc
    simp [Cursor.atStatement, hc, hu, hend]
  cases h with
  | @block c fuel htokens hpending hr =>
    obtain ⟨c₁, hexpr, hclosed, hq⟩ := hbranch (c.moveTo (u :: rest)) rfl hpending
    refine ⟨c₁, ?_, hq⟩
    have hturn : m.blockTurn true out c = .ok (.inr out, c₁) := by
      unfold Level.blockTurn
      have hempty : (⟨.mark, "@", line⟩ :: u :: rest : List Token).isEmpty = false := rfl
      rw [bind_of_ok skipNewlines_apply, htokens, htail, get_bind_apply, Cursor.moveTo_tokens,
        hempty]
      simp only [hnoend (c.moveTo _) rfl, hstatement (c.moveTo _) rfl, Bool.false_eq_true,
        if_false, if_true]
      rw [bind_of_ok (advance_of_cons rfl), Cursor.moveTo_moveTo, bind_of_ok hexpr, get_bind_apply]
      simp only [hclosed, if_true]
      rfl
    rw [hr, turns, bind_of_ok hturn]
    rfl
  | @line c fuel fuel' parts children hends htokens hpending hmark hout hr =>
    obtain ⟨c₁, hexpr, hclosed, hq⟩ := hbranch (c.moveTo (u :: rest)) rfl hpending
    refine ⟨c₁, ?_, hq⟩
    have hc : c.tokens = ⟨.mark, "@", line⟩ :: u :: rest := by
      rw [← htail, htokens]
      cases htail' : tail with
      | nil => rfl
      | cons t ts =>
        have hkind : t.kind = .mark := by
          rw [htokens, htail'] at hmark
          exact Option.some.inj hmark
        rw [List.dropWhile_cons_of_neg (by simp [hkind])]
    have hturn : m.contentTurn parts c = .ok (.inr parts, c₁) := by
      have hline : c.atLineEnd = false := by simp [Cursor.atLineEnd, hc]
      rw [Level.contentTurn, get_bind_apply, hline, hnoend c hc]
      simp only [Bool.or_false, Bool.false_eq_true, if_false]
      rw [bind_of_ok (advance_of_cons hc)]
      simp only [beq_self_eq_true, if_true]
      rw [bind_of_ok hexpr, get_bind_apply]
      simp only [hclosed, if_true]
      rfl
    have hturns : turns m.contentTurn (fuel + 1) parts c = .ok (parts, c₁) := by
      rw [turns, bind_of_ok hturn]
      rfl
    rw [hr, bind_of_ok hturns, afterLine, get_bind_apply, hclosed, hout]
    rfl

end Lockstep

/-! ## The statement around the blocks -/

namespace Dialect

open Grammar

variable {d : Dialect} {A : String → Nat → Except SyntaxError Node} {k line : Nat}
variable {c c₁ : Cursor} {rest : List Token} {body : Node} {p q : Pending} {ps : List Pending}

/-- The word `if` with a test, a block and the branches that the block has found. -/
theorem expression_if (hd : d.grammar = .standard) {test : Node} (htest : Expression test)
    (hlen : (test.operand line).length ≤ k) (hc : c.tokens =
      ⟨.keyword, "if", line⟩ :: (test.operand line ++ .delimiter line ":" :: rest))
    (hblock : (d.levels A k).block true ((c.moveTo rest).withPending (.new .choice :: c.pending)) =
      .ok (body, c₁)) (hp : c₁.pending = p :: ps) (hstops : standard.Stops 0 c₁.tokens) :
    (d.levels A (k + 1)).expression 0 c =
      .ok (some (.choice (.mk (some test) body :: p.branches)), c₁.withPending ps) := by
  have hs : standard.symbol? (⟨.keyword, "if", line⟩ : Token) =
      some ⟨.keyword, 0, some Statement.choice, none⟩ := symbol?_standard rfl
  have hread : (d.levels A k).expression 0
      (c.moveTo (test.operand line ++ .delimiter line ":" :: rest)) =
      .ok (some test, c.moveTo (.delimiter line ":" :: rest)) :=
    expression_of_operand hd htest (readsBack_of_expression hd htest) hlen rfl
      (stops_delimiter rfl)
  have hheader : Statement.header (d.levels A k) "if 条件"
      (c.moveTo (test.operand line ++ .delimiter line ":" :: rest)) =
      .ok (test, c.moveTo rest) := by
    rw [Statement.header, bind_of_ok (Level.require_of_ok hread),
      bind_of_ok (expect_of_cons rfl Token.is_delimiter)]
    rfl
  have hstart : d.grammar.start (d.levels A k) ⟨.keyword, "if", line⟩
      (c.moveTo (test.operand line ++ .delimiter line ":" :: rest)) =
      .ok (some (.choice (.mk (some test) body :: p.branches)), c₁.withPending ps) := by
    rw [hd, start_of_symbol? hs rfl, Statement.choice, bind_of_ok hheader,
      bind_of_ok (await_apply .choice), Cursor.moveTo_pending, bind_of_ok hblock,
      bind_of_ok (settle?_of_cons hp)]
    rfl
  rw [expression_levels_succ, expressionOf_of_start hc hstart, hd]
  exact extend_stop hstops

/-- The word `else` without a test. Its block is one more branch of the statement that waits, which
has found its end with it. -/
theorem expression_else (hd : d.grammar = .standard) (hopen : p.otherwise = false)
    (hc : c.tokens = ⟨.keyword, "else", line⟩ :: .delimiter line ":" :: rest)
    (hp : c.pending = p :: ps)
    (hblock : (d.levels A k).block true
      ((c.moveTo rest).withPending ({ p with otherwise := true } :: ps)) = .ok (body, c₁))
    (hq : c₁.pending = q :: ps) (hstops : standard.Stops 0 c₁.tokens) :
    (d.levels A (k + 1)).expression 0 c = .ok (none, c₁.withPending
      ({ q with branches := .mk none body :: q.branches, closed := true } :: ps)) := by
  have hs : standard.symbol? (⟨.keyword, "else", line⟩ : Token) =
      some ⟨.keyword, 0, some Statement.branch, none⟩ := symbol?_standard rfl
  -- without an `if` behind it, an `else` has no test, and the `if` around it is marked
  have htest : Statement.branchTest (d.levels A k) ⟨.keyword, "else", line⟩ p
      (c.moveTo (.delimiter line ":" :: rest)) =
      .ok (none, (c.moveTo rest).withPending ({ p with otherwise := true } :: ps)) := by
    have hif : (c.moveTo (.delimiter line ":" :: rest)).at? .keyword "if" = false := rfl
    rw [Statement.branchTest, get_bind_apply]
    simp only [hif, Bool.false_eq_true, if_false]
    rw [bind_of_ok (expect_of_cons rfl Token.is_delimiter), Cursor.moveTo_moveTo,
      bind_of_ok (amend_of_cons (c := c.moveTo rest) hp)]
    rfl
  have howner : owner? (c.moveTo (.delimiter line ":" :: rest)) =
      .ok (some p, c.moveTo (.delimiter line ":" :: rest)) :=
    owner?_eq_ok.2 ⟨by simp [hp], rfl⟩
  have howner' : owner? c₁ = .ok (some q, c₁) := owner?_eq_ok.2 ⟨by simp [hq], rfl⟩
  -- the branch is recorded with the statement that waits behind the block, and leaves no node
  have hstart : d.grammar.start (d.levels A k) ⟨.keyword, "else", line⟩
      (c.moveTo (.delimiter line ":" :: rest)) = .ok (none, c₁.withPending
        ({ q with branches := .mk none body :: q.branches, closed := true } :: ps)) := by
    rw [hd, start_of_symbol? hs rfl, Statement.branch, bind_of_ok howner]
    simp only [hopen, Bool.false_eq_true, if_false]
    rw [bind_of_ok htest, bind_of_ok hblock, bind_of_ok howner']
    simp only [Option.isNone_some, Bool.false_eq_true, if_false]
    rw [bind_of_ok (amend_of_cons hq)]
    rfl
  rw [expression_levels_succ, expressionOf_of_start hc hstart, hd]
  exact extend_stop hstops

/-- A template that is one statement in one line. -/
theorem parse_of_statement {ts : List Token} {u : Token} {n : Node} {line' : Nat}
    (hts : (Cursor.ofTokens ts).tokens = ⟨.mark, "@", line⟩ :: u :: rest)
    (hu : u.kind = .keyword) (hend : u.text ≠ "end") (hk : d.maxDepth = k + 1)
    (hread : (d.levels (d.attributeText (longestText ts + 1)) k).expression 0
      ((Cursor.ofTokens ts).moveTo (u :: rest)) = .ok (some n, c₁))
    (htokens : c₁.tokens = [.lineEnd line']) (hpending : c₁.pending = []) :
    d.parse ts = .ok (.block [n]) := by
  obtain ⟨l, hl⟩ : ∃ l, l = d.levels (d.attributeText (longestText ts + 1)) k := ⟨_, rfl⟩
  -- the first turn of the block reads the statement, the second one sees the end
  have hturn : l.blockTurn false [] (Cursor.ofTokens ts) = .ok (.inl [n], c₁) := by
    have hend' : (Cursor.ofTokens ts).atBlockEnd = false := by
      simp [Cursor.atBlockEnd, hts, Token.is, hend]
    have hstatement : (Cursor.ofTokens ts).atStatement = true := by
      simp [Cursor.atStatement, hts, hu, hend]
    have hopen : c₁.ownerClosed = false := by simp [Cursor.ownerClosed, hpending]
    rw [Lockstep.blockTurn_of_part l false [] (by simp [hts]) (by simp [hts]) hend',
      Lockstep.lineTurn, get_bind_apply]
    simp only [hstatement, if_true]
    rw [bind_of_ok (advance_of_cons hts), hl, bind_of_ok hread, get_bind_apply]
    simp only [hopen, Bool.false_eq_true, if_false]
    rfl
  have hdone : l.blockTurn false [n] c₁ = .ok (.inr [n], c₁.moveTo []) := by
    unfold Level.blockTurn
    rw [bind_of_ok skipNewlines_apply, htokens, get_bind_apply]
    rfl
  have hloop : loop (l.blockTurn false) [] (Cursor.ofTokens ts) = .ok ([n], c₁.moveTo []) := by
    refine loop_next hturn ?_ (loop_stop hdone)
    simp [htokens, hts]
  have hblock : (d.top ts).block false (Cursor.ofTokens ts) = .ok (.block [n], c₁.moveTo []) := by
    rw [top, hk, block_levels_succ, ← hl, Level.blockOf, bind_of_ok hloop]
    rfl
  rw [parse, read, hblock]
  rfl

/-! ## Fenced lines -/

/-- The standard dialect with other rules for `elem` and `elex`. -/
def withElements (d : Dialect) (onElem onElex : PrefixRule) : Dialect :=
  { d with grammar := .withElements onElem onElex }

/-- The dialect where an `else` must not close the statement around an element in its block, and
where no element may end with its line. -/
def fencedLine (d : Dialect) : Dialect :=
  d.withElements (Statement.fencedElement false) Statement.fencedText

/-- The template of a list of tokens, if its elements keep their place. A string in an attribute has
an end of its own, where an element may end. -/
def parseFenced (d : Dialect) (ts : List Token) : Except SyntaxError Node :=
  ((d.fencedLine.levels (d.attributeText (longestText ts + 1)) d.maxDepth).block false
    (Cursor.ofTokens ts)).map Prod.fst

variable {d' : Dialect} {onElem onElex : PrefixRule}

/-- With its own rules the dialect is the standard one. -/
theorem withElements_eq_self (hd : d.grammar = .standard) :
    d.withElements Statement.element Statement.elementText = d := by
  rw [withElements, ← grammar_eq_withElements hd]

/-- A dialect with the strings of the standard one keeps step with higher levels. -/
theorem levels_deepened {S : Lockstep} (hd : d.grammar = .standard) (hd' : d'.grammar = .standard)
    (hm : d'.modifier? = d.modifier?) (hlt : d.maxDepth < d'.maxDepth)
    (helem : S.KeepsStep onElem Statement.element)
    (helex : S.KeepsStep onElex Statement.elementText)
    (hdeep : ∀ line, S.Excused ⟨line, .tooDeep d.maxDepth⟩) {budget budget' : Nat}
    (hbudget : S.longest ≤ budget) (hbudget' : S.longest ≤ budget') {j : Nat} (hkj : k < j) :
    S.Levels ((d.withElements onElem onElex).levels (d.attributeText budget) k)
      (d'.levels (d'.attributeText budget') j) := by
  obtain ⟨extra, rfl⟩ : ∃ extra, j = extra + 1 + k := ⟨j - k - 1, by omega⟩
  refine Lockstep.levels_tied (d := d.withElements onElem onElex) rfl hd' hm helem helex
    (Or.inr hdeep) (fun _ => Nat.succ_pos extra) (fun line line' hshort => ?_) k
  exact Lockstep.attributeText_agree (grammar_eq_withElements hd) hd' hm
    (fun _ => element_keepsStep rfl) (fun _ => elementText_keepsStep rfl)
    (Or.inr ⟨hlt.le, hdeep⟩) line line'
    (hshort.trans_le hbudget) (hshort.trans_le hbudget')

/-- With a higher limit of nesting a template is the same. -/
theorem parse_withDepth_of_ok (hd : d.grammar = .standard) {limit : Nat} (hle : d.maxDepth ≤ limit)
    {ts : List Token} {n : Node} (h : d.parse ts = .ok n) :
    (d.withDepth limit).parse ts = .ok n := by
  have hv : d.grammar.vocabulary = (d.withDepth limit).grammar.vocabulary := rfl
  rcases parse_upTo hv (fun _ _ hA => levels_upTo_withDepth hd hle hA) ts with hsame | ⟨e, -, he⟩
  · exact hsame.symm.trans h
  · rw [h] at he
    cases he

/-- The fenced reading of a template gives this template. -/
theorem eq_of_parseFenced (hd : d.grammar = .standard) {ts : List Token} {n m : Node}
    (h : d.parse ts = .ok n) (hfenced : d.parseFenced ts = .ok m) : m = n := by
  -- all faults but a block without end are excused, which suffices where the fenced reading
  -- succeeds
  let S : Lockstep := .same (fun e => e.fault ≠ .unclosedBlock) (longestText ts + 1)
  have hlost : ∀ line, S.Excused ⟨line, .lostElseOwner⟩ := fun _ => SyntaxFault.noConfusion
  have hm : d.modifier? = d.fencedLine.modifier? := by simp only [fencedLine, withElements]
  have hdepth : d.maxDepth = d.fencedLine.maxDepth := by simp only [fencedLine, withElements]
  have hlevels : ∀ k, S.Levels (d.fencedLine.levels (d.attributeText (longestText ts + 1)) k)
      (d.levels (d.attributeText (longestText ts + 1)) k) :=
    Lockstep.same_levels (d := d.fencedLine) rfl hd hm hdepth
      (fencedElement_keepsStep hlost (Or.inl rfl)) (fencedText_keepsStep hlost)
      fun _ line line' hshort =>
        Lockstep.attributeText_agree (grammar_eq_withElements hd) hd rfl
          (fun _ => element_keepsStep rfl) (fun _ => elementText_keepsStep rfl) (Or.inl rfl)
          line line' hshort hshort
  have hagree : Lockstep.Agree S.Excused Eq (d.parseFenced ts) (d.parse ts) := by
    have hsame : List.Forall₂ Token.Alike ts ts := List.forall₂_same.2 fun t _ => .refl t
    have hstrings : ∀ t ∈ ts, t.kind = .string → t.text.length < longestText ts + 1 :=
      fun t ht _ => Nat.lt_succ_of_le (le_longestText ht)
    rw [parse, read, top, parseFenced]
    cases d.maxDepth with
    | zero => exact .error (congrArg SyntaxFault.tooDeep hdepth)
    | succ k =>
      exact Lockstep.blockOf_agree hsame hstrings (hlevels k)
        ⟨⟨0, .unclosedBlock⟩, fun hne => hne rfl⟩
  obtain ⟨n', hn', rfl⟩ := hagree.1 m hfenced
  exact Except.ok.inj (hn'.symm.trans h)

/-! ## Blocks of one line -/

/-- A line of words as a template of its own. -/
def alone (line : Nat) (words : List Token) : List Token :=
  Lexer.close line (words ++ [.lineEnd line])

theorem ofTokens_close {first : Nat} {ts : List Token} (h : ∀ t ∈ ts, t.kind ≠ .stop) :
    (Cursor.ofTokens (Lexer.close first ts)).tokens = ts := by
  rw [Cursor.ofTokens, Lexer.close, List.takeWhile_append_of_pos fun t ht => by simpa using h t ht]
  simp

/-- A line that is a template of its own is read in a block of a statement, up to its end. -/
theorem reaches_of_alone (hd : d.grammar = .standard) {words words' gap tail : List Token}
    (hwords : OneLine words) {ends : Bool} (htail : GoesOn ends tail) (hp : p.closed = false)
    (helem : ∀ longest, (Lockstep.inside longest p hp ends htail).KeepsStep onElem
      Statement.element)
    (helex : ∀ longest, (Lockstep.inside longest p hp ends htail).KeepsStep onElex
      Statement.elementText) {n : Node}
    (hread : ((d.withElements onElem onElex).levels
      (d.attributeText (longestText (alone line words) + 1)) d.maxDepth).block false
        (Cursor.ofTokens (alone line words)) = .ok (n, c₁))
    (halike : List.Forall₂ Token.Alike words words')
    (hgap : gap = [] ∨ ∃ line, gap = [.lineEnd line]) (hd' : d'.grammar = .standard)
    (hm : d'.modifier? = d.modifier?) (hlt : d.maxDepth < d'.maxDepth) {budget : Nat}
    (hbudget : ∀ t ∈ words, t.text.length < budget) {j : Nat} (hj : d.maxDepth ≤ j)
    (hc : c.tokens = gap ++ (words' ++ tail)) (hpending : c.pending = [p]) :
    ∃ ns, n = .block ns ∧ Lockstep.Reaches (d'.levels (d'.attributeText budget) j) p tail ends
      ns.reverse (loop ((d'.levels (d'.attributeText budget) j).blockTurn true) [] c) := by
  have hnostop : ∀ t ∈ words ++ [Token.lineEnd line], t.kind ≠ .stop := by
    intro t ht
    rcases List.mem_append.1 ht with ht | ht
    · exact (hwords t ht).2.1
    · rw [List.mem_singleton.1 ht]
      exact TokenKind.noConfusion
  cases hdepth : d.maxDepth with
  | zero =>
    rw [hdepth] at hread
    cases hread
  | succ k =>
    rw [hdepth, block_levels_succ] at hread
    obtain ⟨out, c₂, -, hout⟩ := bind_eq_ok.1 hread
    obtain ⟨rfl, -⟩ := pure_eq_ok.1 hout
    refine ⟨out.reverse, rfl, ?_⟩
    have hlevels := levels_deepened hd hd' hm hlt
      (helem (min (longestText (alone line words) + 1) budget)) (helex _) (fun _ => trivial)
      (min_le_left _ _) (min_le_right _ _) (show k < j by omega)
    refine Lockstep.loop_inside hlevels hgap (ofTokens_close hnostop) hc halike hwords
      (fun t ht _ => ?_) rfl hpending hread
    refine lt_min (Nat.lt_succ_of_le (le_longestText ?_)) (hbudget t ht)
    exact List.mem_append_left _ (List.mem_append_left _ ht)

/-- A line in front of the end of a block. -/
theorem reaches_end_of_alone (hd : d.grammar = .standard) {words words' gap tail : List Token}
    (hwords : OneLine words) {n : Node} (hn : d.parse (alone line words) = .ok n)
    (halike : List.Forall₂ Token.Alike words words') (htail : GoesOn true tail)
    (hgap : gap = [] ∨ ∃ line, gap = [.lineEnd line]) (hd' : d'.grammar = .standard)
    (hm : d'.modifier? = d.modifier?) (hlt : d.maxDepth < d'.maxDepth) {budget : Nat}
    (hbudget : ∀ t ∈ words, t.text.length < budget) {j : Nat} (hj : d.maxDepth ≤ j)
    (hp : p.closed = false) (hc : c.tokens = gap ++ (words' ++ tail)) (hpending : c.pending = [p]) :
    ∃ ns, n = .block ns ∧ Lockstep.Reaches (d'.levels (d'.attributeText budget) j) p tail true
      ns.reverse (loop ((d'.levels (d'.attributeText budget) j).blockTurn true) [] c) := by
  obtain ⟨c₁, hread⟩ := parse_eq_ok.1 hn
  have hread' : ((d.withElements Statement.element Statement.elementText).levels
      (d.attributeText (longestText (alone line words) + 1)) d.maxDepth).block false
        (Cursor.ofTokens (alone line words)) = .ok (n, c₁) := by
    rw [withElements_eq_self hd]
    exact hread
  exact reaches_of_alone hd hwords htail hp (fun _ => element_keepsStep rfl)
    (fun _ => elementText_keepsStep rfl) hread' halike hgap hd' hm hlt hbudget hj hc hpending

/-- A fenced line in front of anything that a mark or a newline opens. -/
theorem reaches_of_parseFenced (hd : d.grammar = .standard) {words words' gap tail : List Token}
    (hwords : OneLine words) {n : Node} (hn : d.parseFenced (alone line words) = .ok n)
    (halike : List.Forall₂ Token.Alike words words') {ends : Bool} (htail : GoesOn ends tail)
    (hgap : gap = [] ∨ ∃ line, gap = [.lineEnd line]) (hd' : d'.grammar = .standard)
    (hm : d'.modifier? = d.modifier?) (hlt : d.maxDepth < d'.maxDepth) {budget : Nat}
    (hbudget : ∀ t ∈ words, t.text.length < budget) {j : Nat} (hj : d.maxDepth ≤ j)
    (hp : p.closed = false) (hc : c.tokens = gap ++ (words' ++ tail)) (hpending : c.pending = [p]) :
    ∃ ns, n = .block ns ∧ Lockstep.Reaches (d'.levels (d'.attributeText budget) j) p tail ends
      ns.reverse (loop ((d'.levels (d'.attributeText budget) j).blockTurn true) [] c) := by
  unfold parseFenced at hn
  cases hread : (d.fencedLine.levels (d.attributeText (longestText (alone line words) + 1))
      d.maxDepth).block false (Cursor.ofTokens (alone line words)) with
  | error e =>
    rw [hread] at hn
    cases hn
  | ok x =>
    rw [hread] at hn
    cases hn
    exact reaches_of_alone hd hwords htail hp
      (fun _ => fencedElement_keepsStep (fun _ => trivial) (Or.inr rfl))
      (fun _ => fencedText_keepsStep fun _ => trivial) hread halike hgap hd' hm hlt hbudget hj hc
      hpending

end Dialect

/-! ## Two layouts -/

/-- The same token in another line. -/
def Token.inLine (line : Nat) (t : Token) : Token :=
  { t with line }

/-- How a choice is laid out: in one line, or with a new line behind every colon and block. -/
inductive Layout
  | oneLine
  | ownLines

namespace Layout

/-- The line of a part of the choice, counted from the first one. -/
def line (first part : Nat) : Layout → Nat
  | oneLine => first
  | ownLines => first + part

/-- What stands between a part of the choice and the next one. -/
def gap (first part : Nat) : Layout → List Token
  | oneLine => []
  | ownLines => [.lineEnd (first + part)]

/-- The end of a choice. -/
def ending (lay : Layout) (first : Nat) : List Token :=
  lay.gap first 3 ++ [⟨.mark, "@", lay.line first 4⟩, ⟨.keyword, "end", lay.line first 4⟩,
    .lineEnd (lay.line first 4)]

/-- The branch without a test, up to the end of the choice. -/
def otherwise (lay : Layout) (first : Nat) (words : List Token) : List Token :=
  lay.gap first 1 ++ ⟨.mark, "@", lay.line first 2⟩ :: ⟨.keyword, "else", lay.line first 2⟩ ::
    .delimiter (lay.line first 2) ":" :: (lay.gap first 2 ++
      (words.map (Token.inLine (lay.line first 3)) ++ lay.ending first))

/-- A choice with a test and two blocks that are a line of words each. -/
def choice (lay : Layout) (first : Nat) (test : Node) (words words' : List Token) : List Token :=
  ⟨.mark, "@", first⟩ :: ⟨.keyword, "if", first⟩ :: (test.operand first ++
    .delimiter first ":" :: (lay.gap first 0 ++
      (words.map (Token.inLine (lay.line first 1)) ++ lay.otherwise first words')))

variable {lay : Layout} {first part : Nat} {rest words : List Token}

theorem gap_or : lay.gap first part = [] ∨ ∃ line, lay.gap first part = [.lineEnd line] := by
  cases lay with
  | oneLine => exact Or.inl rfl
  | ownLines => exact Or.inr ⟨first + part, rfl⟩

theorem dropWhile_gap {t : Token} (ht : t.kind ≠ .newline) :
    (lay.gap first part ++ t :: rest).dropWhile (fun t => t.kind == .newline) = t :: rest := by
  have hgap : lay.gap first part = [] ∨ ∃ line, lay.gap first part = [.lineEnd line] := gap_or
  rcases hgap with h | ⟨line, h⟩
  · rw [h, List.nil_append, List.dropWhile_cons_of_neg (by simpa using ht)]
  · rw [h, List.singleton_append, List.dropWhile_cons_of_pos rfl,
      List.dropWhile_cons_of_neg (by simpa using ht)]

theorem goesOn_ending (lay : Layout) (first : Nat) : GoesOn true (lay.ending first) := by
  cases lay with
  | ownLines => exact .line
  | oneLine =>
    refine .mark fun c hc => ?_
    rw [Cursor.atBlockEnd, hc]
    rfl

theorem goesOn_otherwise (lay : Layout) (first : Nat) (words : List Token) :
    GoesOn false (lay.otherwise first words) := by
  cases lay with
  | ownLines => exact .line
  | oneLine =>
    refine .mark fun c hc => ?_
    rw [Cursor.atBlockEnd, hc]
    rfl

theorem alike_inLine (line : Nat) (words : List Token) :
    List.Forall₂ Token.Alike words (words.map (Token.inLine line)) :=
  List.forall₂_map_right_iff.2 (List.forall₂_same.2 fun _ _ => ⟨rfl, rfl⟩)

/-! ## The choice -/

open Grammar

variable {d d' : Dialect} {budget i : Nat} {p : Pending} {c : Cursor} {words' : List Token}
variable {n n' : Node}

/-- The branch of a choice in both layouts: its block is the line alone. -/
theorem expression_otherwise (hd : d.grammar = .standard) (hwords : OneLine words) {line : Nat}
    (hn : d.parse (Dialect.alone line words) = .ok n)
    (hd' : d'.grammar = .standard) (hm : d'.modifier? = d.modifier?)
    (hlt : d.maxDepth < d'.maxDepth) (hbudget : ∀ t ∈ words, t.text.length < budget)
    (hi : d.maxDepth ≤ i) (hopen : p.otherwise = false) (hclosed : p.closed = false)
    (hc : c.tokens = ⟨.keyword, "else", lay.line first 2⟩ ::
      .delimiter (lay.line first 2) ":" :: (lay.gap first 2 ++
        (words.map (Token.inLine (lay.line first 3)) ++ lay.ending first)))
    (hpending : c.pending = [p]) :
    ∃ c₁, (d'.levels (d'.attributeText budget) (i + 2)).expression 0 c = .ok (none, c₁) ∧
      c₁.tokens = [.lineEnd (lay.line first 4)] ∧
      c₁.pending = [⟨p.kind, .mk none n :: p.branches, true, true⟩] := by
  obtain ⟨ns, rfl, hreaches⟩ := Dialect.reaches_end_of_alone hd hwords hn
    (alike_inLine (lay.line first 3) words) (goesOn_ending lay first) gap_or hd' hm hlt hbudget hi
    (p := { p with otherwise := true }) hclosed
    (c := (c.moveTo (lay.gap first 2 ++ (words.map (Token.inLine (lay.line first 3)) ++
      lay.ending first))).withPending [{ p with otherwise := true }]) rfl rfl
  obtain ⟨c₁, hloop, htokens, hc₁⟩ := hreaches.to_end (dropWhile_gap TokenKind.noConfusion)
  have hblock : (d'.levels (d'.attributeText budget) (i + 1)).block true
      ((c.moveTo (lay.gap first 2 ++ (words.map (Token.inLine (lay.line first 3)) ++
        lay.ending first))).withPending [{ p with otherwise := true }]) = .ok (.block ns, c₁) := by
    rw [Dialect.block_levels_succ, Level.blockOf, bind_of_ok hloop, List.reverse_reverse]
    rfl
  refine ⟨_, Dialect.expression_else hd' hopen hc hpending hblock hc₁ ?_, htokens, rfl⟩
  rw [htokens, stops_cons]
  exact Or.inl rfl

/-- No token of a choice is a stop. -/
theorem kind_ne_stop {test : Node} (htest : Expression test) (hwords : OneLine words)
    (hwords' : OneLine words') : ∀ t ∈ lay.choice first test words words', t.kind ≠ .stop := by
  have hgap : ∀ part, ∀ t ∈ lay.gap first part, t.kind ≠ .stop := by
    intro part
    cases lay <;> simp [gap, Token.lineEnd]
  have htest' : ∀ t ∈ test.operand first, t.kind ≠ .stop :=
    fun t ht => (isPlain_operand htest.isPlain_print ht).1
  have hmap : ∀ (line : Nat) {ts : List Token}, OneLine ts →
      ∀ t ∈ ts.map (Token.inLine line), t.kind ≠ .stop := by
    intro line ts hts
    exact List.forall_mem_map.2 fun t ht => (hts t ht).2.1
  simp only [choice, otherwise, ending, List.forall_mem_cons, List.forall_mem_append]
  refine ⟨by simp, by simp, htest', by simp [Token.delimiter], hgap 0, hmap _ hwords, hgap 1,
    by simp, by simp, by simp [Token.delimiter], hgap 2, hmap _ hwords', hgap 3, by simp, by simp,
    by simp [Token.lineEnd], by simp⟩

/-- The words of the first block are among the tokens of a choice. -/
theorem mem_choice {test : Node} {t : Token} (ht : t ∈ words) :
    t.inLine (lay.line first 1) ∈ lay.choice first test words words' := by
  have hmap : t.inLine (lay.line first 1) ∈ words.map (Token.inLine (lay.line first 1)) :=
    List.mem_map_of_mem ht
  simp only [choice, List.mem_cons, List.mem_append, hmap, true_or, or_true]

/-- So are the words of the second one. -/
theorem mem_choice' {test : Node} {t : Token} (ht : t ∈ words') :
    t.inLine (lay.line first 3) ∈ lay.choice first test words words' := by
  have hmap : t.inLine (lay.line first 3) ∈ words'.map (Token.inLine (lay.line first 3)) :=
    List.mem_map_of_mem ht
  simp only [choice, otherwise, List.mem_cons, List.mem_append, hmap, true_or, or_true]

/-- The template in both layouts, if there is room for the blocks. -/
theorem parse_choice_of_le (hd : d.grammar = .standard) {test : Node} (htest : Expression test)
    (hwords : OneLine words) (hwords' : OneLine words') {line line' : Nat}
    (hn : d.parseFenced (Dialect.alone line words) = .ok n)
    (hn' : d.parse (Dialect.alone line' words') = .ok n')
    (hd' : d'.grammar = .standard) (hm : d'.modifier? = d.modifier?)
    (hdepth : d.maxDepth + 5 ≤ d'.maxDepth)
    (hlength : (test.operand first).length + 2 ≤ d'.maxDepth) :
    d'.parse (Lexer.close first (lay.choice first test words words')) =
      .ok (.block [.choice [.mk (some test) n, .mk none n']]) := by
  obtain ⟨i, hi⟩ : ∃ i, d'.maxDepth = i + 5 := ⟨d'.maxDepth - 5, by omega⟩
  obtain ⟨us, hus⟩ : ∃ us, us = Lexer.close first (lay.choice first test words words') := ⟨_, rfl⟩
  obtain ⟨A, hA⟩ : ∃ A, A = d'.attributeText (Dialect.longestText us + 1) := ⟨_, rfl⟩
  have htokens : (Cursor.ofTokens us).tokens = lay.choice first test words words' := by
    rw [hus]
    exact Dialect.ofTokens_close (kind_ne_stop htest hwords hwords')
  -- the words of both blocks are among the tokens of the choice
  have hbudget : ∀ t ∈ words, t.text.length < Dialect.longestText us + 1 := by
    intro t ht
    have hin : t.inLine (lay.line first 1) ∈ us := hus ▸ List.mem_append_left _ (mem_choice ht)
    exact Nat.lt_succ_of_le (le_longestText hin :)
  have hbudget' : ∀ t ∈ words', t.text.length < Dialect.longestText us + 1 := by
    intro t ht
    have hin : t.inLine (lay.line first 3) ∈ us := hus ▸ List.mem_append_left _ (mem_choice' ht)
    exact Nat.lt_succ_of_le (le_longestText hin :)
  rw [← hus]
  obtain ⟨c, hc⟩ : ∃ c, c = ((Cursor.ofTokens us).moveTo (lay.gap first 0 ++
      (words.map (Token.inLine (lay.line first 1)) ++ lay.otherwise first words'))).withPending
        [.new .choice] := ⟨_, rfl⟩
  have htokens₀ : c.tokens = lay.gap first 0 ++
      (words.map (Token.inLine (lay.line first 1)) ++ lay.otherwise first words') := by rw [hc]; rfl
  have hpending : c.pending = [.new .choice] := by rw [hc]; rfl
  obtain ⟨ns, rfl, hreaches⟩ := Dialect.reaches_of_parseFenced (j := i + 2) hd hwords hn
    (alike_inLine (lay.line first 1) words) (goesOn_otherwise lay first words') gap_or hd' hm
    (by omega) hbudget (by omega) rfl htokens₀ hpending
  -- the line of the first block is over in front of the branch
  have hbranch : ∀ c : Cursor, c.tokens = ⟨.keyword, "else", lay.line first 2⟩ ::
      .delimiter (lay.line first 2) ":" :: (lay.gap first 2 ++
        (words'.map (Token.inLine (lay.line first 3)) ++ lay.ending first)) →
      c.pending = [.new .choice] →
      ∃ c₁, (d'.levels (d'.attributeText (Dialect.longestText us + 1)) (i + 2)).expression 0 c =
          .ok (none, c₁) ∧ c₁.ownerClosed = true ∧ c₁.tokens = [.lineEnd (lay.line first 4)] ∧
          c₁.pending = [⟨.choice, [.mk none n'], true, true⟩] := by
    intro c hc hpending
    obtain ⟨c₁, hexpr, htokens₁, hpending₁⟩ := expression_otherwise hd hwords' hn' hd' hm (by omega)
      hbudget' (show d.maxDepth ≤ i by omega) rfl rfl hc hpending
    refine ⟨c₁, hexpr, ?_, htokens₁, hpending₁⟩
    rw [Cursor.ownerClosed, hpending₁]
  obtain ⟨c₁, hloop, htokens₁, hpending₁⟩ := hreaches.to_branch
    (dropWhile_gap TokenKind.noConfusion) rfl (by simp) hbranch
  have hblock : (d'.levels A (i + 3)).block true c = .ok (.block ns, c₁) := by
    rw [hA, Dialect.block_levels_succ, Level.blockOf, bind_of_ok hloop, List.reverse_reverse]
    rfl
  have hread : (d'.levels A (i + 4)).expression 0 ((Cursor.ofTokens us).moveTo
      (⟨.keyword, "if", first⟩ :: (test.operand first ++ .delimiter first ":" :: (lay.gap first 0 ++
        (words.map (Token.inLine (lay.line first 1)) ++ lay.otherwise first words'))))) =
      .ok (some (.choice [.mk (some test) (.block ns), .mk none n']), c₁.withPending []) := by
    refine Dialect.expression_if hd' htest (by omega) rfl (hc ▸ hblock) hpending₁ ?_
    rw [htokens₁, stops_cons]
    exact Or.inl rfl
  rw [hA] at hread
  exact Dialect.parse_of_statement htokens rfl (by simp) hi hread htokens₁ rfl

/-- **A choice in one line is the same template as in several lines**, if its blocks are lines that
are templates of their own: the choice between these two. The limit of nesting leaves room for the
blocks; with less room the choice can be refused, but it is never read as anything else. The
elements of the first line have to keep their place: no `else` closes the statement around an
element in the block of this element, and no element without a block comes last in the line, where
its modifiers would go on behind the mark of the `else`. -/
theorem parse_layout (hd : d.grammar = .standard) {test : Node} (htest : Expression test)
    (hwords : OneLine words) (hwords' : OneLine words') {line line' : Nat}
    (hn : d.parse (Dialect.alone line words) = .ok n)
    (hn' : d.parse (Dialect.alone line' words') = .ok n')
    (hfenced : ∃ m, d.parseFenced (Dialect.alone line words) = .ok m)
    (lay : Layout) (first : Nat) :
    (∀ limit, d.maxDepth + 5 ≤ limit → (test.operand first).length + 2 ≤ limit →
      (d.withDepth limit).parse (Lexer.close first (lay.choice first test words words')) =
        .ok (.block [.choice [.mk (some test) n, .mk none n']])) ∧
      ∀ limit m,
        (d.withDepth limit).parse (Lexer.close first (lay.choice first test words words')) = .ok m →
          m = .block [.choice [.mk (some test) n, .mk none n']] := by
  obtain ⟨m, hfenced⟩ := hfenced
  rw [Dialect.eq_of_parseFenced hd hn hfenced] at hfenced
  have hroom : ∀ limit, d.maxDepth + 5 ≤ limit → (test.operand first).length + 2 ≤ limit →
      (d.withDepth limit).parse (Lexer.close first (lay.choice first test words words')) =
        .ok (.block [.choice [.mk (some test) n, .mk none n']]) := fun limit hle hlength =>
    parse_choice_of_le hd htest hwords hwords' hfenced hn' hd rfl hle hlength
  refine ⟨hroom, fun limit n hread => ?_⟩
  obtain ⟨deep, hdeep⟩ : ∃ deep,
      deep = limit + (d.maxDepth + 5) + ((test.operand first).length + 2) := ⟨_, rfl⟩
  have hsame : (d.withDepth deep).parse (Lexer.close first (lay.choice first test words words')) =
      .ok n := Dialect.parse_withDepth_of_ok (d := d.withDepth limit) hd
        (show limit ≤ deep by omega) hread
  have htemplate := hroom deep (by omega) (by omega)
  rw [hsame] at htemplate
  exact Except.ok.inj htemplate

/-- An expression in the first line, and an element with a block in the second one. -/
theorem parse_layout_element :
    let d : Dialect := ⟨.standard, fun _ => none, 8⟩
    let test : Node := .leaf (.name "c")
    let words : List Token := [⟨.literal, "a", 1⟩, ⟨.mark, "@", 1⟩, ⟨.literal, "b", 1⟩]
    let words' : List Token := [⟨.mark, "@", 1⟩, ⟨.keyword, "elem", 1⟩, ⟨.literal, "p", 1⟩,
      ⟨.delimiter, ":", 1⟩, ⟨.literal, "x", 1⟩, ⟨.mark, "@", 1⟩, ⟨.keyword, "end", 1⟩]
    let n : Node := .block [.output .content [.text "a", .expr (.leaf (.name "b"))]]
    let n' : Node := .block [.element "p" [] (.block (.block [.output .content [.text "x"]]))]
    d.grammar = .standard ∧ Expression test ∧ OneLine words ∧ OneLine words' ∧
      d.parse (Dialect.alone 1 words) = .ok n ∧ d.parse (Dialect.alone 1 words') = .ok n' ∧
      (∃ m, d.parseFenced (Dialect.alone 1 words) = .ok m) ∧
      (d.withDepth 13).parse (Lexer.close 1 (oneLine.choice 1 test words words')) =
        .ok (.block [.choice [.mk (some test) n, .mk none n']]) ∧
      (d.withDepth 13).parse (Lexer.close 1 (ownLines.choice 1 test words words')) =
        .ok (.block [.choice [.mk (some test) n, .mk none n']]) := by
  intro d test words words' n n'
  have hd : d.grammar = .standard := rfl
  have htest : Expression test := .leaf trivial
  have hwords : OneLine words := by
    simp [OneLine, words, Token.IsSign, TokenKind.isWord]
  have hwords' : OneLine words' := by
    simp [OneLine, words', Token.IsSign, TokenKind.isWord]
  have hn : d.parse (Dialect.alone 1 words) = .ok n := by
    dsimp only [d, words, n]
    cbv
  have hn' : d.parse (Dialect.alone 1 words') = .ok n' := by
    dsimp only [d, words', n']
    cbv
  have hfenced : d.parseFenced (Dialect.alone 1 words) = .ok n := by
    dsimp only [d, words, n]
    cbv
  have hlayout := parse_layout hd htest hwords hwords' hn hn' ⟨n, hfenced⟩
  exact ⟨hd, htest, hwords, hwords', hn, hn', ⟨n, hfenced⟩,
    (hlayout oneLine 1).1 13 (by decide) (by decide),
    (hlayout ownLines 1).1 13 (by decide) (by decide)⟩

/-- An element without a block at the end of the first line. Both lines are templates of their own.
In several lines the choice is one, in one line it is none. -/
theorem parse_oneLine_refused :
    let d : Dialect := ⟨.standard, fun _ => none, 64⟩
    let test : Node := .leaf (.name "c")
    let words : List Token := [⟨.mark, "@", 1⟩, ⟨.keyword, "elem", 1⟩, ⟨.literal, "br", 1⟩]
    let words' : List Token := [⟨.literal, "no", 1⟩]
    let n : Node := .block [.element "br" [] .empty]
    let n' : Node := .block [.output .content [.text "no"]]
    Lexer.tokenize .standard "@if c: @elem br @else: no @end" =
        .ok (Lexer.close 1 (oneLine.choice 1 test words words')) ∧
      Lexer.tokenize .standard "@if c:\n@elem br\n@else:\nno\n@end" =
        .ok (Lexer.close 1 (ownLines.choice 1 test words words')) ∧
      d.parse (Dialect.alone 1 words) = .ok n ∧ d.parse (Dialect.alone 1 words') = .ok n' ∧
      d.parse (Lexer.close 1 (ownLines.choice 1 test words words')) =
        .ok (.block [.choice [.mk (some test) n, .mk none n']]) ∧
      d.parse (Lexer.close 1 (oneLine.choice 1 test words words')) =
        .error ⟨1, .unexpected .mark "@"⟩ := by
  intro d test words words' n n'
  dsimp only [d, test, words, words', n, n']
  refine ⟨by cbv, by cbv, by cbv, by cbv, by cbv, by cbv⟩

end Layout

end Stencil
