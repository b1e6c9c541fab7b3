import Stencil.Proofs.Numeral
import Stencil.Proofs.Printing
/-!
# Reading printed expressions

What is read from the tokens of an expression is the expression itself, however large it is: no
word takes an operand away from another, and the words with two readings, as an opening bracket
or behind an operand, are always met in the reading they were printed for. `ReadsBack` is the
statement for one expression with any tokens behind it that close it; the induction goes over the
expression, one lemma for each kind of node.
-/

namespace Stencil

/-! ## Operands -/

open Reading Grammar

/-- What stands behind an expression: nothing, or a closing parenthesis. -/
def Closes (rest : List Token) : Prop :=
  ∀ t ∈ rest.head?, t.is .delimiter ")" = true

theorem Token.is_delimiter {line : Nat} {text : String} :
    (Token.delimiter line text).is .delimiter text = true := by
  simp [Token.delimiter, Token.is]

namespace Closes

variable {rest : List Token} {power : Nat} {c : Cursor}

/-- Behind the last operand of a template there is nothing. -/
theorem nil : Closes [] := by
  simp [Closes]

theorem paren {line : Nat} : Closes (.delimiter line ")" :: rest) := by
  simp [Closes, Token.is_delimiter]

/-- A closing parenthesis binds to nothing, and so it ends every expression. -/
theorem stops (h : Closes rest) : standard.Stops power rest := by
  intro t ht
  have htext : t.text = ")" := by
    have := h t ht
    simp only [Token.is, Bool.and_eq_true, beq_iff_eq] at this
    exact this.2
  right
  rw [power_of_get?_none (by rw [htext]; rfl)]
  omega

/-- No word continues an expression where it ends. -/
theorem at?_eq_false {text : String} (h : Closes rest) (hc : c.tokens = rest) (ht : text ≠ ")") :
    c.at? .delimiter text = false := by
  rw [← Bool.not_eq_true, Cursor.at?_eq_true]
  rintro ⟨t, ts, htok, his⟩
  have hclose : t.is .delimiter ")" = true := h t (by rw [← hc, htok]; rfl)
  simp only [Token.is, Bool.and_eq_true, beq_iff_eq] at his hclose
  exact ht (his.2.symm.trans hclose.2)

end Closes

/-- Signs without a word in the table bind to nothing. -/
theorem stops_delimiter {line power : Nat} {text : String} {rest : List Token}
    (h : Table.get? (entries Statement.element) text = none) :
    standard.Stops power (.delimiter line text :: rest) := by
  have hp : standard.power (.delimiter line text) = 0 := power_of_get?_none h
  rw [stops_cons, hp]
  omega

namespace Leaf

/-- A leaf is found again in its token. -/
theorem leaf?_token {line : Nat} {l : Leaf} (h : l.IsToken) : (l.token line).leaf? = some l := by
  cases l with
  | number v =>
    obtain ⟨n, rfl⟩ : ∃ n, v = .number (.int n) := by
      unfold IsToken at h
      split at h
      · next n heq => exact ⟨n, Leaf.number.inj heq⟩
      · exact h.elim
      · next _ hother => exact absurd rfl (hother v)
    rw [Token.leaf?, token, tokenKind, text, Value.display]
    simp only [Number.ofText?_display, Option.map_some]
  | bool b => cases b <;> rfl
  | _ => rfl

/-- The kind of a leaf keeps its text from being looked up as a word, even if it is one. -/
theorem symbol?_token {line : Nat} {l : Leaf} : standard.symbol? (l.token line) = none := by
  cases l with
  | bool b => cases b <;> exact symbol?_standard rfl
  | null => exact symbol?_standard rfl
  | _ => exact symbol?_of_not_isWord rfl

end Leaf

namespace Dialect

/-- Whether an expression is read back from its tokens at every level that is deep enough for
them, with any tokens behind it that close it. -/
def ReadsBack (d : Dialect) (line : Nat) (n : Node) : Prop :=
  ∀ A k c rest, (n.print line).length ≤ k → c.tokens = n.print line ++ rest → Closes rest →
    (d.levels A k).expression 0 c = .ok (some n, c.moveTo rest)

variable {d : Dialect} {A : String → Nat → Except SyntaxError Node} {line k power : Nat}
variable {c : Cursor} {rest : List Token} {n : Node}

/-- An operand is read, and then the words behind it. -/
theorem expression_operand (hd : d.grammar = .standard) (hn : Expression n)
    (ih : d.ReadsBack line n) (hlen : (n.operand line).length ≤ k + 1)
    (hc : c.tokens = n.operand line ++ rest) :
    (d.levels A (k + 1)).expression power c =
      loop (d.grammar.extendTurn (d.levels A k) power) (some n) (c.moveTo rest) := by
  -- every operand but a leaf stands in parentheses and is read between them
  have hgroup : ∀ ts : List Token, n.operand line = .delimiter line "(" :: ts ++
      [.delimiter line ")"] → ts = n.print line →
      (d.levels A (k + 1)).expression power c =
        loop (d.grammar.extendTurn (d.levels A k) power) (some n) (c.moveTo rest) := by
    rintro ts hop rfl
    have htok : c.tokens =
        .delimiter line "(" :: (n.print line ++ .delimiter line ")" :: rest) := by
      rw [hc, hop]
      simp
    have hdepth : (n.print line).length ≤ k := by
      rw [hop] at hlen
      simp only [List.length_append, List.length_cons, List.length_nil] at hlen
      omega
    have hin := ih A k (c.moveTo (n.print line ++ .delimiter line ")" :: rest)) _ hdepth rfl .paren
    rw [expression_levels_succ]
    refine expressionOf_of_start htok ?_
    have hs : standard.symbol? (.delimiter line "(") =
        some ⟨.delimiter, 80, some Operation.group, some Operation.call⟩ := symbol?_standard rfl
    rw [hd, start_of_symbol? hs rfl, Operation.group, bind_of_ok (Level.require_of_ok hin),
      bind_of_ok (expect_of_cons rfl Token.is_delimiter)]
    rfl
  cases hn with
  | @leaf l hl =>
    rw [expression_levels_succ]
    refine expressionOf_of_start hc ?_
    rw [hd]
    exact start_leaf Leaf.symbol?_token (Leaf.leaf?_token hl)
  | _ => exact hgroup _ rfl rfl

/-- An operand is read up to the next word that does not bind. -/
theorem expression_of_operand (hd : d.grammar = .standard) (hn : Expression n)
    (ih : d.ReadsBack line n) (hlen : (n.operand line).length ≤ k)
    (hc : c.tokens = n.operand line ++ rest) (hrest : standard.Stops power rest) :
    (d.levels A k).expression power c = .ok (some n, c.moveTo rest) := by
  obtain ⟨t, ts, hts, -⟩ := hn.operand_head line
  obtain ⟨k, rfl⟩ : ∃ k', k = k' + 1 := by
    rw [hts, List.length_cons] at hlen
    exact ⟨k - 1, by omega⟩
  rw [expression_operand hd hn ih hlen hc, hd]
  exact extend_stop hrest

/-! ## Sequences -/

/-- An operand does not begin with a sign other than a parenthesis, and so no loop ends before it.
-/
theorem at?_operand {text : String} (hn : Expression n) (hc : c.tokens = n.operand line ++ rest)
    (ht : text ≠ "(") : c.at? .delimiter text = false := by
  obtain ⟨t, ts, hts, hhead⟩ := hn.operand_head line
  rw [← Bool.not_eq_true, Cursor.at?_eq_true]
  rintro ⟨t', ts', htok, his⟩
  rw [hc, hts, List.cons_append, List.cons.injEq] at htok
  simp only [Token.is, Bool.and_eq_true, beq_iff_eq, ← htok.1] at his
  rcases hhead with h | h
  · exact h his.1
  · exact ht (his.2.symm.trans h)

/-- One sign is not taken for another. -/
theorem at?_delimiter {text other : String} (hc : c.tokens = .delimiter line text :: rest) :
    c.at? .delimiter other = (text == other) := by
  simp [Cursor.at?, hc, Token.is, Token.delimiter]

/-- What stands behind an item: a comma, or the bracket that closes the sequence. -/
inductive Separator : String → Prop
  | comma : Separator ","
  | parenthesis : Separator ")"
  | bracket : Separator "]"
  | brace : Separator "\x7d"

/-- What stands behind an item ends it. -/
theorem Separator.stops {text : String} (h : Separator text) :
    standard.Stops power (.delimiter line text :: rest) := by
  cases h <;> exact stops_delimiter rfl

theorem Separator.ne_opening {text : String} (h : Separator text) : text ≠ "(" := by
  cases h <;> decide

/-- How a turn of a sequence ends: with a comma it goes on. -/
theorem comma_apply {α β : Type} {text : String} {a : α} {b : β}
    (hc : c.tokens = .delimiter line text :: rest) :
    (do
      if (← get).at? .delimiter "," then
        let _ ← advance
        return .inl a
      else return .inr b : Reading (α ⊕ β)) c =
      if text = "," then .ok (.inl a, c.moveTo rest) else .ok (.inr b, c) := by
  rw [bind_of_ok get_apply]
  have hat : c.at? .delimiter "," = (text == ",") := at?_delimiter hc
  by_cases h : text = ","
  · rw [if_pos h, if_pos (by rw [hat, h]; rfl), bind_of_ok (advance_of_cons hc)]
    rfl
  · rw [if_neg h, if_neg (by rw [hat]; simpa using h)]
    rfl

/-- A turn of a sequence takes one item, and the comma behind it if there is one. -/
theorem itemTurn_operand {close text : String} (hd : d.grammar = .standard)
    (hclose : Separator close) (htext : Separator text) (hn : Expression n)
    (ih : d.ReadsBack line n) (hlen : (n.operand line).length ≤ k)
    (hc : c.tokens = n.operand line ++ .delimiter line text :: rest) (what : String)
    (acc : List Node) :
    Operation.itemTurn (d.levels A k) close what acc c =
      if text = "," then .ok (.inl (n :: acc), c.moveTo rest)
      else .ok (.inr (n :: acc), c.moveTo (.delimiter line text :: rest)) := by
  have hat : c.at? .delimiter close = false := at?_operand hn hc hclose.ne_opening
  have hread : (d.levels A k).expression 0 c =
      .ok (some n, c.moveTo (.delimiter line text :: rest)) :=
    expression_of_operand hd hn ih hlen hc htext.stops
  rw [Operation.itemTurn, bind_of_ok get_apply]
  simp only [hat, Bool.false_eq_true, if_false]
  rw [bind_of_ok (Level.require_of_ok hread)]
  exact comma_apply rfl

/-- Items are read up to the bracket that closes them, the ones behind commas included. -/
theorem loop_itemTurn {close what : String} (hd : d.grammar = .standard)
    (hclose : Separator close) (hne : close ≠ ",") {ns acc : List Node}
    (hns : ∀ m ∈ n :: ns, Expression m ∧ d.ReadsBack line m)
    (hlen : (n.operand line ++ Node.printMoreItems line ns).length ≤ k)
    (hc : c.tokens =
      n.operand line ++ Node.printMoreItems line ns ++ .delimiter line close :: rest) :
    loop (Operation.itemTurn (d.levels A k) close what) acc c =
      .ok (ns.reverse ++ n :: acc, c.moveTo (.delimiter line close :: rest)) := by
  induction ns generalizing n acc c with
  | nil =>
    obtain ⟨hn, ih⟩ := hns n (by simp)
    simp only [Node.printMoreItems, List.append_nil] at hlen hc
    refine loop_stop ?_
    rw [itemTurn_operand hd hclose hclose hn ih hlen hc what acc, if_neg hne]
    rfl
  | cons m ms ihs =>
    obtain ⟨hn, ih⟩ := hns n (by simp)
    simp only [Node.printMoreItems_cons, List.length_append, List.length_cons,
      List.append_assoc, List.cons_append] at hlen hc
    have hturn := itemTurn_operand (A := A) (k := k) hd hclose .comma hn ih (by omega) hc what acc
    rw [if_pos rfl] at hturn
    refine loop_next hturn ?_ ?_
    · rw [hc]
      simp only [Cursor.moveTo_tokens, List.length_append, List.length_cons]
      omega
    · rw [ihs (fun x hx => hns x (List.mem_cons_of_mem _ hx))
        (by simp only [List.length_append]; omega)
        (by simp only [Cursor.moveTo_tokens, List.append_assoc])]
      simp

/-- A sequence is read back from its items between commas. -/
theorem sequence_printItems {close what : String} (hd : d.grammar = .standard)
    (hclose : Separator close) (hne : close ≠ ",") {ns : List Node}
    (hns : ∀ m ∈ ns, Expression m ∧ d.ReadsBack line m)
    (hlen : (Node.printItems line ns).length ≤ k)
    (hc : c.tokens = Node.printItems line ns ++ .delimiter line close :: rest) :
    Operation.sequence (d.levels A k) close what c = .ok (ns, c.moveTo rest) := by
  have hloop : loop (Operation.itemTurn (d.levels A k) close what) [] c =
      .ok (ns.reverse, c.moveTo (.delimiter line close :: rest)) := by
    cases ns with
    -- the bracket comes at once
    | nil =>
      have hat : c.at? .delimiter close = true := (at?_delimiter hc).trans (by simp)
      refine loop_stop ?_
      rw [Operation.itemTurn, bind_of_ok get_apply]
      simp only [hat, if_true]
      rw [pure_apply, ← Cursor.moveTo_self c, hc]
      rfl
    | cons n ns =>
      rw [loop_itemTurn hd hclose hne hns hlen hc]
      simp
  rw [Operation.sequence, bind_of_ok hloop, bind_of_ok (expect_of_cons rfl Token.is_delimiter)]
  simp [pure_apply]

/-- A turn of an object takes one member, and the comma behind it if there is one. -/
theorem memberTurn_operands {text : String} {key value : Node} (hd : d.grammar = .standard)
    (htext : Separator text)
    (hkey : Expression key ∧ d.ReadsBack line key)
    (hvalue : Expression value ∧ d.ReadsBack line value)
    (hlen : (key.operand line).length ≤ k ∧ (value.operand line).length ≤ k)
    (hc : c.tokens = key.operand line ++
      .delimiter line ":" :: (value.operand line ++ .delimiter line text :: rest))
    (acc : List Member) :
    Operation.memberTurn (d.levels A k) acc c =
      if text = "," then .ok (.inl (.mk key value :: acc), c.moveTo rest)
      else .ok (.inr (.mk key value :: acc), c.moveTo (.delimiter line text :: rest)) := by
  have hat : c.at? .delimiter "\x7d" = false := at?_operand hkey.1 hc (by decide)
  let behind := value.operand line ++ .delimiter line text :: rest
  have hreadKey : (d.levels A k).expression 0 c =
      .ok (some key, c.moveTo (.delimiter line ":" :: behind)) :=
    expression_of_operand hd hkey.1 hkey.2 hlen.1 hc (stops_delimiter rfl)
  have hreadValue : (d.levels A k).expression 0 (c.moveTo behind) =
      .ok (some value, c.moveTo (.delimiter line text :: rest)) :=
    expression_of_operand hd hvalue.1 hvalue.2 hlen.2 rfl htext.stops
  rw [Operation.memberTurn, bind_of_ok get_apply]
  simp only [hat, Bool.false_eq_true, if_false]
  rw [bind_of_ok (Level.require_of_ok hreadKey),
    bind_of_ok (expect_of_cons rfl Token.is_delimiter), Cursor.moveTo_moveTo,
    bind_of_ok (Level.require_of_ok hreadValue)]
  exact comma_apply rfl

/-- The members of an object are read one after the other, each with its comma. -/
theorem loop_memberTurn (hd : d.grammar = .standard) {key value : Node} {ms acc : List Member}
    (hkeys : ∀ m ∈ .mk key value :: ms, Expression m.key ∧ d.ReadsBack line m.key)
    (hvalues : ∀ m ∈ .mk key value :: ms, Expression m.value ∧ d.ReadsBack line m.value)
    (hlen : (key.operand line ++ .delimiter line ":" ::
      (value.operand line ++ Node.printMoreMembers line ms)).length ≤ k)
    (hc : c.tokens = key.operand line ++ .delimiter line ":" ::
      (value.operand line ++ (Node.printMoreMembers line ms ++ .delimiter line "\x7d" :: rest))) :
    loop (Operation.memberTurn (d.levels A k)) acc c =
      .ok (ms.reverse ++ .mk key value :: acc, c.moveTo (.delimiter line "\x7d" :: rest)) := by
  have hkey : Expression key ∧ d.ReadsBack line key := hkeys _ List.mem_cons_self
  have hvalue : Expression value ∧ d.ReadsBack line value := hvalues _ List.mem_cons_self
  induction ms generalizing key value acc c with
  -- the last member: the brace behind it ends the loop
  | nil =>
    simp only [Node.printMoreMembers, List.length_append, List.length_cons, List.append_nil,
      List.nil_append] at hlen hc
    refine loop_stop ?_
    rw [memberTurn_operands hd .brace hkey hvalue ⟨by omega, by omega⟩ hc acc,
      if_neg (by decide)]
    rfl
  -- a comma follows, and with it the next member
  | cons m ms ihs =>
    obtain ⟨key', value'⟩ := m
    simp only [Node.printMoreMembers_cons, List.length_append, List.length_cons,
      List.append_assoc, List.cons_append] at hlen hc
    have hturn := memberTurn_operands (A := A) hd .comma hkey hvalue
      (k := k) ⟨by omega, by omega⟩ hc acc
    rw [if_pos rfl] at hturn
    refine loop_next hturn ?_ ?_
    · rw [hc]
      simp only [Cursor.moveTo_tokens, List.length_append, List.length_cons]
      omega
    · rw [ihs (fun x hx => hkeys x (List.mem_cons_of_mem _ hx))
        (fun x hx => hvalues x (List.mem_cons_of_mem _ hx))
        (by simp only [List.length_append, List.length_cons]; omega) rfl
        (hkeys (.mk key' value') (by simp)) (hvalues (.mk key' value') (by simp))]
      simp

/-- All members are read up to the closing brace, and there are none if it comes at once. -/
theorem members_printMembers (hd : d.grammar = .standard) {ms : List Member}
    (hkeys : ∀ m ∈ ms, Expression m.key ∧ d.ReadsBack line m.key)
    (hvalues : ∀ m ∈ ms, Expression m.value ∧ d.ReadsBack line m.value)
    (hlen : (Node.printMembers line ms).length ≤ k)
    (hc : c.tokens = Node.printMembers line ms ++ .delimiter line "\x7d" :: rest) :
    loop (Operation.memberTurn (d.levels A k)) [] c =
      .ok (ms.reverse, c.moveTo (.delimiter line "\x7d" :: rest)) := by
  cases ms with
  | nil =>
    have hat : c.at? .delimiter "\x7d" = true := (at?_delimiter hc).trans (by simp)
    refine loop_stop ?_
    rw [Operation.memberTurn, bind_of_ok get_apply]
    simp only [hat, if_true]
    rw [pure_apply, ← Cursor.moveTo_self c, hc]
    rfl
  | cons m ms =>
    obtain ⟨key, value⟩ := m
    have hc' : c.tokens = key.operand line ++ .delimiter line ":" :: (value.operand line ++
        (Node.printMoreMembers line ms ++ .delimiter line "\x7d" :: rest)) := by
      rw [hc]
      simp [Node.printMembers, Node.operand]
    rw [loop_memberTurn hd hkeys hvalues hlen hc']
    simp

/-! ## Paths and filters -/

/-- Each name stands behind a sign of its own. -/
theorem printNames_cons {sign name : String} {names : List String} :
    Node.printNames line sign (name :: names) =
      .delimiter line sign :: ⟨.literal, name, line⟩ :: Node.printNames line sign names :=
  rfl

/-- All names that stand behind signs of one kind are taken by the first one, if a turn takes a
name and goes on where the sign stands behind it. -/
theorem loop_names {turn : List String → Reading (List String ⊕ List String)} {sign : String}
    (hturn : ∀ name acc (c : Cursor) tail, c.tokens = ⟨.literal, name, line⟩ :: tail →
      turn acc c = (do
        if (← get).at? .delimiter sign then
          let _ ← advance
          return .inl (name :: acc)
        else return .inr (name :: acc) : Reading (List String ⊕ List String)) (c.moveTo tail))
    (hsign : sign ≠ ")") {name : String} {names acc : List String}
    (hc : c.tokens = ⟨.literal, name, line⟩ :: (Node.printNames line sign names ++ rest))
    (hrest : Closes rest) :
    loop turn acc c = .ok (names.reverse ++ name :: acc, c.moveTo rest) := by
  induction names generalizing name acc c with
  | nil =>
    have hat : ¬(c.moveTo rest).at? .delimiter sign = true := by
      simp [hrest.at?_eq_false (c := c.moveTo rest) rfl hsign]
    refine loop_stop ?_
    rw [hturn name acc c _ hc, bind_of_ok get_apply]
    exact congrFun (if_neg hat) _
  | cons name' names ih =>
    let behind : List Token := ⟨.literal, name', line⟩ :: (Node.printNames line sign names ++ rest)
    have hat : (c.moveTo (.delimiter line sign :: behind)).at? .delimiter sign = true :=
      (at?_delimiter rfl).trans (by simp)
    have hnext : turn acc c = .ok (.inl (name :: acc), c.moveTo behind) := by
      rw [hturn name acc c (.delimiter line sign :: behind) hc, bind_of_ok get_apply]
      simp only [hat, if_true]
      rw [bind_of_ok (advance_of_cons rfl)]
      rfl
    refine loop_next hnext ?_ ?_
    · rw [hc]
      simp only [behind, printNames_cons, Cursor.moveTo_tokens, List.length_cons,
        List.length_append]
      omega
    · rw [ih rfl]
      simp

/-- The names of a path are read up to what closes it. -/
theorem loop_segmentTurn {name : String} {names acc : List String}
    (hc : c.tokens = ⟨.literal, name, line⟩ :: (Node.printNames line "." names ++ rest))
    (hrest : Closes rest) :
    loop Operation.segmentTurn acc c = .ok (names.reverse ++ name :: acc, c.moveTo rest) := by
  refine loop_names (fun name acc c tail hc => ?_) (by decide) hc hrest
  rw [Operation.segmentTurn, bind_of_ok get_apply, hc]
  simp only [Operation.isSegment, beq_self_eq_true, Bool.true_or, if_true]
  rw [bind_of_ok (advance_of_cons hc)]

/-- So are the names of filters, which differ in the sign only. -/
theorem loop_filterTurn {name : String} {names acc : List String}
    (hc : c.tokens = ⟨.literal, name, line⟩ :: (Node.printNames line "|" names ++ rest))
    (hrest : Closes rest) :
    loop Operation.filterTurn acc c = .ok (names.reverse ++ name :: acc, c.moveTo rest) := by
  refine loop_names (fun name acc c tail hc => ?_) (by decide) hc hrest
  rw [Operation.filterTurn, bind_of_ok (literal_of_cons hc rfl)]

/-! ## Reading back -/

section

variable {a b e : Node} {word : Token} {s : Symbol} {tail : List Token}

/-- A word at the start of an expression whose rule takes the whole expression. -/
theorem expression_of_prefixRule {rule : PrefixRule} (hd : d.grammar = .standard)
    (hc : c.tokens = word :: tail) (hs : standard.symbol? word = some s)
    (hr : s.prefixRule = some rule)
    (he : rule (d.levels A k) word (c.moveTo tail) = .ok (some e, c.moveTo rest))
    (hrest : Closes rest) :
    (d.levels A (k + 1)).expression 0 c = .ok (some e, c.moveTo rest) := by
  have hstart : d.grammar.start (d.levels A k) word (c.moveTo tail) =
      .ok (some e, c.moveTo rest) := by
    rw [hd, start_of_symbol? hs hr, he]
  rw [expression_levels_succ, expressionOf_of_start hc hstart, hd]
  exact extend_stop hrest.stops

/-- An operand and a word that takes what is left of the expression. -/
theorem expression_of_extend (hd : d.grammar = .standard) (ha : Expression a ∧ d.ReadsBack line a)
    (hlen : (a.operand line).length ≤ k + 1) (hc : c.tokens = a.operand line ++ word :: tail)
    (hk : word.kind ≠ .newline) (hp : 0 < standard.power word)
    (he : standard.extend (d.levels A k) word a (c.moveTo tail) = .ok (e, c.moveTo rest))
    (hle : rest.length ≤ tail.length) (hrest : Closes rest) :
    (d.levels A (k + 1)).expression 0 c = .ok (some e, c.moveTo rest) := by
  rw [expression_operand hd ha.1 ha.2 hlen hc, hd]
  exact extend_next rfl hk hp he hle (extend_stop hrest.stops)

/-- An operand and a word behind it are read by the rule of the word. -/
theorem expression_of_infixRule {rule : InfixRule} (hd : d.grammar = .standard)
    (ha : Expression a ∧ d.ReadsBack line a) (hlen : (a.operand line).length ≤ k + 1)
    (hc : c.tokens = a.operand line ++ word :: tail) (hk : word.kind ≠ .newline)
    (hs : standard.symbol? word = some s) (hr : s.infixRule = some rule) (hp : 0 < s.power)
    (he : rule (d.levels A k) word a (c.moveTo tail) = .ok (e, c.moveTo rest))
    (hle : rest.length ≤ tail.length) (hrest : Closes rest) :
    (d.levels A (k + 1)).expression 0 c = .ok (some e, c.moveTo rest) := by
  refine expression_of_extend hd ha hlen hc hk ?_ ?_ hle hrest
  · rw [power_of_symbol? hs]
    exact hp
  · rw [extend_of_symbol? hs hr, he]

/-- Both operands of an operator stand in parentheses, and so their powers do not matter. -/
theorem readsBack_binary (hd : d.grammar = .standard) (op : BinaryOp)
    (ha : Expression a ∧ d.ReadsBack line a) (hb : Expression b ∧ d.ReadsBack line b) :
    d.ReadsBack line (.binary op a b) := by
  intro A k c rest hlen hc hrest
  simp only [Node.print_binary, List.length_append, List.length_cons, List.append_assoc,
    List.cons_append] at hlen hc
  obtain ⟨k, rfl⟩ : ∃ k', k = k' + 1 := ⟨k - 1, by omega⟩
  have hright : (d.levels A k).expression op.rightPower (c.moveTo (b.operand line ++ rest)) =
      .ok (some b, c.moveTo rest) :=
    expression_of_operand hd hb.1 hb.2 (by omega) rfl hrest.stops
  refine expression_of_extend hd ha (by omega) hc op.tokenKind_ne_newline ?_ ?_ (by simp) hrest
  · rw [op.power_token]
    exact op.power_pos
  · exact extend_operator (by rw [power_levels, hd, op.power_token]) hright

theorem readsBack_negation (hd : d.grammar = .standard)
    (ha : Expression a ∧ d.ReadsBack line a) : d.ReadsBack line (.negation a) := by
  intro A k c rest hlen hc hrest
  simp only [Node.print_negation, List.length_cons, List.cons_append] at hlen hc
  obtain ⟨k, rfl⟩ : ∃ k', k = k' + 1 := ⟨k - 1, by omega⟩
  have hoperand : (d.levels A k).expression 0 (c.moveTo (a.operand line ++ rest)) =
      .ok (some a, c.moveTo rest) :=
    expression_of_operand hd ha.1 ha.2 (by omega) rfl hrest.stops
  have hs : standard.symbol? ⟨.logical, "not", line⟩ =
      some ⟨.logical, 80, some Operation.negation, none⟩ := symbol?_standard rfl
  refine expression_of_prefixRule hd hc hs rfl ?_ hrest
  rw [Operation.negation, bind_of_ok (Level.require_of_ok hoperand)]
  rfl

/-- What comes behind the colon is closed by what closes the whole. -/
theorem readsBack_conditional (hd : d.grammar = .standard)
    (ha : Expression a ∧ d.ReadsBack line a) (hb : Expression b ∧ d.ReadsBack line b)
    {o : Option Node} (ho : ∀ n ∈ o, Expression n ∧ d.ReadsBack line n) :
    d.ReadsBack line (.conditional a b o) := by
  intro A k c rest hlen hc hrest
  simp only [Node.print_conditional, List.length_append, List.length_cons, List.append_assoc,
    List.cons_append] at hlen hc
  obtain ⟨k, rfl⟩ : ∃ k', k = k' + 1 := ⟨k - 1, by omega⟩
  have hs : standard.symbol? (.delimiter line "?") =
      some ⟨.delimiter, 20, none, some Operation.conditional⟩ := symbol?_standard rfl
  refine expression_of_infixRule hd ha (by omega) hc TokenKind.noConfusion hs rfl (by decide) ?_
    (by simp only [List.length_append]; omega) hrest
  cases o with
  | none =>
    have hvalue : (d.levels A k).expression 0 (c.moveTo (b.operand line ++ rest)) =
        .ok (some b, c.moveTo rest) :=
      expression_of_operand hd hb.1 hb.2 (by omega) rfl hrest.stops
    -- what closes the expression is no colon, so that there is no second branch
    have hat : (c.moveTo rest).at? .delimiter ":" = false := hrest.at?_eq_false rfl (by decide)
    simp only [Node.printOtherwise, List.nil_append]
    rw [Operation.conditional, bind_of_ok (Level.require_of_ok hvalue), bind_of_ok get_apply]
    exact congrFun (if_neg (by rw [hat]; decide)) _
  | some n =>
    obtain ⟨hn, ihn⟩ := ho n rfl
    have hprint : Node.printOtherwise line (some n) = .delimiter line ":" :: n.operand line := rfl
    rw [hprint, List.length_cons] at hlen
    have hvalue : (d.levels A k).expression 0
        (c.moveTo (b.operand line ++ .delimiter line ":" :: (n.operand line ++ rest))) =
        .ok (some b, c.moveTo (.delimiter line ":" :: (n.operand line ++ rest))) :=
      expression_of_operand hd hb.1 hb.2 (by omega) rfl (stops_delimiter rfl)
    have hother : (d.levels A k).expression 0 (c.moveTo (n.operand line ++ rest)) =
        .ok (some n, c.moveTo rest) :=
      expression_of_operand hd hn ihn (by omega) rfl hrest.stops
    have hat : (c.moveTo (.delimiter line ":" :: (n.operand line ++ rest))).at? .delimiter ":" =
        true := (at?_delimiter rfl).trans (by simp)
    rw [hprint, List.cons_append, Operation.conditional, bind_of_ok (Level.require_of_ok hvalue),
      bind_of_ok get_apply]
    simp only [hat, if_true]
    rw [bind_of_ok (advance_of_cons rfl), Cursor.moveTo_moveTo,
      bind_of_ok (Level.require_of_ok hother)]
    rfl

theorem readsBack_member (hd : d.grammar = .standard) (ha : Expression a ∧ d.ReadsBack line a)
    (hb : Expression b ∧ d.ReadsBack line b) : d.ReadsBack line (.member a b) := by
  intro A k c rest hlen hc hrest
  simp only [Node.print_member, List.length_append, List.length_cons, List.append_assoc,
    List.cons_append] at hlen hc
  obtain ⟨k, rfl⟩ : ∃ k', k = k' + 1 := ⟨k - 1, by omega⟩
  have hright : (d.levels A k).expression 0 (c.moveTo (b.operand line ++ rest)) =
      .ok (some b, c.moveTo rest) :=
    expression_of_operand hd hb.1 hb.2 (by omega) rfl hrest.stops
  have hs : standard.symbol? ⟨.logical, "in", line⟩ =
      some ⟨.logical, 80, none, some Operation.membership⟩ := symbol?_standard rfl
  refine expression_of_infixRule hd ha (by omega) hc TokenKind.noConfusion hs rfl (by decide) ?_
    (by simp) hrest
  rw [Operation.membership, bind_of_ok (Level.require_of_ok hright)]
  rfl

/-- A dot is read as one of a path, since an operand has been read before it. -/
theorem readsBack_path (hd : d.grammar = .standard) (ha : Expression a ∧ d.ReadsBack line a)
    {segments : List String} (hne : segments ≠ []) : d.ReadsBack line (.path a segments) := by
  intro A k c rest hlen hc hrest
  obtain ⟨name, names, rfl⟩ := List.exists_cons_of_ne_nil hne
  simp only [Node.print_path, printNames_cons, List.length_append, List.length_cons,
    List.append_assoc, List.cons_append] at hlen hc
  obtain ⟨k, rfl⟩ : ∃ k', k = k' + 1 := ⟨k - 1, by omega⟩
  have hs : standard.symbol? (.delimiter line ".") =
      some ⟨.delimiter, 80, none, some Operation.path⟩ := symbol?_standard rfl
  refine expression_of_infixRule hd ha (by omega) hc TokenKind.noConfusion hs rfl (by decide) ?_
    (by simp only [List.length_cons, List.length_append]; omega) hrest
  rw [Operation.path, bind_of_ok (loop_segmentTurn rfl hrest)]
  simp [pure_apply]

/-- A bracket behind an operand is a position and no array. -/
theorem readsBack_index (hd : d.grammar = .standard) (ha : Expression a ∧ d.ReadsBack line a)
    (hb : Expression b ∧ d.ReadsBack line b) : d.ReadsBack line (.index a b) := by
  intro A k c rest hlen hc hrest
  simp only [Node.print_index, List.length_append, List.length_cons, List.append_assoc,
    List.cons_append, List.nil_append] at hlen hc
  obtain ⟨k, rfl⟩ : ∃ k', k = k' + 1 := ⟨k - 1, by omega⟩
  have hkey : (d.levels A k).expression 0
      (c.moveTo (b.operand line ++ .delimiter line "]" :: rest)) =
      .ok (some b, c.moveTo (.delimiter line "]" :: rest)) :=
    expression_of_operand hd hb.1 hb.2 (by omega) rfl (stops_delimiter rfl)
  have hs : standard.symbol? (.delimiter line "[") =
      some ⟨.delimiter, 80, some Operation.array, some Operation.index⟩ := symbol?_standard rfl
  refine expression_of_infixRule hd ha (by omega) hc TokenKind.noConfusion hs rfl (by decide) ?_
    (by simp only [List.length_cons, List.length_append]; omega) hrest
  rw [Operation.index, bind_of_ok (Level.require_of_ok hkey),
    bind_of_ok (expect_of_cons rfl Token.is_delimiter)]
  rfl

/-- A parenthesis behind an operand begins arguments and no group. -/
theorem readsBack_call (hd : d.grammar = .standard) (ha : Expression a ∧ d.ReadsBack line a)
    {args : List Node} (hargs : ∀ n ∈ args, Expression n ∧ d.ReadsBack line n) :
    d.ReadsBack line (.call a args) := by
  intro A k c rest hlen hc hrest
  simp only [Node.print_call, List.length_append, List.length_cons, List.append_assoc,
    List.cons_append, List.nil_append] at hlen hc
  obtain ⟨k, rfl⟩ : ∃ k', k = k' + 1 := ⟨k - 1, by omega⟩
  have hs : standard.symbol? (.delimiter line "(") =
      some ⟨.delimiter, 80, some Operation.group, some Operation.call⟩ := symbol?_standard rfl
  refine expression_of_infixRule hd ha (by omega) hc TokenKind.noConfusion hs rfl (by decide) ?_
    (by simp only [List.length_cons, List.length_append]; omega) hrest
  rw [Operation.call, bind_of_ok
    (sequence_printItems hd .parenthesis (by decide) hargs (by omega) rfl)]
  rfl

theorem readsBack_filtered (hd : d.grammar = .standard) (ha : Expression a ∧ d.ReadsBack line a)
    {filters : List String} (hne : filters ≠ []) : d.ReadsBack line (.filtered a filters) := by
  intro A k c rest hlen hc hrest
  obtain ⟨name, names, rfl⟩ := List.exists_cons_of_ne_nil hne
  simp only [Node.print_filtered, printNames_cons, List.length_append, List.length_cons,
    List.append_assoc, List.cons_append] at hlen hc
  obtain ⟨k, rfl⟩ : ∃ k', k = k' + 1 := ⟨k - 1, by omega⟩
  have hs : standard.symbol? (.delimiter line "|") =
      some ⟨.delimiter, 80, none, some Operation.filtered⟩ := symbol?_standard rfl
  refine expression_of_infixRule hd ha (by omega) hc TokenKind.noConfusion hs rfl (by decide) ?_
    (by simp only [List.length_cons, List.length_append]; omega) hrest
  rw [Operation.filtered, bind_of_ok (loop_filterTurn rfl hrest)]
  simp [pure_apply]

/-- A bracket in front is an array and no position. -/
theorem readsBack_array (hd : d.grammar = .standard) {items : List Node}
    (hitems : ∀ n ∈ items, Expression n ∧ d.ReadsBack line n) :
    d.ReadsBack line (.array items) := by
  intro A k c rest hlen hc hrest
  simp only [Node.print_array, List.length_append, List.length_cons, List.append_assoc,
    List.cons_append, List.nil_append] at hlen hc
  obtain ⟨k, rfl⟩ : ∃ k', k = k' + 1 := ⟨k - 1, by omega⟩
  have hs : standard.symbol? (.delimiter line "[") =
      some ⟨.delimiter, 80, some Operation.array, some Operation.index⟩ := symbol?_standard rfl
  refine expression_of_prefixRule hd hc hs rfl ?_ hrest
  rw [Operation.array, bind_of_ok
    (sequence_printItems hd .bracket (by decide) hitems (by omega) rfl)]
  rfl

/-- Keys and values are expressions of their own. -/
theorem readsBack_object (hd : d.grammar = .standard) {members : List Member}
    (hkeys : ∀ m ∈ members, Expression m.key ∧ d.ReadsBack line m.key)
    (hvalues : ∀ m ∈ members, Expression m.value ∧ d.ReadsBack line m.value) :
    d.ReadsBack line (.object members) := by
  intro A k c rest hlen hc hrest
  simp only [Node.print_object, List.length_append, List.length_cons, List.append_assoc,
    List.cons_append, List.nil_append] at hlen hc
  obtain ⟨k, rfl⟩ : ∃ k', k = k' + 1 := ⟨k - 1, by omega⟩
  have hs : standard.symbol? (.delimiter line "\x7b") =
      some ⟨.delimiter, 80, some Operation.object, none⟩ := symbol?_standard rfl
  refine expression_of_prefixRule hd hc hs rfl ?_ hrest
  rw [Operation.object, bind_of_ok (members_printMembers hd hkeys hvalues (by omega) rfl),
    bind_of_ok (expect_of_cons rfl Token.is_delimiter)]
  simp [pure_apply]

/-- A leaf is its token, and nothing behind it binds. -/
theorem readsBack_leaf (hd : d.grammar = .standard) {l : Leaf} (hl : l.IsToken) :
    d.ReadsBack line (.leaf l) := by
  intro A k c rest hlen hc hrest
  obtain ⟨k, rfl⟩ : ∃ k', k = k' + 1 := ⟨k - 1, by simp [Node.print] at hlen; omega⟩
  have hstart : d.grammar.start (d.levels A k) (l.token line) (c.moveTo rest) =
      .ok (some (.leaf l), c.moveTo rest) := by
    rw [hd]
    exact start_leaf Leaf.symbol?_token (Leaf.leaf?_token hl)
  rw [expression_levels_succ, expressionOf_of_start hc hstart, hd]
  exact extend_stop hrest.stops

end

/-- **Every expression is read back from its tokens.** -/
theorem readsBack_of_expression (hd : d.grammar = .standard) (hn : Expression n) :
    d.ReadsBack line n := by
  induction hn with
  | leaf hl => exact readsBack_leaf hd hl
  | binary op ha hb iha ihb => exact readsBack_binary hd op ⟨ha, iha⟩ ⟨hb, ihb⟩
  | negation ha iha => exact readsBack_negation hd ⟨ha, iha⟩
  | conditional ha hb ho iha ihb iho =>
    exact readsBack_conditional hd ⟨ha, iha⟩ ⟨hb, ihb⟩ fun n hn => ⟨ho n hn, iho n hn⟩
  | member ha hb iha ihb => exact readsBack_member hd ⟨ha, iha⟩ ⟨hb, ihb⟩
  | path ha hne iha => exact readsBack_path hd ⟨ha, iha⟩ hne
  | index ha hkey iha ihkey => exact readsBack_index hd ⟨ha, iha⟩ ⟨hkey, ihkey⟩
  | call ha hargs iha ihargs =>
    exact readsBack_call hd ⟨ha, iha⟩ fun n hn => ⟨hargs n hn, ihargs n hn⟩
  | filtered ha hne iha => exact readsBack_filtered hd ⟨ha, iha⟩ hne
  | array hitems ihitems => exact readsBack_array hd fun n hn => ⟨hitems n hn, ihitems n hn⟩
  | object hkeys hvalues ihkeys ihvalues =>
    exact readsBack_object hd (fun m hm => ⟨hkeys m hm, ihkeys m hm⟩)
      fun m hm => ⟨hvalues m hm, ihvalues m hm⟩

end Dialect

/-- **Expressions round trip.** An expression of any size, printed behind a mark, is read as a
template of one line that holds this expression. -/
theorem Dialect.parse_print {d : Dialect} (hd : d.grammar = .standard) {n : Node}
    (hn : Expression n) (line : Nat) (hdepth : (n.print line).length + 2 ≤ d.maxDepth) :
    d.parse (⟨.mark, "@", line⟩ :: n.print line) =
      .ok (.block [.output .content [.expr n]]) := by
  obtain ⟨u, rest, hprint⟩ := List.exists_cons_of_ne_nil (hn.print_ne_nil line)
  have hplain : ∀ t ∈ u :: rest, t.IsPlain := hprint ▸ hn.isPlain_print
  obtain ⟨k, hk⟩ : ∃ k, d.maxDepth = k + 1 := ⟨d.maxDepth - 1, by omega⟩
  have hreads : d.ReadsBack line n := readsBack_of_expression hd hn
  refine parse_marked (by rw [hprint]) hk hplain ?_
  -- the whole template is one expression, with nothing behind it
  exact hreads _ k _ [] (by omega) (by rw [hprint]; simp) .nil

/-- A condition whose operands are of three kinds. -/
theorem Dialect.parse_print_conditional :
    let d : Dialect := ⟨.standard, fun _ => none, 64⟩
    let n : Node := .conditional
      (.binary .lt (.leaf (.name "a")) (.leaf (.number (.number (.int 2)))))
      (.filtered (.leaf (.name "b")) ["upper"]) (some (.array [.leaf .null, .leaf (.bool true)]))
    Expression n ∧ (n.print 1).length + 2 ≤ d.maxDepth ∧
      d.parse (⟨.mark, "@", 1⟩ :: n.print 1) = .ok (.block [.output .content [.expr n]]) := by
  intro d n
  have hitems : ∀ m ∈ [Node.leaf .null, .leaf (.bool true)], Expression m := by
    simp only [List.forall_mem_cons, List.not_mem_nil, false_implies, implies_true, and_true]
    exact ⟨.leaf trivial, .leaf trivial⟩
  have hn : Expression n :=
    .conditional (.binary .lt (.leaf trivial) (.leaf (by decide : (0 : Int64) ≤ 2)))
      (.filtered (.leaf trivial) (by decide))
      fun m hm => Option.mem_some_iff.1 hm ▸ .array hitems
  have hdepth : (n.print 1).length + 2 ≤ d.maxDepth := by decide +kernel
  exact ⟨hn, hdepth, Dialect.parse_print rfl hn 1 hdepth⟩

end Stencil
