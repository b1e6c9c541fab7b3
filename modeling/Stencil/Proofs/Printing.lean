import Stencil.Proofs.Expression
import Stencil.Proofs.Tree
/-!
# Printing expressions

An expression is printed with parentheses around every operand that is not a leaf. `Expression`
says which nodes are printed; the rest of the file says which tokens they are printed with, and
with which token they start.
-/

namespace Stencil

/-! ## Printing -/

/-- A token of punctuation. -/
def Token.delimiter (line : Nat) (text : String) : Token :=
  ⟨.delimiter, text, line⟩

namespace Leaf

/-- The kind of the token of a leaf. -/
def tokenKind : Leaf → TokenKind
  | name _ => .literal
  | string _ => .string
  | number _ => .number
  | bool true => .trueWord
  | bool false => .falseWord
  | null => .nullWord

/-- The token of a leaf. -/
def token (line : Nat) (l : Leaf) : Token :=
  ⟨l.tokenKind, l.text, line⟩

/-- Whether a leaf is written as one token. A negative number is not, and the texts of
floating-point numbers are left out. -/
def IsToken : Leaf → Prop
  | number (.number (.int n)) => 0 ≤ n
  | number _ => False
  | _ => True

end Leaf

namespace Node

/-- The tokens of a node where it is an operand: a leaf stays bare. -/
def bracketed (line : Nat) : Node → List Token → List Token
  | leaf _, ts => ts
  | _, ts => .delimiter line "(" :: ts ++ [.delimiter line ")"]

/-- Names, each behind the same sign. -/
def printNames (line : Nat) (sign : String) (names : List String) : List Token :=
  names.flatMap fun name => [.delimiter line sign, ⟨.literal, name, line⟩]

mutual

/-- The tokens of an expression in one line. -/
def print (line : Nat) : Node → List Token
  | leaf l => [l.token line]
  | binary op a b =>
    bracketed line a (print line a) ++ op.token line :: bracketed line b (print line b)
  | negation a => ⟨.logical, "not", line⟩ :: bracketed line a (print line a)
  | conditional a b o =>
    bracketed line a (print line a) ++
      .delimiter line "?" :: (bracketed line b (print line b) ++ printOtherwise line o)
  | member a b =>
    bracketed line a (print line a) ++ ⟨.logical, "in", line⟩ :: bracketed line b (print line b)
  | path a segments => bracketed line a (print line a) ++ printNames line "." segments
  | index a key =>
    bracketed line a (print line a) ++
      .delimiter line "[" :: (bracketed line key (print line key) ++ [.delimiter line "]"])
  | call a args =>
    bracketed line a (print line a) ++
      .delimiter line "(" :: (printItems line args ++ [.delimiter line ")"])
  | filtered a filters => bracketed line a (print line a) ++ printNames line "|" filters
  | array items => .delimiter line "[" :: (printItems line items ++ [.delimiter line "]"])
  | object members =>
    .delimiter line "\x7b" :: (printMembers line members ++ [.delimiter line "\x7d"])
  | _ => []

/-- The colon and the value that a condition has if its test fails. -/
def printOtherwise (line : Nat) : Option Node → List Token
  | none => []
  | some n => .delimiter line ":" :: bracketed line n (print line n)

/-- Items between commas. -/
def printItems (line : Nat) : List Node → List Token
  | [] => []
  | n :: ns => bracketed line n (print line n) ++ printMoreItems line ns

/-- Items, each behind a comma. -/
def printMoreItems (line : Nat) : List Node → List Token
  | [] => []
  | n :: ns => .delimiter line "," :: (bracketed line n (print line n) ++ printMoreItems line ns)

/-- Members between commas. -/
def printMembers (line : Nat) : List Member → List Token
  | [] => []
  | .mk key value :: ms =>
    bracketed line key (print line key) ++
      .delimiter line ":" :: (bracketed line value (print line value) ++ printMoreMembers line ms)

/-- Members, each behind a comma. -/
def printMoreMembers (line : Nat) : List Member → List Token
  | [] => []
  | .mk key value :: ms =>
    .delimiter line "," :: (bracketed line key (print line key) ++
      .delimiter line ":" :: (bracketed line value (print line value) ++ printMoreMembers line ms))

end

/-- The tokens of an operand. -/
def operand (line : Nat) (n : Node) : List Token :=
  bracketed line n (print line n)

section

variable {line : Nat} {a b : Node}

/-- The operands keep their order, with the token of the operator between them. -/
theorem print_binary {op : BinaryOp} :
    (binary op a b).print line = a.operand line ++ op.token line :: b.operand line :=
  rfl

/-- The word `not` stands before its operand. -/
theorem print_negation :
    (negation a).print line = ⟨.logical, "not", line⟩ :: a.operand line :=
  rfl

/-- The test, the two branches, and the colon only if there is a second one. -/
theorem print_conditional {o : Option Node} :
    (conditional a b o).print line =
      a.operand line ++ .delimiter line "?" :: (b.operand line ++ printOtherwise line o) :=
  rfl

theorem print_member :
    (member a b).print line = a.operand line ++ ⟨.logical, "in", line⟩ :: b.operand line :=
  rfl

/-- A point before every segment, and nothing behind the last one. -/
theorem print_path {segments : List String} :
    (path a segments).print line = a.operand line ++ printNames line "." segments :=
  rfl

/-- The key of an index is an operand too, so a compound one is in parentheses within the brackets.
-/
theorem print_index :
    (index a b).print line =
      a.operand line ++ .delimiter line "[" :: (b.operand line ++ [.delimiter line "]"]) :=
  rfl

/-- Parentheses around the arguments, also if there are none. -/
theorem print_call {args : List Node} :
    (call a args).print line =
      a.operand line ++ .delimiter line "(" :: (printItems line args ++ [.delimiter line ")"]) :=
  rfl

/-- A filter is a name behind a bar, so it is printed as a segment is behind a point. -/
theorem print_filtered {filters : List String} :
    (filtered a filters).print line = a.operand line ++ printNames line "|" filters :=
  rfl

/-- Brackets around the items, also if there are none. -/
theorem print_array {items : List Node} :
    (array items).print line =
      .delimiter line "[" :: (printItems line items ++ [.delimiter line "]"]) :=
  rfl

theorem print_object {members : List Member} :
    (object members).print line =
      .delimiter line "\x7b" :: (printMembers line members ++ [.delimiter line "\x7d"]) :=
  rfl

end

/-- Every item but the first one has a comma before it. -/
theorem printMoreItems_cons {line : Nat} {n : Node} {ns : List Node} :
    printMoreItems line (n :: ns) =
      .delimiter line "," :: (n.operand line ++ printMoreItems line ns) :=
  rfl

/-- Every member but the first one has a comma before it, and a colon between key and value. -/
theorem printMoreMembers_cons {line : Nat} {key value : Node} {ms : List Member} :
    printMoreMembers line (.mk key value :: ms) =
      .delimiter line "," :: (key.operand line ++
        .delimiter line ":" :: (value.operand line ++ printMoreMembers line ms)) :=
  rfl

end Node

/-- The nodes that stand for expressions: leaves, operators, conditions, memberships, paths,
positions, calls, filters, arrays and objects. -/
inductive Expression : Node → Prop
  | leaf {l : Leaf} : l.IsToken → Expression (.leaf l)
  | binary (op : BinaryOp) {a b : Node} : Expression a → Expression b → Expression (.binary op a b)
  | negation {a : Node} : Expression a → Expression (.negation a)
  | conditional {a b : Node} {o : Option Node} :
      Expression a → Expression b → (∀ n ∈ o, Expression n) → Expression (.conditional a b o)
  | member {a b : Node} : Expression a → Expression b → Expression (.member a b)
  | path {a : Node} {segments : List String} :
      Expression a → segments ≠ [] → Expression (.path a segments)
  | index {a key : Node} : Expression a → Expression key → Expression (.index a key)
  | call {a : Node} {args : List Node} :
      Expression a → (∀ n ∈ args, Expression n) → Expression (.call a args)
  | filtered {a : Node} {filters : List String} :
      Expression a → filters ≠ [] → Expression (.filtered a filters)
  | array {items : List Node} : (∀ n ∈ items, Expression n) → Expression (.array items)
  | object {members : List Member} :
      (∀ m ∈ members, Expression m.key) → (∀ m ∈ members, Expression m.value) →
        Expression (.object members)

/-! ## The first token of an operand -/

/-- An operand starts with the token of a leaf or with an opening parenthesis. -/
theorem Expression.operand_head {n : Node} (h : Expression n) (line : Nat) :
    ∃ t ts, n.operand line = t :: ts ∧ (t.kind ≠ .delimiter ∨ t.text = "(") := by
  cases h with
  | @leaf l hl =>
    refine ⟨l.token line, [], rfl, Or.inl ?_⟩
    rcases l with _ | _ | _ | b | _
    case bool => cases b <;> exact TokenKind.noConfusion
    all_goals exact TokenKind.noConfusion
  | _ => exact ⟨_, _, rfl, Or.inr rfl⟩

/-! ## The tokens of an expression -/

section

variable {line : Nat} {n : Node} {t : Token}

/-- Punctuation is neither a word of the language nor a comment. -/
theorem Token.isPlain_delimiter {text : String} : (Token.delimiter line text).IsPlain := by
  simp [IsPlain, delimiter]

/-- The token of a leaf is a word or a value, whatever leaf it is. -/
theorem Leaf.isPlain_token {l : Leaf} : (l.token line).IsPlain := by
  rcases l with _ | _ | _ | b | _
  case bool => cases b <;> simp [Token.IsPlain, token, tokenKind]
  all_goals simp [Token.IsPlain, token, tokenKind]

/-- Parentheses are plain, so an operand is plain if what it prints is. -/
theorem isPlain_operand (h : ∀ t ∈ n.print line, t.IsPlain) (ht : t ∈ n.operand line) :
    t.IsPlain := by
  unfold Node.operand Node.bracketed at ht
  split at ht
  · exact h t ht
  · simp only [List.cons_append, List.mem_cons, List.mem_append, List.not_mem_nil,
      or_false] at ht
    rcases ht with rfl | ht | rfl
    · exact Token.isPlain_delimiter
    · exact h t ht
    · exact Token.isPlain_delimiter

/-- Segments and filters are words behind signs, which end no line. -/
theorem isPlain_printNames {sign : String} {names : List String}
    (ht : t ∈ Node.printNames line sign names) : t.IsPlain := by
  obtain ⟨name, -, ht⟩ := List.mem_flatMap.1 ht
  simp only [List.mem_cons, List.not_mem_nil, or_false] at ht
  rcases ht with rfl | rfl
  · exact Token.isPlain_delimiter
  · simp [Token.IsPlain]

/-- The commas between items add nothing that could end the expression. -/
theorem isPlain_printMoreItems {ns : List Node} (h : ∀ n ∈ ns, ∀ t ∈ n.print line, t.IsPlain)
    (ht : t ∈ Node.printMoreItems line ns) : t.IsPlain := by
  induction ns with
  | nil => simp [Node.printMoreItems] at ht
  | cons n ns ih =>
    rw [Node.printMoreItems_cons, List.mem_cons, List.mem_append] at ht
    rcases ht with rfl | ht | ht
    · exact Token.isPlain_delimiter
    · exact isPlain_operand (h n (by simp)) ht
    · exact ih (fun m hm => h m (by simp [hm])) ht

/-- The same from the first item on, which has no comma. -/
theorem isPlain_printItems {ns : List Node} (h : ∀ n ∈ ns, ∀ t ∈ n.print line, t.IsPlain)
    (ht : t ∈ Node.printItems line ns) : t.IsPlain := by
  cases ns with
  | nil => simp [Node.printItems] at ht
  | cons n ns =>
    rcases List.mem_append.1 ht with ht | ht
    · exact isPlain_operand (h n (by simp)) ht
    · exact isPlain_printMoreItems (fun m hm => h m (by simp [hm])) ht

/-- Members are plain if their keys and values are; the commas and colons always are. -/
theorem isPlain_printMoreMembers {ms : List Member}
    (hkeys : ∀ m ∈ ms, ∀ t ∈ m.key.print line, t.IsPlain)
    (hvalues : ∀ m ∈ ms, ∀ t ∈ m.value.print line, t.IsPlain)
    (ht : t ∈ Node.printMoreMembers line ms) : t.IsPlain := by
  induction ms with
  | nil => simp [Node.printMoreMembers] at ht
  | cons m ms ih =>
    obtain ⟨key, value⟩ := m
    simp only [Node.printMoreMembers_cons, List.mem_cons, List.mem_append] at ht
    rcases ht with rfl | ht | rfl | ht | ht
    · exact Token.isPlain_delimiter
    · exact isPlain_operand (hkeys (.mk key value) (by simp)) ht
    · exact Token.isPlain_delimiter
    · exact isPlain_operand (hvalues (.mk key value) (by simp)) ht
    · exact ih (fun m hm => hkeys m (by simp [hm])) (fun m hm => hvalues m (by simp [hm])) ht

theorem isPlain_printMembers {ms : List Member}
    (hkeys : ∀ m ∈ ms, ∀ t ∈ m.key.print line, t.IsPlain)
    (hvalues : ∀ m ∈ ms, ∀ t ∈ m.value.print line, t.IsPlain)
    (ht : t ∈ Node.printMembers line ms) : t.IsPlain := by
  cases ms with
  | nil => simp [Node.printMembers] at ht
  | cons m ms =>
    have hmore : t ∈ Node.printMoreMembers line (m :: ms) := by
      obtain ⟨key, value⟩ := m
      exact List.mem_cons_of_mem _ ht
    exact isPlain_printMoreMembers hkeys hvalues hmore

/-- An expression of any size is printed without a mark that would end it, so a reading of it stops
only where the printing does. -/
theorem Expression.isPlain_print (hn : Expression n) : ∀ t ∈ n.print line, t.IsPlain := by
  induction hn with
  | leaf hl => exact List.forall_mem_singleton.2 Leaf.isPlain_token
  | binary op ha hb iha ihb =>
    rw [Node.print_binary, List.forall_mem_append, List.forall_mem_cons]
    exact ⟨fun t => isPlain_operand iha, op.isPlain_token, fun t => isPlain_operand ihb⟩
  | negation ha iha =>
    rw [Node.print_negation, List.forall_mem_cons]
    exact ⟨by simp [Token.IsPlain], fun t => isPlain_operand iha⟩
  -- the colon and what follows it are there only if there is a second branch
  | @conditional a b o ha hb ho iha ihb iho =>
    rw [Node.print_conditional, List.forall_mem_append, List.forall_mem_cons,
      List.forall_mem_append]
    refine ⟨fun t => isPlain_operand iha, Token.isPlain_delimiter, fun t => isPlain_operand ihb, ?_⟩
    cases o with
    | none => simp [Node.printOtherwise]
    | some n =>
      exact List.forall_mem_cons.2 ⟨Token.isPlain_delimiter, fun t => isPlain_operand (iho n rfl)⟩
  | member ha hb iha ihb =>
    rw [Node.print_member, List.forall_mem_append, List.forall_mem_cons]
    exact ⟨fun t => isPlain_operand iha, by simp [Token.IsPlain], fun t => isPlain_operand ihb⟩
  | path ha hne iha =>
    rw [Node.print_path, List.forall_mem_append]
    exact ⟨fun t => isPlain_operand iha, fun t => isPlain_printNames⟩
  | index ha hkey iha ihkey =>
    rw [Node.print_index, List.forall_mem_append, List.forall_mem_cons, List.forall_mem_append,
      List.forall_mem_singleton]
    exact ⟨fun t => isPlain_operand iha, Token.isPlain_delimiter, fun t => isPlain_operand ihkey,
      Token.isPlain_delimiter⟩
  | call ha hargs iha ihargs =>
    rw [Node.print_call, List.forall_mem_append, List.forall_mem_cons, List.forall_mem_append,
      List.forall_mem_singleton]
    exact ⟨fun t => isPlain_operand iha, Token.isPlain_delimiter,
      fun t => isPlain_printItems ihargs, Token.isPlain_delimiter⟩
  | filtered ha hne iha =>
    rw [Node.print_filtered, List.forall_mem_append]
    exact ⟨fun t => isPlain_operand iha, fun t => isPlain_printNames⟩
  | array hitems ihitems =>
    rw [Node.print_array, List.forall_mem_cons, List.forall_mem_append, List.forall_mem_singleton]
    exact ⟨Token.isPlain_delimiter, fun t => isPlain_printItems ihitems, Token.isPlain_delimiter⟩
  | object hkeys hvalues ihkeys ihvalues =>
    rw [Node.print_object, List.forall_mem_cons, List.forall_mem_append, List.forall_mem_singleton]
    exact ⟨Token.isPlain_delimiter, fun t => isPlain_printMembers ihkeys ihvalues,
      Token.isPlain_delimiter⟩

/-- Nothing is printed as no tokens: there is always a first token to decide by. -/
theorem Expression.print_ne_nil (hn : Expression n) (line : Nat) : n.print line ≠ [] := by
  cases hn with
  | @path a segments ha hne =>
    obtain ⟨t, ts, hts, -⟩ := ha.operand_head line
    simp [Node.print_path, hts]
  | @filtered a filters ha hne =>
    obtain ⟨t, ts, hts, -⟩ := ha.operand_head line
    simp [Node.print_filtered, hts]
  | _ => simp [Node.print]

end

end Stencil
