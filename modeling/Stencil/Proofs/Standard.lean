import Stencil.Template.Compile
import Stencil.Template.Standard
/-!
# The words of the standard grammar

The registrations of the standard grammar, read as a table: which words open an expression, which
join one to an operand, and how strongly they bind. The table is computed once; everything after
it looks words up. The rule of `elem` is a parameter, so that what is said here also holds of a
grammar that is stricter about elements than the standard one.
-/

namespace Stencil

/-- Whether tokens of the kind are looked up among the words of a grammar. -/
def TokenKind.isWord : TokenKind → Bool
  | .literal | .string | .number | .newline | .stop => false
  | _ => true

namespace Grammar

/-- The standard grammar with another rule for `elem`. -/
def standardWith (onElem : PrefixRule) : Grammar :=
  standard.add ⟨"elem", 0, some onElem, none⟩

/-- The words of the standard grammar in the order of their registration. -/
def entries (onElem : PrefixRule) : Table Symbol :=
  [("+", ⟨.arithmetic, 50, none, none⟩), ("-", ⟨.arithmetic, 50, none, none⟩),
    ("*", ⟨.arithmetic, 60, none, none⟩), ("/", ⟨.arithmetic, 60, none, none⟩),
    ("==", ⟨.comparison, 40, none, none⟩), ("!=", ⟨.comparison, 40, none, none⟩),
    ("<", ⟨.comparison, 40, none, none⟩), ("<=", ⟨.comparison, 40, none, none⟩),
    (">", ⟨.comparison, 40, none, none⟩), (">=", ⟨.comparison, 40, none, none⟩),
    ("and", ⟨.logical, 30, none, some Operation.logical⟩),
    ("or", ⟨.logical, 30, none, some Operation.logical⟩),
    ("in", ⟨.logical, 80, none, some Operation.membership⟩),
    ("not", ⟨.logical, 80, some Operation.negation, none⟩),
    ("?", ⟨.delimiter, 20, none, some Operation.conditional⟩),
    ("=", ⟨.assignment, 10, none, some Operation.attributePair⟩),
    ("(", ⟨.delimiter, 80, some Operation.group, some Operation.call⟩),
    ("[", ⟨.delimiter, 80, some Operation.array, some Operation.index⟩),
    ("\x7b", ⟨.delimiter, 80, some Operation.object, none⟩),
    (".", ⟨.delimiter, 80, none, some Operation.path⟩),
    ("|", ⟨.delimiter, 80, none, some Operation.filtered⟩),
    ("#", ⟨.comment, 0, some Statement.comment, none⟩),
    ("if", ⟨.keyword, 0, some Statement.choice, none⟩),
    ("else", ⟨.keyword, 0, some Statement.branch, none⟩),
    ("for", ⟨.keyword, 0, some Statement.loop, none⟩),
    ("render", ⟨.keyword, 0, some Statement.render, none⟩),
    ("set", ⟨.keyword, 0, some Statement.assignment, none⟩),
    ("elem", ⟨.keyword, 0, some onElem, none⟩),
    ("elex", ⟨.keyword, 0, some Statement.elementText, none⟩)]

variable {onElem : PrefixRule}

/-- The table is computed from the registrations once and for all. -/
theorem symbols_standard : standard.symbols = entries Statement.element :=
  (rfl)

theorem symbols_standardWith : (standardWith onElem).symbols = entries onElem :=
  (rfl)

/-! ## The vocabulary

Registration adds to the vocabulary only what is not there. -/

/-- A word that is there already does not change the vocabulary. -/
theorem vocabulary_add {g : Grammar} {r : Registration}
    (h : Table.has g.vocabulary r.text = true) : (g.add r).vocabulary = g.vocabulary := by
  change Vocabulary.define _ _ _ = _
  rw [Vocabulary.define, if_pos h]

/-- Nor do many of them. -/
theorem vocabulary_foldl_add {rs : List Registration} {g : Grammar}
    (h : ∀ r ∈ rs, Table.has g.vocabulary r.text = true) :
    (rs.foldl add g).vocabulary = g.vocabulary := by
  induction rs generalizing g with
  | nil => rfl
  | cons r rs ih =>
    have hr : (g.add r).vocabulary = g.vocabulary := vocabulary_add (h r (by simp))
    rw [List.foldl_cons, ih fun s hs => ?_, hr]
    rw [hr]
    exact h s (by simp [hs])

/-- The words of the grammar are those of the standard vocabulary. -/
theorem vocabulary_standard : standard.vocabulary = .standard :=
  vocabulary_foldl_add (by decide +kernel)

theorem vocabulary_standardWith : (standardWith onElem).vocabulary = .standard := by
  rw [standardWith, vocabulary_add, vocabulary_standard]
  rw [vocabulary_standard]
  rfl

/-- A grammar is its words and its rules. -/
theorem eq_of_parts {g g' : Grammar} (hv : g.vocabulary = g'.vocabulary)
    (hs : g.symbols = g'.symbols) : g = g' := by
  cases g
  cases g'
  simp_all

/-- With its own rule the grammar is the standard one. -/
theorem standardWith_element : standardWith Statement.element = standard :=
  eq_of_parts (vocabulary_standardWith.trans vocabulary_standard.symm)
    (symbols_standardWith.trans symbols_standard.symm)

/-! ## Looking words up -/

/-- A token of a word is looked up by its text. -/
theorem symbol?_eq_get? {g : Grammar} {t : Token} (h : t.kind.isWord = true) :
    g.symbol? t = Table.get? g.symbols t.text := by
  rw [symbol?]
  split <;> simp_all [TokenKind.isWord]

/-- So the table tells what the word does. -/
theorem symbol?_of_isWord {t : Token} (h : t.kind.isWord = true) :
    (standardWith onElem).symbol? t = Table.get? (entries onElem) t.text := by
  rw [← symbols_standardWith, symbol?_eq_get? h]

/-- Literals, strings and numbers are never words, whatever their text is. -/
theorem symbol?_of_not_isWord {g : Grammar} {t : Token} (h : t.kind.isWord = false) :
    g.symbol? t = none := by
  rw [symbol?]
  split <;> simp_all [TokenKind.isWord]

theorem symbol?_standard {t : Token} (h : t.kind.isWord = true) :
    standard.symbol? t = Table.get? (entries Statement.element) t.text := by
  rw [← standardWith_element, symbol?_of_isWord h]

/-- A text without an entry has no rule and no power, whatever token it is of. -/
theorem power_of_get?_none {t : Token} (h : Table.get? (entries Statement.element) t.text = none) :
    standard.power t = 0 := by
  have hs : standard.symbol? t = none := by
    cases hk : t.kind.isWord with
    | true => rw [symbol?_standard hk, h]
    | false => exact symbol?_of_not_isWord hk
  rw [power, hs]
  rfl

/-- Another rule for `elem` changes the entry of this word and no other. -/
theorem get?_entries {text : String} (h : text ≠ "elem") :
    Table.get? (entries onElem) text = Table.get? (entries Statement.element) text :=
  have hinsert : entries onElem =
      Table.insert (entries Statement.element) "elem" ⟨.keyword, 0, some onElem, none⟩ := rfl
  hinsert ▸ Table.get?_insert_of_ne _ _ h.symm

/-- The rule for `elem` is asked for at that word only. -/
theorem symbol?_standardWith {t : Token} (h : t.text ≠ "elem") :
    (standardWith onElem).symbol? t = standard.symbol? t := by
  cases hk : t.kind.isWord with
  | true => rw [symbol?_of_isWord hk, symbol?_standard hk, get?_entries h]
  | false => rw [symbol?_of_not_isWord hk, symbol?_of_not_isWord hk]

/-- The rule for `elem` does not change how strongly words bind. -/
theorem power_standardWith {t : Token} : (standardWith onElem).power t = standard.power t := by
  by_cases h : t.text = "elem"
  · cases hk : t.kind.isWord with
    | true =>
      rw [power, power, symbol?_of_isWord hk, symbol?_standard hk, h]
      rfl
    | false => rw [power, power, symbol?_of_not_isWord hk, symbol?_of_not_isWord hk]
  · rw [power, power, symbol?_standardWith h]

/-- What a token does at the start of an expression. -/
def opening? (g : Grammar) (t : Token) : Option PrefixRule :=
  (g.symbol? t).bind Symbol.prefixRule

/-- What a token does behind an operand. -/
def joining? (g : Grammar) (t : Token) : Option InfixRule :=
  (g.symbol? t).bind Symbol.infixRule

/-- What opens an expression by a rule is a word. -/
theorem isWord_of_opening? {g : Grammar} {t : Token} {rule : PrefixRule}
    (h : g.opening? t = some rule) : t.kind.isWord = true := by
  cases hk : t.kind.isWord with
  | true => rfl
  | false =>
    rw [opening?, symbol?_of_not_isWord hk] at h
    cases h

/-- A word with a rule starts an expression by that rule. -/
theorem start_of_opening? {g : Grammar} {t : Token} {l : Level} {rule : PrefixRule}
    (h : g.opening? t = some rule) : g.start l t = rule l t := by
  rw [start, ← opening?, h]

/-- Without a rule a token can only be a leaf. -/
theorem start_of_opening?_none {g : Grammar} {t : Token} {l : Level} (h : g.opening? t = none) :
    g.start l t = do return some (.leaf (← Level.leaf t)) := by
  rw [start, ← opening?, h]

/-- A word with a rule goes on by that rule. -/
theorem extend_of_joining? {g : Grammar} {t : Token} {l : Level} {left : Node} {rule : InfixRule}
    (h : g.joining? t = some rule) : g.extend l t left = rule l t left := by
  rw [extend, ← joining?, h]

/-- Without a rule a word can only be an operator. -/
theorem extend_of_joining?_none {g : Grammar} {t : Token} {l : Level} {left : Node}
    (h : g.joining? t = none) : g.extend l t left = l.binary t left (g.power t) := by
  rw [extend, ← joining?, h]

/-- The words but `elem` that open an expression, with what they do there. -/
inductive Opens : String → PrefixRule → Prop
  | negation : Opens "not" Operation.negation
  | group : Opens "(" Operation.group
  | array : Opens "[" Operation.array
  | object : Opens "\x7b" Operation.object
  | comment : Opens "#" Statement.comment
  | choice : Opens "if" Statement.choice
  | branch : Opens "else" Statement.branch
  | loop : Opens "for" Statement.loop
  | render : Opens "render" Statement.render
  | assignment : Opens "set" Statement.assignment
  | elementText : Opens "elex" Statement.elementText

/-- The words that join an operand to what follows by a rule of their own. -/
inductive Joins : String → InfixRule → Prop
  | conjunction : Joins "and" Operation.logical
  | disjunction : Joins "or" Operation.logical
  | membership : Joins "in" Operation.membership
  | conditional : Joins "?" Operation.conditional
  | attributePair : Joins "=" Operation.attributePair
  | call : Joins "(" Operation.call
  | index : Joins "[" Operation.index
  | path : Joins "." Operation.path
  | filtered : Joins "|" Operation.filtered

/-- Each rule in the table but that of `elem` is one of the list. -/
theorem opens_of_mem {text : String} {s : Symbol} {rule : PrefixRule}
    (h : (text, s) ∈ entries Statement.element) (ht : text ≠ "elem")
    (hr : s.prefixRule = some rule) : Opens text rule := by
  have hmem : (text, rule) ∈
      (entries Statement.element).filterMap fun e => e.2.prefixRule.map (e.1, ·) :=
    List.mem_filterMap.2 ⟨_, h, by simp [hr]⟩
  have hall : ∀ e ∈ (entries Statement.element).filterMap fun e => e.2.prefixRule.map (e.1, ·),
      e.1 ≠ "elem" → Opens e.1 e.2 := by
    simp only [entries, List.filterMap_cons, List.filterMap_nil, Option.map_none, Option.map_some,
      List.forall_mem_cons, List.not_mem_nil, false_implies, implies_true, and_true]
    exact ⟨fun _ => .negation, fun _ => .group, fun _ => .array, fun _ => .object,
      fun _ => .comment, fun _ => .choice, fun _ => .branch, fun _ => .loop, fun _ => .render,
      fun _ => .assignment, fun h => absurd rfl h, fun _ => .elementText⟩
  exact hall _ hmem ht

/-- A token opens an expression by the rule for elements, or by a rule that does not depend on
it, or by none. -/
theorem opening?_cases (t : Token) :
    (t.text = "elem" ∧ ∀ onElem, (standardWith onElem).opening? t = some onElem) ∨
    (∃ rule, Opens t.text rule ∧ ∀ onElem, (standardWith onElem).opening? t = some rule) ∨
    ∀ onElem, (standardWith onElem).opening? t = none := by
  cases hk : t.kind.isWord with
  | false =>
    refine Or.inr (Or.inr fun onElem => ?_)
    rw [opening?, symbol?_of_not_isWord hk]
    rfl
  | true =>
    by_cases ht : t.text = "elem"
    · refine Or.inl ⟨ht, fun onElem => ?_⟩
      rw [opening?, symbol?_of_isWord hk, ht]
      rfl
    -- the entries of all other words are those of the standard grammar
    · have hsame : ∀ onElem, (standardWith onElem).opening? t = standard.opening? t :=
        fun onElem => by rw [opening?, opening?, symbol?_standardWith ht]
      cases hr : standard.opening? t with
      | none => exact Or.inr (Or.inr fun onElem => (hsame onElem).trans hr)
      | some rule =>
        obtain ⟨s, hs, hrule⟩ := Option.bind_eq_some_iff.1 hr
        rw [symbol?_standard hk] at hs
        exact Or.inr (Or.inl ⟨rule, opens_of_mem (Table.mem_of_get? hs) ht hrule,
          fun onElem => (hsame onElem).trans hr⟩)

/-- The same for a token behind an operand, where all rules are shared. -/
theorem joining?_cases (t : Token) :
    (∃ rule, Joins t.text rule ∧ ∀ onElem, (standardWith onElem).joining? t = some rule) ∨
    ∀ onElem, (standardWith onElem).joining? t = none := by
  have hsame : ∀ onElem, (standardWith onElem).joining? t = standard.joining? t := by
    intro onElem
    by_cases ht : t.text = "elem"
    · cases hk : t.kind.isWord with
      | true =>
        rw [joining?, joining?, symbol?_of_isWord hk, symbol?_standard hk, ht]
        rfl
      | false => rw [joining?, joining?, symbol?_of_not_isWord hk, symbol?_of_not_isWord hk]
    · rw [joining?, joining?, symbol?_standardWith ht]
  cases hr : standard.joining? t with
  | none => exact Or.inr fun onElem => (hsame onElem).trans hr
  | some rule =>
    refine Or.inl ⟨rule, ?_, fun onElem => (hsame onElem).trans hr⟩
    obtain ⟨s, hs, hrule⟩ := Option.bind_eq_some_iff.1 hr
    have hk : t.kind.isWord = true := by
      cases hk : t.kind.isWord with
      | true => rfl
      | false => simp [symbol?_of_not_isWord hk] at hs
    rw [symbol?_standard hk] at hs
    have hmem : (t.text, rule) ∈
        (entries Statement.element).filterMap fun e => e.2.infixRule.map (e.1, ·) :=
      List.mem_filterMap.2 ⟨_, Table.mem_of_get? hs, by simp [hrule]⟩
    -- of the entries with a rule there are nine, one for each constructor
    have hall : ∀ e ∈ (entries Statement.element).filterMap fun e => e.2.infixRule.map (e.1, ·),
        Joins e.1 e.2 := by
      simp only [entries, List.filterMap_cons, List.filterMap_nil, Option.map_none,
        Option.map_some, List.forall_mem_cons, List.not_mem_nil, false_implies, implies_true,
        and_true]
      exact ⟨.conjunction, .disjunction, .membership, .conditional, .attributePair, .call, .index,
        .path, .filtered⟩
    exact hall _ hmem

end Grammar

end Stencil
