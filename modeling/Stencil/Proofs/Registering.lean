import Mathlib.Data.List.Infix
import Stencil.Proofs.Lexing
import Stencil.Proofs.Parallel
/-!
# New words

A host can register words in a grammar. The division into tokens asks the vocabulary about many
parts of a source: whole words, their ends, and every character of what is left of them; and reading
asks the grammar about the tokens. All these texts stand in the source. So a word that does not
stand in a source changes nothing about it, whatever it binds and does.
-/

namespace Stencil

namespace Lexer

/-- Two vocabularies know the parts of a text alike. -/
def AgreeOn (v v' : Vocabulary) (cs : List Char) : Prop :=
  ∀ x, x <:+: cs → v'.kind? (String.ofList x) = v.kind? (String.ofList x)

variable {v v' : Vocabulary} {cs ds : List Char}

theorem AgreeOn.mono (h : AgreeOn v v' cs) (hsub : ds <:+: cs) : AgreeOn v v' ds :=
  fun x hx => h x (hx.trans hsub)

/-- A single character is a part as well. -/
theorem AgreeOn.char (h : AgreeOn v v' cs) {c : Char} (hc : c ∈ cs) :
    v'.charKind? c = v.charKind? c :=
  h [c] ((List.singleton_infix_iff _ _).2 hc)

/-- So which characters stand inside of words is the same. -/
theorem AgreeOn.isInner (h : AgreeOn v v' cs) : ∀ c ∈ cs, isInner v' c = isInner v c := by
  intro c hc
  rw [Lexer.isInner, Lexer.isInner, h.char hc]

/-- Conditions that agree on a list divide it at the same place. -/
theorem span_congr {p q : Char → Bool} (h : ∀ c ∈ cs, p c = q c) :
    cs.takeWhile p = cs.takeWhile q ∧ cs.dropWhile p = cs.dropWhile q := by
  induction cs with
  | nil => exact ⟨rfl, rfl⟩
  | cons c cs ih =>
    obtain ⟨hhead, htail⟩ := List.forall_mem_cons.1 h
    obtain ⟨htake, hdrop⟩ := ih htail
    rw [List.takeWhile_cons, List.takeWhile_cons, List.dropWhile_cons, List.dropWhile_cons, hhead,
      htake, hdrop]
    exact ⟨rfl, rfl⟩

/-- A last character that is no word for the one vocabulary is none for the other one. -/
theorem AgreeOn.getLast? (h : AgreeOn v v' cs) {hne : cs ≠ []}
    (hlast : v.charKind? (cs.getLast hne) = none) : ∀ e ∈ cs.getLast?, v'.charKind? e = none := by
  intro e he
  rw [List.getLast?_eq_some_getLast hne] at he
  cases he
  exact (h.char (List.getLast_mem hne)).trans hlast

/-- A word is divided by what the vocabulary knows of its parts. -/
theorem word_congr (h : AgreeOn v v' cs) : word v' cs = word v cs := by
  fun_induction word v cs with
  | case1 => rw [word]
  | case2 c rest kind hkind =>
    exact word_of_kind? (List.cons_ne_nil _ _) ((h _ List.infix_rfl).trans hkind)
  | case3 c rest hkind hnumeral =>
    exact word_of_isNumeral (List.cons_ne_nil _ _) ((h _ List.infix_rfl).trans hkind) hnumeral
  -- the word is cut at its last character
  | case4 c rest hkind hnumeral last kind hlast ih =>
    have hself := (h _ List.infix_rfl).trans hkind
    have hend := (h.char (List.getLast_mem (List.cons_ne_nil c rest))).trans hlast
    rw [word, ← ih (h.mono (List.dropLast_prefix _).isInfix)]
    simp only [hself, hnumeral, hend]
    rfl
  -- the word is cut at its first character
  | case5 c rest hkind hnumeral last hlast kind hfirst ih =>
    rw [word_cons ((h _ List.infix_rfl).trans hkind) (by simpa using hnumeral) (h.getLast? hlast)
      ((h.char List.mem_cons_self).trans hfirst), ih (h.mono (List.suffix_cons _ _).isInfix)]
  | case6 c rest hkind hnumeral last hlast hfirst hafter =>
    have hspan := span_congr (h.mono (List.suffix_cons c rest).isInfix).isInner
    rw [word_cut ((h _ List.infix_rfl).trans hkind) (by simpa using hnumeral) (h.getLast? hlast)
      ((h.char List.mem_cons_self).trans hfirst), hspan.2, hafter]
  -- the word is cut at a character inside of it
  | case7 c rest hkind hnumeral last hlast hfirst d after hafter ih =>
    have hspan := span_congr (h.mono (List.suffix_cons c rest).isInfix).isInner
    have hrest : d :: after <:+ c :: rest :=
      (hafter ▸ List.dropWhile_suffix _ : d :: after <:+ rest).trans (List.suffix_cons _ _)
    rw [word_cut ((h _ List.infix_rfl).trans hkind) (by simpa using hnumeral) (h.getLast? hlast)
      ((h.char List.mem_cons_self).trans hfirst), hspan.1, hspan.2, hafter]
    dsimp only
    rw [h.char (hrest.subset List.mem_cons_self),
      ih (h.mono ((List.suffix_cons _ _).trans hrest).isInfix)]

theorem lexemes_congr {chunk : Chunk} (h : AgreeOn v v' chunk.text) :
    chunk.lexemes v' = chunk.lexemes v := by
  cases chunk with
  | plain text =>
    refine List.flatMap_congr fun w hw => word_congr (h.mono ?_)
    exact within_of_mem_splitOn (List.mem_of_mem_filter hw)
  | quoted text => rfl

/-- Only what is visible of a line matters. -/
theorem line_congr {number : Nat} {text : List Char} (h : AgreeOn v v' (visible text)) :
    line v' number text = line v number text := by
  have hclean := h.mono (clean_within text)
  unfold line
  dsimp only
  cases hparts : chunks (clean text) with
  | error e => rfl
  | ok parts =>
    have hlexemes : parts.flatMap (Chunk.lexemes v') = parts.flatMap (Chunk.lexemes v) :=
      List.flatMap_congr fun chunk hchunk =>
        lexemes_congr (hclean.mono (within_of_mem_chunks hparts hchunk))
    dsimp only
    rw [hlexemes]

/-- Lines that agree one by one give the same tokens. -/
theorem lines_congr {number : Nat} {texts : List (List Char)}
    (h : ∀ text ∈ texts, AgreeOn v v' (visible text)) :
    lines v' number texts = lines v number texts := by
  induction texts generalizing number with
  | nil => rfl
  | cons text texts ih =>
    obtain ⟨hhere, hrest⟩ := List.forall_mem_cons.1 h
    rw [lines, lines, line_congr hhere, ih hrest]

/-- **Vocabularies that know the parts of a source alike give it the same tokens.** -/
theorem tokenizeFrom_congr {source : String} {first : Nat}
    (h : AgreeOn v v' (visible source.toList)) :
    tokenizeFrom v' source first = tokenizeFrom v source first := by
  rw [tokenizeFrom, tokenizeFrom, lines_congr fun text htext => ?_]
  exact h.mono ((within_of_mem_splitOn htext).filter _)

/-- Whether a word does not stand in a text without the characters that are dropped. -/
def Without (word text : String) : Prop :=
  ¬word.toList <:+: visible text.toList

/-- A definition changes nothing for a text in which its word does not occur. -/
theorem Without.agreeOn {word text : String} (h : Without word text) (v : Vocabulary)
    (kind : TokenKind) : AgreeOn v (v.define word kind) (visible text.toList) := by
  intro x hx
  have hne : word ≠ String.ofList x := by
    rintro rfl
    exact h (by rwa [String.toList_ofList])
  rw [Vocabulary.kind?, Vocabulary.kind?, Vocabulary.define]
  split
  · rfl
  · exact Table.get?_insert_of_ne _ _ hne

end Lexer

namespace Grammar

/-- The grammars that arise from the standard one when words are registered, without rules or with
rules of the standard grammar. -/
inductive Registered : Grammar → Prop
  | standard : Registered standard
  | register {g : Grammar} (text : String) (power : Nat) {prefixRule : Option PrefixRule}
    {infixRule : Option InfixRule} : Registered g → (∀ rule ∈ prefixRule, IsOpening rule) →
    (∀ rule ∈ infixRule, IsJoining rule) →
    Registered (g.register text power prefixRule infixRule)

end Grammar

/-- A symbol whose rules are rules of the standard grammar. -/
structure Symbol.IsStandard (s : Symbol) : Prop where
  opening : ∀ rule ∈ s.prefixRule, Grammar.IsOpening rule
  joining : ∀ rule ∈ s.infixRule, Grammar.IsJoining rule

/-- A symbol that is registered again has its new rules or keeps its old ones. -/
theorem Symbol.IsStandard.revise {s : Symbol} (h : s.IsStandard) (power : Nat)
    {prefixRule : Option PrefixRule} {infixRule : Option InfixRule}
    (hopening : ∀ rule ∈ prefixRule, Grammar.IsOpening rule)
    (hjoining : ∀ rule ∈ infixRule, Grammar.IsJoining rule) :
    (Grammar.revise s power prefixRule infixRule).IsStandard := by
  constructor
  · intro rule hrule
    cases prefixRule with
    | none => exact h.opening rule hrule
    | some _ => exact hopening rule hrule
  · intro rule hrule
    cases infixRule with
    | none => exact h.joining rule hrule
    | some _ => exact hjoining rule hrule

namespace Grammar

/-- The symbol of a token is found by its text. -/
theorem symbol?_eq_some {g : Grammar} {t : Token} {s : Symbol} (h : g.symbol? t = some s) :
    Table.get? g.symbols t.text = some s := by
  cases hk : t.kind.isWord with
  | true => rwa [symbol?_eq_get? hk] at h
  | false =>
    rw [symbol?_of_not_isWord hk] at h
    cases h

/-- That rules are standard ones is said of symbols or of tokens alike. -/
theorem hasStandardRules_iff {g : Grammar} :
    g.HasStandardRules ↔ ∀ text s, Table.get? g.symbols text = some s → s.IsStandard := by
  constructor
  · intro h text s hs
    -- any token of a word shows what the table has for its text
    have hsymbol : g.symbol? ⟨.keyword, text, 0⟩ = some s := hs
    constructor
    · exact fun rule hrule => h.opening (t := ⟨.keyword, text, 0⟩)
        (by rw [opening?, hsymbol]; exact hrule)
    · exact fun rule hrule => h.joining (t := ⟨.keyword, text, 0⟩)
        (by rw [joining?, hsymbol]; exact hrule)
  · intro h
    constructor
    · intro t rule hrule
      obtain ⟨s, hs, hrule⟩ := Option.bind_eq_some_iff.1 hrule
      exact (h _ s (symbol?_eq_some hs)).opening rule hrule
    · intro t rule hrule
      obtain ⟨s, hs, hrule⟩ := Option.bind_eq_some_iff.1 hrule
      exact (h _ s (symbol?_eq_some hs)).joining rule hrule

/-- Words that were registered with the rules of the language leave the grammar standard. -/
theorem Registered.hasStandardRules {g : Grammar} (h : g.Registered) : g.HasStandardRules := by
  induction h with
  | standard => exact hasStandardRules_standard
  | @register g text power prefixRule infixRule _ hopening hjoining ih =>
    rw [hasStandardRules_iff] at ih ⊢
    intro key s hs
    by_cases hkey : text = key
    · subst hkey
      rw [Grammar.register, Table.get?_insert_self] at hs
      obtain rfl := Option.some.inj hs
      refine Symbol.IsStandard.revise ?_ power hopening hjoining
      cases hold : Table.get? g.symbols text with
      | none => exact ⟨nofun, nofun⟩
      | some old => exact ih text old hold
    · rw [Grammar.register, Table.get?_insert_of_ne _ _ hkey] at hs
      exact ih key s hs

/-- The symbols of other words stay as they are. -/
theorem symbol?_register {g : Grammar} {word : String} {power : Nat}
    {prefixRule : Option PrefixRule} {infixRule : Option InfixRule} {t : Token}
    (h : t.kind.isWord = true → t.text ≠ word) :
    (g.register word power prefixRule infixRule).symbol? t = g.symbol? t := by
  cases hk : t.kind.isWord with
  | false => rw [symbol?_of_not_isWord hk, symbol?_of_not_isWord hk]
  | true =>
    rw [symbol?_eq_get? hk, symbol?_eq_get? hk, register]
    exact Table.get?_insert_of_ne _ _ (h hk).symm

end Grammar

/-! ## Templates without the new word -/

/-- The same nodes, where a word does not stand in the strings. -/
def Node.SameWithout (word : String) (_ : Place) (n n' : Node) : Prop :=
  n = n' ∧ ∀ s, n = .leaf (.string s) → Lexer.Without word s

/-- The same templates, where a word does not stand in the strings. -/
def Likeness.without (word : String) : Likeness where
  toWatch := .ofTokens fun t => (t.kind.isWord = true → t.text ≠ word) ∧
    (t.kind = .string → Lexer.Without word t.text)
  Text := Lexer.Without word
  below := Node.SameWithout word
  here := Node.SameWithout word
  text_of_known ht := ht.2
  lift h := h
  test h := h
  formed h := by
    refine ⟨Node.eq_of_formed And.left And.left h, ?_⟩
    cases h with
    | leaf htext => exact fun s hs => htext s (Node.leaf.inj hs)
    | child hn => exact hn.2
    | _ => nofun
  kindName h := by rw [h.1]
  leaf h l := by rw [h.1]

/-- The tokens of a text without a word are no such word, and the strings among them are again
texts without it. -/
theorem Lexer.known_of_tokenizeFrom {word : String} {v : Vocabulary} {text : String} {line : Nat}
    {ts : List Token} (h : Without word text) (hts : tokenizeFrom v text line = .ok ts) :
    ∀ t ∈ ts, (Likeness.without word).Known t := by
  intro t ht
  rcases within_of_tokenizeFrom hts ht with hk | hk | hwithin
  · exact ⟨by simp [hk, TokenKind.isWord], by simp [hk]⟩
  · exact ⟨by simp [hk, TokenKind.isWord], by simp [hk]⟩
  · refine ⟨fun _ hword => h (hword ▸ hwithin), fun _ hstring => h (hstring.trans ?_)⟩
    -- what is dropped from the string has been dropped from the text before
    have hagain := hwithin.filter fun c => !isControl c
    rwa [visible, List.filter_filter, List.filter_congr fun _ _ => Bool.and_self _] at hagain

/-- **A word that does not stand in a template changes nothing about it**, neither its tokens nor
what they are read as, in every grammar that arises from the standard one by registering words. The
word need not be new to the grammar, and its rules may be any functions. -/
theorem Dialect.compile_registered {d : Dialect} (hd : d.grammar.Registered) (word : String)
    (power : Nat) (prefixRule : Option PrefixRule) (infixRule : Option InfixRule) {source : String}
    (hsource : Lexer.Without word source) :
    let d' := { d with grammar := d.grammar.register word power prefixRule infixRule }
    Lexer.tokenize d'.grammar.vocabulary source = Lexer.tokenize d.grammar.vocabulary source ∧
      ∀ name, d'.compile name source = d.compile name source := by
  intro d'
  have hdialects : (Likeness.without word).Dialects d d' := by
    refine ⟨hd.hasStandardRules, fun t ht => Grammar.symbol?_register ht.1, rfl, rfl,
      fun h => h.2 _ rfl, ?_, fun _ _ htext => Lexer.tokenizeFrom_congr (htext.agreeOn _ _),
      fun _ _ _ htext hts => Lexer.known_of_tokenizeFrom htext hts⟩
    rintro l m hl hm n _ ⟨rfl, hn⟩
    refine ⟨Statement.resolve_congr (hl.trans hm.symm) n, fun s hs => hn s ?_⟩
    unfold Statement.resolve at hs
    split at hs
    · split at hs <;> cases hs
    · exact hs
  refine ⟨hdialects.tokens source 1 hsource, fun name => ?_⟩
  have hsame : d'.parseSource source = d.parseSource source := by
    have hread := hdialects.parseSource_parallel source hsource
    generalize d.parseSource source = x at hread
    generalize d'.parseSource source = y at hread
    cases hread with
    | ok h => rw [h.1]
    | error e => rfl
  rw [compile, compile, hsame]

/-- An arrow with a rule of the host, in a grammar that already has a word more than the standard
one. The arrow does not stand in the source, though both of its characters do. -/
theorem Dialect.compile_registered_arrow :
    let rule : Option PrefixRule := some fun _ _ => pure none
    let g := Grammar.standard.register "unless" 0 none none
    let d : Dialect := ⟨g, fun _ => none, 64⟩
    let d' : Dialect := ⟨g.register "=>" 30 rule none, fun _ => none, 64⟩
    let source := "@a >= b\n@elem p title='@c'"
    g.Registered ∧ Lexer.Without "=>" source ∧
      Lexer.tokenize d'.grammar.vocabulary source = Lexer.tokenize d.grammar.vocabulary source ∧
      d'.compile "t" source = d.compile "t" source := by
  intro rule g d d' source
  have hg : g.Registered := .register "unless" 0 .standard nofun nofun
  have hsource : Lexer.Without "=>" source := by
    unfold Lexer.Without
    decide +kernel
  have h := compile_registered (d := d) hg "=>" 30 rule none hsource
  exact ⟨hg, hsource, h.1, h.2 "t"⟩

end Stencil
