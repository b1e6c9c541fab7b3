import Mathlib
import Stencil.Proofs.Faults
import Stencil.Proofs.Nesting
/-!
# Room for nesting

Whoever goes down a level has taken a token before. So a stack of more levels than there are tokens
is never used up. A string in an attribute starts again with all levels, but it is shorter than the
source around it. A limit of nesting beyond the length of the source is therefore no limit: no
template is refused for its nesting.
-/

namespace Stencil

/-- Whether a fault says that the limit of nesting is reached. -/
def SyntaxFault.isDeep : SyntaxFault → Bool
  | tooDeep _ => true
  | _ => false

/-- The watch of a text whose strings are shorter than `longest`: no error is one of nesting. -/
def Watch.brief (longest : Nat) : Watch where
  Known t := t.kind = .string → t.text.length < longest
  Told _ := True
  Due e := e.fault.isDeep = false
  told _ _ := trivial
  common _ fault _ h := by
    cases fault with
    | tooDeep _ => cases h
    | _ => rfl
  number _ _ _ _ := rfl

theorem Watch.length_lt_of_text {longest : Nat} {text : String} (h : (brief longest).Text text) :
    text.length < longest := by
  obtain ⟨t, ht, hstring, rfl⟩ := h
  exact ht hstring

/-! ## Tokens of a text -/

/-- Every part but the last one has a separator behind it. -/
theorem sum_length_splitOn (c : Char) (cs : List Char) :
    ((cs.splitOn c).map fun part => part.length + 1).sum = cs.length + 1 := by
  induction cs with
  | nil => rfl
  | cons a cs ih =>
    rw [List.splitOn_cons_eq_if_modifyHead]
    split
    · rw [List.map_cons, List.sum_cons, ih, List.length_cons, List.length_nil]
      omega
    · cases hparts : cs.splitOn c with
      | nil => exact absurd hparts (List.splitOn_ne_nil _ _)
      | cons first rest =>
        rw [hparts] at ih
        simp only [List.modifyHead_cons, List.map_cons, List.sum_cons, List.length_cons] at ih ⊢
        omega

namespace Lexer

variable {v : Vocabulary}

theorem length_word_le (cs : List Char) : (word v cs).length ≤ cs.length := by
  fun_induction word v cs with
  | case1 => simp
  | case2 c rest kind hkind => simp
  | case3 c rest _ hnumeral => simp
  | case4 c rest _ _ last kind hlast ih =>
    simp only [List.length_append, List.length_dropLast, List.length_cons, List.length_nil] at ih ⊢
    omega
  | case5 c rest _ _ last _ kind hfirst ih => simpa using ih
  | case6 c rest => simp
  | case7 c rest _ _ last _ _ d after hafter ih =>
    have hsplit := congrArg List.length
      (List.takeWhile_append_dropWhile (p := isInner v) (l := rest))
    rw [hafter] at hsplit
    simp only [List.length_append, List.length_cons] at hsplit ⊢
    omega

theorem length_plain_le (cs : List Char) : ((Chunk.plain cs).lexemes v).length ≤ cs.length := by
  have hparts : ∀ parts : List (List Char), ((parts.filter fun w => !w.isEmpty).flatMap
      (word v)).length + parts.length ≤ (parts.map fun part => part.length + 1).sum := by
    intro parts
    induction parts with
    | nil => simp
    | cons part parts ih =>
      have hpart := length_word_le (v := v) part
      rw [List.filter_cons]
      split
      · simp only [List.flatMap_cons, List.length_append, List.length_cons, List.map_cons,
          List.sum_cons] at ih ⊢
        omega
      · simp only [List.length_cons, List.map_cons, List.sum_cons] at ih ⊢
        omega
  have hall := hparts (cs.splitOn ' ')
  have hne : 0 < (cs.splitOn ' ').length := List.length_pos_iff.2 (List.splitOn_ne_nil _ _)
  rw [sum_length_splitOn] at hall
  rw [Chunk.lexemes, words]
  omega

theorem length_chunks_le {cs : List Char} {parts : List Chunk} (h : chunks cs = .ok parts) :
    (parts.flatMap (Chunk.lexemes v)).length ≤ cs.length := by
  fun_induction chunks cs generalizing parts with
  | case1 cs =>
    cases h
    rw [List.flatMap_singleton]
    exact (length_plain_le _).trans (List.takeWhile_prefix _).length_le
  | case2 => cases h
  | case3 cs _ quote rest hquote _ q after hafter =>
    rename_i ih
    cases hmore : chunks after with
    | error e =>
      rw [hmore] at h
      cases h
    | ok more =>
      rw [hmore] at h
      cases h
      have hmore := ih hmore
      have hplain := length_plain_le (v := v) (cs.takeWhile fun c => !isQuote c)
      -- the two quotes make up for the token of the string
      have hfirst := congrArg List.length
        (List.takeWhile_append_dropWhile (p := fun c => !isQuote c) (l := cs))
      have hsecond := congrArg List.length
        (List.takeWhile_append_dropWhile (p := fun c => c != quote) (l := rest))
      rw [hquote] at hfirst
      rw [hafter] at hsecond
      simp only [List.length_append, List.length_cons] at hfirst hsecond
      have hquoted :
          ((Chunk.quoted (rest.takeWhile fun c => c != quote)).lexemes v).length = 1 := rfl
      change ((Chunk.plain (cs.takeWhile fun c => !isQuote c) ::
        Chunk.quoted (rest.takeWhile fun c => c != quote) :: more).flatMap
          (Chunk.lexemes v)).length ≤ _
      rw [List.flatMap_cons, List.flatMap_cons, List.length_append, List.length_append, hquoted]
      omega

theorem length_line_le {number : Nat} {text : List Char} {ts : List Token}
    (h : line v number text = .ok ts) : ts.length ≤ text.length + 1 := by
  unfold line at h
  dsimp only at h
  split at h
  · cases h
    simp
  · split at h
    · cases h
    · next parts hparts =>
      cases h
      have hlexemes := length_chunks_le (v := v) hparts
      have hclean := (clean_sublist text).length_le
      simp only [List.length_append, List.length_map, List.length_singleton]
      omega

theorem length_lines_le {number : Nat} {texts : List (List Char)} {ts : List Token}
    (h : lines v number texts = .ok ts) :
    ts.length ≤ (texts.map fun text => text.length + 1).sum := by
  induction texts generalizing number ts with
  | nil =>
    cases h
    simp
  | cons text texts ih =>
    rw [lines] at h
    split at h
    · cases h
    · next here hhere =>
      cases hrest : lines v (number + 1) texts with
      | error e =>
        rw [hrest] at h
        cases h
      | ok rest =>
        rw [hrest] at h
        cases h
        have hhere := length_line_le hhere
        have hrest := ih hrest
        simp only [List.length_append, List.map_cons, List.sum_cons]
        omega

/-- The only lexical fault is a quote that is not closed. -/
theorem fault_of_lines {number : Nat} {texts : List (List Char)} {e : SyntaxError}
    (h : lines v number texts = .error e) : ∃ quote, e.fault = .unclosedString quote := by
  induction texts generalizing number with
  | nil => cases h
  | cons text texts ih =>
    rw [lines] at h
    split at h
    · next e' hline =>
      cases h
      unfold line at hline
      dsimp only at hline
      split at hline
      · cases hline
      · split at hline
        · next quote _ =>
          cases hline
          exact ⟨quote, rfl⟩
        · cases hline
    · cases hrest : lines v (number + 1) texts with
      | error e' =>
        rw [hrest] at h
        cases h
        exact ih hrest
      | ok rest =>
        rw [hrest] at h
        cases h

theorem fault_of_tokenizeFrom {source : String} {first : Nat} {e : SyntaxError}
    (h : tokenizeFrom v source first = .error e) : ∃ quote, e.fault = .unclosedString quote := by
  unfold tokenizeFrom at h
  cases hlines : lines v first (source.toList.splitOn '\n') with
  | error e' =>
    rw [hlines] at h
    cases h
    exact fault_of_lines hlines
  | ok init =>
    rw [hlines] at h
    cases h

theorem isDeep_of_tokenizeFrom {source : String} {first : Nat} {e : SyntaxError}
    (h : tokenizeFrom v source first = .error e) : e.fault.isDeep = false := by
  obtain ⟨quote, hfault⟩ := fault_of_tokenizeFrom h
  rw [hfault]
  rfl

/-- There are no more tokens than characters, but for the end of the last line and the stop. -/
theorem length_tokenizeFrom_le {source : String} {first : Nat} {ts : List Token}
    (h : tokenizeFrom v source first = .ok ts) : ts.length ≤ source.length + 2 := by
  unfold tokenizeFrom at h
  cases hlines : lines v first (source.toList.splitOn '\n') with
  | error e =>
    rw [hlines] at h
    cases h
  | ok init =>
    rw [hlines] at h
    cases h
    have hlength := length_lines_le hlines
    rw [sum_length_splitOn, String.length_toList] at hlength
    simp only [close, List.length_append, List.length_singleton]
    omega

end Lexer

/-! ## Templates -/

namespace Dialect

variable {d : Dialect} (hd : d.grammar = .standard)

include hd

/-- The tokens of a text are fewer than the levels if its length leaves room. -/
theorem at_of_tokenizeFrom {text : String} {line : Nat} {tokens : List Token}
    (h : Lexer.tokenizeFrom d.grammar.vocabulary text line = .ok tokens)
    (hroom : text.length + 2 < d.maxDepth) :
    (Watch.brief text.length).At d.maxDepth [] (Cursor.ofTokens tokens) := by
  rw [hd, Grammar.vocabulary_standard] at h
  refine Watch.at_ofTokens (fun t ht hstring => ?_) trivial (Nat.cast_lt.2 ?_)
  · exact Lexer.length_lt_of_tokenizeFrom Vocabulary.not_string h ht hstring
  · have hlength := Lexer.length_tokenizeFrom_le h
    have hpart := (List.takeWhile_prefix (fun t : Token => t.kind != .stop) (l := tokens)).length_le
    change (tokens.takeWhile fun t => t.kind != .stop).length < _
    omega

theorem watched_brief (longest : Nat) : d.grammar.Watched (Watch.brief longest) :=
  hd ▸ Grammar.hasStandardRules_standard.watched _

theorem isDeep_of_attributeText {budget line : Nat} {text : String}
    (hroom : text.length + 2 < d.maxDepth) {e : SyntaxError}
    (h : d.attributeText budget text line = .error e) : e.fault.isDeep = false := by
  induction budget generalizing text line e with
  | zero => cases h
  | succ budget ih =>
    rcases reread_eq_error h with htokens | ⟨ts, htokens, hcontent⟩
    · exact Lexer.isDeep_of_tokenizeFrom htokens
    · -- a string in the text is shorter than the text
      have htexts : ∀ text' line', (Watch.brief text.length).Text text' → True → ∀ e,
          d.attributeText budget text' line' = .error e → e.fault.isDeep = false := by
        intro text' line' htext _ e he
        have hshort := Watch.length_lt_of_text htext
        exact ih (by omega) he
      have hlevels := levels_watched_of_lt (watched_brief hd text.length) htexts d.maxDepth
      have hstart := at_of_tokenizeFrom hd htokens hroom
      have hends := hlevels.content .attribute _ (hstart.mono le_self_add)
      rw [hcontent] at hends
      cases hends with
      | error he => exact he

/-- **A limit beyond the length of a source is no limit**: the source is not refused for its
nesting. -/
theorem isDeep_of_parseSource {source : String} (hroom : source.length + 2 < d.maxDepth)
    {e : SyntaxError} (h : d.parseSource source = .error e) : e.fault.isDeep = false := by
  rcases parseSource_eq_error h with htokens | ⟨ts, htokens, hblock⟩
  · exact Lexer.isDeep_of_tokenizeFrom htokens
  · rw [top] at hblock
    have htexts : ∀ text line, (Watch.brief source.length).Text text → True → ∀ e,
        d.attributeText (longestText ts + 1) text line = .error e → e.fault.isDeep = false := by
      intro text line htext _ e he
      have hshort := Watch.length_lt_of_text htext
      exact isDeep_of_attributeText hd (by omega) he
    have hlevels := levels_watched_of_lt (watched_brief hd source.length) htexts d.maxDepth
    have hends := hlevels.block [] false _ (at_of_tokenizeFrom hd htokens hroom)
    rw [hblock] at hends
    cases hends with
    | error he => exact he

/-- Beyond the length of a source, all limits are the same. -/
theorem parseSource_withDepth {source : String} (hroom : source.length + 2 < d.maxDepth)
    {limit : Nat} (hle : d.maxDepth ≤ limit) :
    (d.withDepth limit).parseSource source = d.parseSource source := by
  have hdeep := fun e => isDeep_of_parseSource (e := e) hd hroom
  unfold parseSource at hdeep ⊢
  change Lexer.tokenize d.grammar.vocabulary source >>= _ = _
  cases htokens : Lexer.tokenize d.grammar.vocabulary source with
  | error e => rfl
  | ok tokens =>
    rw [htokens] at hdeep
    change (d.withDepth limit).parse tokens = d.parse tokens
    have hv : d.grammar.vocabulary = (d.withDepth limit).grammar.vocabulary := rfl
    have hup : d.parse tokens = (d.withDepth limit).parse tokens ∨
        ∃ e, d.LimitReached e ∧ d.parse tokens = .error e :=
      parse_upTo hv (fun _ _ hA => levels_upTo_withDepth hd hle hA) tokens
    rcases hup with hsame | ⟨e, he, herror⟩
    · exact hsame.symm
    · have hshallow := hdeep e herror
      rw [he] at hshallow
      cases hshallow

end Dialect

end Stencil
