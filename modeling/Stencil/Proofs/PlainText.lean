import Mathlib
import Stencil.Engine.Build
import Stencil.Proofs.Appending
import Stencil.Proofs.Lexing
import Stencil.Proofs.Lines
import Stencil.Proofs.Numeral
/-!
# Plain text

A source without marks and quotes is text and nothing else: whatever its words mean elsewhere, each
line that is not blank becomes one line of output. This file follows such a source all the way,
from its tokens to its HTML.
-/

namespace Stencil

/-- What a token shows in a line of text: a number in its own form, anything else its text. -/
def Token.shown (t : Token) : String :=
  match t.kind with
  | .number => ((Number.ofText? t.text.toList).map Number.display).getD t.text
  | _ => t.text

namespace Lexer

/-- What the tokens of one line show, without the newline behind them. -/
def lineTexts (v : Vocabulary) (text : List Char) : List String :=
  (((line v 1 text).toOption.getD []).filter fun t => t.kind != .newline).map Token.shown

/-- The lines of a source that are not blank. -/
def nonblankLines (source : String) : List (List Char) :=
  (source.toList.splitOn '\n').filter fun l => !(clean l).isEmpty

/-- A source as plain text: the lines that are not blank, with single blanks between what their
tokens show. -/
def plainText (v : Vocabulary) (source : String) : String :=
  "\n".intercalate ((nonblankLines source).map fun l => " ".intercalate (lineTexts v l))

end Lexer

/-! ## Numbers -/

namespace Decimal

theorem ofList_digitsOf_ne_empty {n : Nat} : String.ofList (digitsOf n) ≠ "" :=
  fun h => Number.digitsOf_ne_nil (String.ofList_eq_empty_iff.1 h)

/-- A number is shown by at least one digit. -/
theorem ofInt_ne_empty (n : Int) : ofInt n ≠ "" := by
  unfold ofInt
  split
  · exact fun h => ofList_digitsOf_ne_empty (String.append_eq_empty_iff.1 h).2
  · exact ofList_digitsOf_ne_empty

theorem Scaled.full_ne_empty (wholeEnd : String) (d : Scaled) : d.full wholeEnd ≠ "" := by
  unfold full
  dsimp only
  split
  · intro h
    have hall := String.ofList_eq_empty_iff.1 (String.append_eq_empty_iff.1 h).1
    exact Number.digitsOf_ne_nil (List.append_eq_nil_iff.1 hall).1
  · split
    · intro h
      exact List.cons_ne_nil _ _ (List.append_eq_nil_iff.1 (String.ofList_eq_empty_iff.1 h)).2
    · exact fun h => absurd (String.append_eq_empty_iff.1 h).1 (by decide)

end Decimal

namespace Number

/-- Every number is shown by a text that is not empty. -/
theorem display_ne_empty (n : Number) : n.display ≠ "" := by
  cases n with
  | int n => exact Decimal.ofInt_ne_empty _
  | float x =>
    change layout.write x ≠ ""
    unfold Decimal.Layout.write
    split
    · decide
    split
    · split <;> decide
    split
    · split <;> decide
    -- a number with digits is written in full
    · exact fun h => Decimal.Scaled.full_ne_empty _ _ (String.append_eq_empty_iff.1 h).2

end Number

/-! ## The tokens of a line -/

/-- Whether a token is text in a line, whatever it means elsewhere. -/
structure Token.IsText (t : Token) : Prop where
  mark : t.kind ≠ .mark
  newline : t.kind ≠ .newline
  shown : t.shown ≠ ""
  text : ∀ c, Level.contentText t c = .ok (t.shown, c)

namespace Lexer

/-- Whether a text has neither a mark nor a quote. -/
def IsPlain (cs : List Char) : Prop :=
  '@' ∉ cs ∧ '"' ∉ cs ∧ '\'' ∉ cs

instance (cs : List Char) : Decidable (IsPlain cs) :=
  inferInstanceAs (Decidable (_ ∧ _ ∧ _))

/-- A part of plain text is plain text. -/
theorem IsPlain.of_subset {cs ds : List Char} (h : IsPlain ds) (hsub : cs ⊆ ds) : IsPlain cs :=
  ⟨fun hc => h.1 (hsub hc), fun hc => h.2.1 (hsub hc), fun hc => h.2.2 (hsub hc)⟩

/-- Plain text has no quotes. -/
theorem IsPlain.not_isQuote {cs : List Char} (h : IsPlain cs) : ∀ c ∈ cs, isQuote c = false := by
  intro c hc
  rw [isQuote, Bool.or_eq_false_iff, beq_eq_false_iff_ne, beq_eq_false_iff_ne]
  exact ⟨fun heq => h.2.1 (heq ▸ hc), fun heq => h.2.2 (heq ▸ hc)⟩

/-- A line without quotes is one part. -/
theorem chunks_of_not_isQuote {cs : List Char} (h : ∀ c ∈ cs, isQuote c = false) :
    chunks cs = .ok [.plain cs] := by
  have hall : ∀ c ∈ cs, (!isQuote c) = true := fun c hc => by rw [h c hc]; rfl
  have hdrop : cs.dropWhile (fun c => !isQuote c) = [] := List.dropWhile_eq_nil_iff.2 hall
  have htake : cs.takeWhile (fun c => !isQuote c) = cs := List.takeWhile_eq_self_iff.2 hall
  unfold chunks
  split
  · rw [htake]
  · next hquote => simp [hdrop] at hquote

variable {v : Vocabulary} {text : List Char}

/-- The pieces of a line without quotes. -/
def plainLexemes (v : Vocabulary) (text : List Char) : List Lexeme :=
  (words (clean text)).flatMap (word v)

/-- A blank line has no tokens, not even its end. -/
theorem line_of_blank (number : Nat) (h : (clean text).isEmpty = true) :
    line v number text = .ok [] :=
  if_pos h

/-- A plain line is one chunk of words. -/
theorem line_of_isPlain (number : Nat) (hplain : IsPlain text)
    (h : (clean text).isEmpty = false) : line v number text =
      .ok ((plainLexemes v text).map (tokenAt number) ++ [⟨.newline, "\n", number⟩]) := by
  have hchunks := chunks_of_not_isQuote
    (hplain.of_subset (clean_sublist text).subset).not_isQuote
  simp only [line, h, Bool.false_eq_true, if_false, hchunks, List.flatMap_singleton,
    Chunk.lexemes, plainLexemes]

/-- A piece of a word that has no mark in it is text. -/
theorem IsPiece.isText {cs : List Char} {x : Lexeme} (h : IsPiece .standard cs x) (hmark : '@' ∉ cs)
    (number : Nat) : (tokenAt number x).IsText := by
  obtain ⟨kind, chars⟩ := x
  -- neither a line end nor a number is a word of the vocabulary
  have hwords : ∀ e ∈ Vocabulary.standard, e.2 ≠ .newline ∧ e.2 ≠ .number := by decide
  have hnumber : kind = .number → (Number.ofText? chars).isSome := by
    rintro rfl
    rcases h.kind with hword | hliteral | ⟨-, hnumeral⟩
    · exact absurd rfl (hwords _ (Table.mem_of_get? hword)).2
    · cases hliteral
    · exact (Bool.and_eq_true_iff.1 hnumeral).2
  have htext : String.ofList chars ≠ "" :=
    fun hempty => h.ne_nil (String.ofList_eq_empty_iff.1 hempty)
  -- in turn: it is no mark, it ends no line, it shows something, and it shows it in a line
  refine ⟨?_, ?_, ?_, fun c => ?_⟩
  · rintro rfl
    have hsign : String.ofList chars = "@" := by
      rcases h.kind with hword | hliteral | ⟨hnum, -⟩
      · exact Vocabulary.text_of_mark (Or.inl hword)
      · cases hliteral
      · cases hnum
    have hchars : chars = ['@'] := by
      rw [← String.toList_ofList (l := chars), hsign]
      rfl
    exact hmark (h.chars (hchars ▸ List.mem_singleton_self _))
  · rintro rfl
    rcases h.kind with hword | hliteral | ⟨hnum, -⟩
    · exact (hwords _ (Table.mem_of_get? hword)).1 rfl
    · cases hliteral
    · cases hnum
  · by_cases hk : kind = .number
    · obtain ⟨n, hn⟩ := Option.isSome_iff_exists.1 (hnumber hk)
      simp only [Token.shown, tokenAt, hk, String.toList_ofList, hn, Option.map_some,
        Option.getD_some]
      exact n.display_ne_empty
    · simp only [Token.shown, tokenAt]
      exact htext
  · by_cases hk : kind = .number
    · obtain ⟨n, hn⟩ := Option.isSome_iff_exists.1 (hnumber hk)
      simp only [Level.contentText, Token.shown, tokenAt, hk, String.toList_ofList, hn,
        Option.map_some, Option.getD_some]
      rfl
    · simp only [Level.contentText, Token.shown, tokenAt]
      rfl

/-- The pieces of a line without marks and quotes are text. -/
theorem isText_of_mem {x : Lexeme} (hplain : IsPlain text)
    (h : x ∈ plainLexemes .standard text) (number : Nat) : (tokenAt number x).IsText := by
  obtain ⟨w, hw, hx⟩ := List.mem_flatMap.1 h
  have hsub : w ⊆ text := fun a ha =>
    (clean_sublist text).subset
      ((sublist_of_mem_splitOn (List.mem_of_mem_filter hw)).subset ha)
  exact (isPiece_of_mem_word hx).isText (fun hmark => hplain.1 (hsub hmark)) number

/-- What a line without quotes shows, from any number on. -/
theorem lineTexts_of_isPlain (number : Nat) (hplain : IsPlain text)
    (h : (clean text).isEmpty = false) : lineTexts .standard text =
      ((plainLexemes .standard text).map (tokenAt number)).map Token.shown := by
  have hall : ∀ t ∈ (plainLexemes .standard text).map (tokenAt 1),
      (t.kind != .newline) = true := fun t ht => by
    obtain ⟨x, hx, rfl⟩ := List.mem_map.1 ht
    exact bne_iff_ne.2 (isText_of_mem hplain hx 1).newline
  rw [lineTexts, line_of_isPlain 1 hplain h]
  simp only [Except.toOption, Option.getD_some, List.filter_append, List.map_append,
    List.filter_eq_self.2 hall]
  rw [List.map_map, List.map_map]
  exact List.append_nil _

/-- Every piece of a line shows something. -/
theorem ne_empty_of_mem_lineTexts (hplain : IsPlain text) (h : (clean text).isEmpty = false)
    {shown : String} (hshown : shown ∈ lineTexts .standard text) : shown ≠ "" := by
  rw [lineTexts_of_isPlain 1 hplain h, List.map_map] at hshown
  obtain ⟨x, hx, rfl⟩ := List.mem_map.1 hshown
  exact (isText_of_mem hplain hx 1).shown

/-! A line that is not blank has a piece: its trimmed text begins with a character that is no
blank, which belongs to a word. -/

/-- What is left of a line has a character that can be seen. -/
theorem exists_not_isBlank (h : (clean text).isEmpty = false) :
    ∃ c ∈ clean text, Text.isBlank c = false := by
  have hne : clean text ≠ [] := List.isEmpty_eq_false_iff.1 h
  rw [clean, Text.trim, Text.trimEnd] at hne ⊢
  have hend := List.reverse_ne_nil_iff.1 hne
  exact ⟨_, List.mem_reverse.2 (List.head_mem hend), List.head_dropWhile_not _ hend⟩

theorem words_ne_nil (h : (clean text).isEmpty = false) : words (clean text) ≠ [] := by
  intro hnil
  obtain ⟨a, ha, hblank⟩ := exists_not_isBlank h
  have hparts : [' '].intercalate ((clean text).splitOn ' ') = clean text :=
    List.intercalate_splitOn ' '
  rw [← hparts] at ha
  rcases mem_intercalate ha with rfl | ⟨part, hpart, ha⟩
  · cases hblank
  · have hempty := List.filter_eq_nil_iff.1 hnil part hpart
    cases part with
    | nil => cases ha
    | cons b bs => exact hempty rfl

/-- A word has at least one piece. -/
theorem word_ne_nil {w : List Char} (h : w ≠ []) : word v w ≠ [] := by
  unfold word
  cases w with
  | nil => exact absurd rfl h
  | cons c rest =>
    dsimp only
    repeat' split
    all_goals simp

/-- A line that is not blank has a piece. -/
theorem plainLexemes_ne_nil (h : (clean text).isEmpty = false) : plainLexemes v text ≠ [] := by
  obtain ⟨w, hw⟩ := List.exists_mem_of_ne_nil _ (words_ne_nil h)
  have hne : w ≠ [] := by
    rintro rfl
    exact absurd (List.mem_filter.1 hw).2 (by decide)
  obtain ⟨x, hx⟩ := List.exists_mem_of_ne_nil _ (word_ne_nil (v := v) hne)
  exact List.ne_nil_of_mem (List.mem_flatMap.2 ⟨w, hw, hx⟩)

end Lexer

/-! ## Reading -/

/-- Where no mark comes next, no block ends and no statement begins. -/
theorem Cursor.quiet_of_not_mark (c : Cursor) {t : Token} {rest : List Token}
    (ht : c.tokens = t :: rest) (h : t.kind ≠ .mark) :
    c.atBlockEnd = false ∧ c.atStatement = false := by
  have hmark : (t.kind == .mark) = false := beq_eq_false_iff_ne.2 h
  unfold atBlockEnd atStatement
  rw [ht]
  cases rest with
  | nil => exact ⟨rfl, rfl⟩
  | cons u rest => simp only [hmark, Bool.false_and, and_self]

namespace Level

open Reading

variable {l : Level} {c : Cursor} {t u : Token} {ts rest : List Token}

/-- A token that is text becomes a part of its line, whatever it means elsewhere. -/
theorem contentTurn_text (ht : c.tokens = t :: rest) (h : t.IsText) (parts : List Part) :
    l.contentTurn parts c = .ok (.inl (.text t.shown :: parts), c.moveTo rest) := by
  have hline : c.atLineEnd = false := by
    rw [Cursor.atLineEnd, ht]
    exact beq_eq_false_iff_ne.2 h.newline
  have hmark : (t.kind == .mark) = false := beq_eq_false_iff_ne.2 h.mark
  have hend := (c.quiet_of_not_mark ht h.mark).1
  rw [contentTurn, get_bind_apply]
  simp only [hline, hend, Bool.or_self, Bool.false_eq_true, if_false]
  rw [bind_of_ok (advance_of_cons ht)]
  simp only [hmark, Bool.false_eq_true, if_false]
  rw [bind_of_ok (h.text _), pure_apply]

/-- A run of text up to the end of its line. -/
theorem loop_contentTurn_text (htext : ∀ t ∈ ts, t.IsText) (hu : u.kind = .newline)
    (ht : c.tokens = ts ++ u :: rest) (parts : List Part) :
    loop l.contentTurn parts c =
      .ok ((ts.map fun t => Part.text t.shown).reverse ++ parts, c.moveTo (u :: rest)) := by
  induction ts generalizing c parts with
  | nil =>
    refine loop_stop ?_
    have hline : c.atLineEnd = true := by
      rw [Cursor.atLineEnd, ht]
      exact beq_iff_eq.2 hu
    have hsame : c.moveTo (u :: rest) = c := by
      rw [List.nil_append] at ht
      rw [← ht, Cursor.moveTo_self]
    rw [contentTurn, get_bind_apply, hsame]
    simp only [hline, Bool.true_or, if_true]
    rfl
  | cons t ts ih =>
    obtain ⟨ht', htext'⟩ := List.forall_mem_cons.1 htext
    refine loop_next (contentTurn_text ht ht' parts) ?_ ?_
    · rw [ht, Cursor.moveTo_tokens, List.cons_append, List.length_cons]
      exact Nat.lt_succ_self _
    · rw [ih htext' rfl, List.map_cons, List.reverse_cons, List.append_assoc]
      rfl

/-- A line of text is one line of output. -/
theorem blockTurn_text (htext : ∀ t ∈ ts, t.IsText) (hne : ts ≠ []) (hu : u.kind = .newline)
    (hp : c.pending = []) (ht : c.tokens.dropWhile (fun t => t.kind == .newline) = ts ++ u :: rest)
    (children : List Node) : l.blockTurn false children c =
      .ok (.inl (.output .content (ts.map fun t => .text t.shown) :: children),
        c.moveTo (u :: rest)) := by
  obtain ⟨t, ts', rfl⟩ := List.exists_cons_of_ne_nil hne
  obtain ⟨d, hd⟩ : ∃ d, d = c.moveTo (t :: ts' ++ u :: rest) := ⟨_, rfl⟩
  have htok : d.tokens = t :: (ts' ++ u :: rest) := by rw [hd]; rfl
  obtain ⟨hend, hstatement⟩ := d.quiet_of_not_mark htok (htext t List.mem_cons_self).mark
  have hopen : (d.moveTo (u :: rest)).ownerClosed = false := by
    rw [Cursor.ownerClosed, hd, Cursor.moveTo_pending, Cursor.moveTo_pending, hp]
  have hcontent : l.content .content d =
      .ok (some (.output .content ((t :: ts').map fun t => .text t.shown)),
        d.moveTo (u :: rest)) := by
    rw [content, bind_of_ok (loop_contentTurn_text htext hu htok [])]
    simp only [List.append_nil, List.isEmpty_reverse, List.map_cons, List.isEmpty_cons,
      Bool.false_eq_true, if_false, List.reverse_reverse]
    rfl
  rw [blockTurn, bind_of_ok skipNewlines_apply, ht, ← hd, get_bind_apply]
  simp only [htok, List.isEmpty_cons, hend, hstatement, Bool.false_eq_true, if_false]
  rw [bind_of_ok hcontent, get_bind_apply]
  simp only [hopen, Bool.false_eq_true, if_false]
  rw [hd]
  rfl

/-- The line of output that a line of text becomes. -/
def textLine (text : List Char) : Node :=
  .output .content ((Lexer.lineTexts .standard text).map .text)

/-- Lines without marks and quotes are read to the end, one after the other. -/
theorem loop_blockTurn_lines {ls : List (List Char)} (hplain : ∀ text ∈ ls, Lexer.IsPlain text)
    (number : Nat) : ∃ ts, Lexer.lines .standard number ls = .ok ts ∧
      ∀ (l : Level) (c : Cursor) (children : List Node), c.pending = [] →
        c.tokens.dropWhile (fun t => t.kind == .newline) =
          ts.dropWhile (fun t => t.kind == .newline) →
        loop (l.blockTurn false) children c =
          .ok (((ls.filter fun text => !(Lexer.clean text).isEmpty).map textLine).reverse ++
            children, c.moveTo []) := by
  induction ls generalizing number with
  | nil =>
    exact ⟨[], rfl, fun l c children _ ht => loop_stop (blockTurn_end ht children)⟩
  | cons text ls ih =>
    obtain ⟨htext, hplain'⟩ := List.forall_mem_cons.1 hplain
    obtain ⟨ts, hts, hread⟩ := ih hplain' (number + 1)
    cases hblank : (Lexer.clean text).isEmpty with
    | true =>
      refine ⟨ts, ?_, fun l c children hp ht => ?_⟩
      · rw [Lexer.lines, Lexer.line_of_blank number hblank, hts]
        rfl
      · rw [hread l c children hp ht, List.filter_cons_of_neg (by rw [hblank]; decide)]
    | false =>
      have hne := Lexer.plainLexemes_ne_nil (v := .standard) hblank
      have hlineTexts := Lexer.lineTexts_of_isPlain number htext hblank
      obtain ⟨here, hhere⟩ : ∃ here,
        here = (Lexer.plainLexemes .standard text).map (Lexer.tokenAt number) := ⟨_, rfl⟩
      have hhereText : ∀ t ∈ here, t.IsText := fun t ht => by
        rw [hhere] at ht
        obtain ⟨x, hx, rfl⟩ := List.mem_map.1 ht
        exact Lexer.isText_of_mem htext hx number
      have hhereNe : here ≠ [] := by
        rw [hhere]
        exact fun hnil => hne (List.map_eq_nil_iff.1 hnil)
      refine ⟨here ++ ⟨.newline, "\n", number⟩ :: ts, ?_, fun l c children hp ht => ?_⟩
      · rw [Lexer.lines, Lexer.line_of_isPlain number htext hblank, hts, hhere]
        simp only [Except.map, List.append_assoc, List.singleton_append]
      -- the line before the newline is not skipped
      · have hstart : (here ++ ⟨.newline, "\n", number⟩ :: ts).dropWhile
            (fun t => t.kind == .newline) = here ++ ⟨.newline, "\n", number⟩ :: ts := by
          obtain ⟨t, ts', rfl⟩ := List.exists_cons_of_ne_nil hhereNe
          refine List.dropWhile_cons_of_neg ?_
          rw [beq_iff_eq]
          exact (hhereText t List.mem_cons_self).newline
        rw [hstart] at ht
        have hlt : (c.moveTo (⟨.newline, "\n", number⟩ :: ts)).tokens.length <
            c.tokens.length := by
          have hle := (List.dropWhile_suffix (l := c.tokens) fun t => t.kind == .newline).length_le
          have hpos := List.length_pos_of_ne_nil hhereNe
          rw [ht, List.length_append] at hle
          rw [Cursor.moveTo_tokens]
          omega
        refine loop_next (blockTurn_text hhereText hhereNe rfl hp ht children) hlt ?_
        rw [hread l (c.moveTo (⟨.newline, "\n", number⟩ :: ts)) _ hp rfl,
          List.filter_cons_of_pos (by rw [hblank]; rfl), List.map_cons,
          List.reverse_cons, List.append_assoc, List.singleton_append, textLine, hlineTexts,
          ← hhere, List.map_map]
        rfl

end Level

/-! ## Rendering -/

theorem OutputMode.join_content (texts : List String) :
    OutputMode.content.join texts = " ".intercalate texts := by
  induction texts with
  | nil => rfl
  | cons t ts ih =>
    cases ts with
    | nil => exact String.intercalate_singleton.symm
    | cons u us =>
      rw [join, ih, String.intercalate_cons_cons]
      rfl

/-- Escaping goes character by character. -/
theorem Tree.escaped_append (s t : String) : escaped (s ++ t) = escaped s ++ escaped t := by
  rw [escaped, String.toList_append, List.flatMap_append, String.ofList_append]
  rfl

/-- The HTML in a container of a run that has begun with the document `before`. -/
def Run.htmlIn (r : Run) (before : Document) (c : NodeId) : String :=
  ((r.document before).tree c).innerHtml

namespace Engine

open Rendering

variable {e : Engine} {ev : Evaluator} {before : Document} {c : Nat} {r : Run}

/-- A new text in a container is escaped there. -/
theorem addText_htmlIn (h : r.Inside before c) (content : String) :
    ∃ s, addText c content r = .ok () s ∧ s.Inside before c ∧
      s.htmlIn before c = r.htmlIn before c ++ Tree.escaped content := by
  refine ⟨(addText c content).after r, rfl, h.after_addText content, ?_⟩
  rw [Run.htmlIn, h.document_addText, Tree.innerHtml,
    Document.children_tree_addText h.fits.wellFormed h.isElement, Tree.htmlAll_append]
  exact congrArg (_ ++ ·) String.append_empty

/-- Texts are parts without an evaluation. -/
theorem evalParts_texts (texts : List String) :
    evalParts ev c (texts.map Part.text) r = .ok texts r := by
  induction texts with
  | nil => rfl
  | cons t ts ih =>
    rw [List.map_cons, evalParts, bind_of_ok ih]
    rfl

/-- A line of texts has these texts as its value, with blanks between them. -/
theorem eval_texts (levels : Nat) {texts : List String} (h : ∀ t ∈ texts, t ≠ "") :
    e.eval (levels + 1) (.output .content (texts.map Part.text)) c r =
      .ok (.string (" ".intercalate texts)) r := by
  have hall : texts.filter (fun t => !t.isEmpty) = texts := by
    refine List.filter_eq_self.2 fun t ht => ?_
    rw [Bool.not_eq_true', ← Bool.not_eq_true, String.isEmpty_iff]
    exact h t ht
  rw [eval, evalNode, bind_of_ok (evalParts_texts texts), hall, OutputMode.join_content]
  rfl

/-- A line of output is written with a line break behind it if another one follows. -/
theorem evalBlock_line {parts : List Part} {rest : List Node} {v : Value} {r' s : Run}
    (hv : ev (.output .content parts) c r = .ok v r') (hs : addText c v.display r' = .ok () s) :
    evalBlock ev c (.output .content parts :: rest) r =
      (do
        if rest.head?.any Node.isOutput then addText c "\n"
        evalBlock ev c rest) s := by
  rw [evalBlock, bind_of_ok hv]
  exact bind_of_ok hs

/-- Lines of texts come into the container one after the other, with line breaks between them. -/
theorem evalBlock_texts (levels : Nat) {lines : List (List String)}
    (h : ∀ texts ∈ lines, ∀ t ∈ texts, t ≠ "") (hr : r.Inside before c) :
    ∃ s, evalBlock (e.eval (levels + 1)) c
        (lines.map fun texts => .output .content (texts.map Part.text)) r = .ok () s ∧
      s.htmlIn before c = r.htmlIn before c ++
        Tree.escaped ("\n".intercalate (lines.map fun texts => " ".intercalate texts)) := by
  induction lines generalizing r with
  | nil => exact ⟨r, rfl, String.append_empty.symm⟩
  | cons texts lines ih =>
    obtain ⟨htexts, hlines⟩ := List.forall_mem_cons.1 h
    obtain ⟨s, hs, hinside, hhtml⟩ := addText_htmlIn hr (" ".intercalate texts)
    have hvalue := eval_texts (e := e) (c := c) (r := r) levels htexts
    cases lines with
    | nil =>
      refine ⟨s, ?_, ?_⟩
      · rw [List.map_cons, evalBlock_line hvalue hs]
        rfl
      · rw [hhtml, List.map_singleton, String.intercalate_singleton]
    -- another line follows, and so does a line break
    | cons texts' lines =>
      obtain ⟨t, ht, hinside', hhtml'⟩ := addText_htmlIn hinside "\n"
      obtain ⟨u, hu, hend⟩ := ih hlines hinside'
      refine ⟨u, ?_, ?_⟩
      · rw [List.map_cons, evalBlock_line hvalue hs]
        exact (bind_of_ok ht).trans hu
      · rw [hend, hhtml', hhtml]
        simp only [List.map_cons, String.intercalate_cons_cons, Tree.escaped_append,
          String.append_assoc]

/-- What comes of a template is what comes of its root in the container. -/
theorem renderAlone_eq {name : String} {root : Node} (htemplate : e.template? name = some root)
    (frame : Frame) :
    e.renderAlone name frame = match e.evaluate root 0 (e.contained frame) with
      | .ok _ s => ⟨.ok 0, s.edits.reverse⟩
      | .error err s => ⟨.error err, s.edits.reverse⟩ := by
  have hhas : e.hasTemplate name = true := by
    change (e.template? name).isSome = true
    rw [htemplate]
    rfl
  have hrun : e.renderAlone name frame =
      .ofRun ((e.renderIn name 0 >>= fun _ => pure 0) (e.contained frame)) := if_pos hhas
  -- the frame in use is the only one, and the template gets a copy of it
  have hstate : { e.contained frame with scope := .ofFrame (e.contained frame).scope.top } =
      e.contained frame := rfl
  cases hroot : e.evaluate root 0 (e.contained frame) with
  | ok v s =>
    have hin : e.renderIn name 0 (e.contained frame) =
        .ok () { s with scope := (e.contained frame).scope } := by
      rw [renderIn, evalTemplate, htemplate]
      simp only [get_bind, inScope, modifyScope, modify_bind, thenScope]
      rw [hstate, bind_of_ok hroot]
      rfl
    rw [hrun, bind_of_ok hin]
    rfl
  | error err s =>
    have hin : e.renderIn name 0 (e.contained frame) =
        .error err { s with scope := (e.contained frame).scope } := by
      rw [renderIn, evalTemplate, htemplate]
      simp only [get_bind, inScope, modifyScope, modify_bind, thenScope]
      rw [hstate, bind_of_error hroot]
    rw [hrun, bind_of_error hin]
    rfl

/-- What a template shows is what its root comes to in the container. -/
theorem renderHtml_eq {name : String} {root : Node} (htemplate : e.template? name = some root)
    (frame : Frame) :
    e.renderHtml name frame = match e.evaluate root 0 (e.contained frame) with
      | .ok _ s => .ok (s.htmlIn .empty 0)
      | .error err _ => .error err := by
  rw [renderHtml, renderAlone_eq htemplate]
  cases e.evaluate root 0 (e.contained frame) <;> rfl

/-- A new document has no content yet. -/
theorem inside_contained (e : Engine) (frame : Frame) : (e.contained frame).Inside .empty 0 :=
  ⟨e.fits_contained frame, rfl⟩

/-- A template that consists of lines of texts renders as these lines. -/
theorem renderHtml_texts {name : String} {lines : List (List String)}
    (htemplate : e.template? name =
      some (.block (lines.map fun texts => .output .content (texts.map Part.text))))
    (hdepth : 2 ≤ e.settings.maxDepth) (h : ∀ texts ∈ lines, ∀ t ∈ texts, t ≠ "")
    (frame : Frame) : e.renderHtml name frame =
      .ok (Tree.escaped ("\n".intercalate (lines.map fun texts => " ".intercalate texts))) := by
  obtain ⟨k, hk⟩ := Nat.exists_eq_add_of_le' hdepth
  obtain ⟨s, hs, hhtml⟩ := evalBlock_texts (e := e) k h (e.inside_contained frame)
  -- the block is evaluated one level below the root, its lines one level below the block
  have hroot : e.evaluate (.block (lines.map fun texts => .output .content (texts.map .text))) 0
      (e.contained frame) = .ok .null s := by
    rw [evaluate, hk, eval, evalNode, bind_of_ok hs]
    rfl
  rw [renderHtml_eq htemplate, hroot]
  change Except.ok (s.htmlIn .empty 0) = _
  rw [hhtml]
  rfl

end Engine

/-! ## From source to HTML -/

/-- The template of plain text: a line of output for each line that is not blank. -/
def Lexer.plainTemplate (source : String) : Node :=
  .block ((nonblankLines source).map Level.textLine)

/-- The lines of plain text are plain. -/
theorem Lexer.isPlain_of_mem_splitOn {source : String} (h : IsPlain source.toList) :
    ∀ text ∈ source.toList.splitOn '\n', IsPlain text :=
  fun _ htext => h.of_subset (sublist_of_mem_splitOn htext).subset

/-- The template of plain text is its lines. -/
theorem Dialect.parseSource_plainText {d : Dialect} (hd : d.grammar = .standard)
    (hdepth : 0 < d.maxDepth) {source : String} (h : Lexer.IsPlain source.toList) :
    d.parseSource source = .ok (Lexer.plainTemplate source) := by
  obtain ⟨k, hk⟩ := Nat.exists_eq_add_of_le' hdepth
  obtain ⟨ts, hlines, hread⟩ :=
    Level.loop_blockTurn_lines (Lexer.isPlain_of_mem_splitOn h) 1
  have htokenize : Lexer.tokenize d.grammar.vocabulary source = .ok (Lexer.close 1 ts) := by
    rw [hd, Grammar.vocabulary_standard, Lexer.tokenize, Lexer.tokenizeFrom, hlines]
    rfl
  have htokens : (Cursor.ofTokens (Lexer.close 1 ts)).tokens = ts :=
    Cursor.ofTokens_append_stop (Lexer.fits_of_lines hlines) rfl
  have hloop := hread (d.levels (d.attributeText (longestText (Lexer.close 1 ts) + 1)) k)
    (Cursor.ofTokens (Lexer.close 1 ts)) [] rfl (by rw [htokens])
  rw [parseSource_of_tokenize htokenize, parse, read, top, hk, block_levels_succ, Level.blockOf,
    Reading.bind_of_ok hloop, List.append_nil, List.reverse_reverse]
  rfl

namespace Blueprint

/-- A template that can be read is found under its name. -/
theorem template?_build {b : Blueprint} {name source : String} {root : Node}
    (hsource : Table.get? b.sources name = some source)
    (hroot : b.dialect.compile name source = .ok root) : b.build.template? name = some root := by
  change Table.get? ((b.sources.map b.compile).filterMap readable) name = some root
  generalize b.sources = sources at hsource
  induction sources with
  | nil => cases hsource
  | cons entry sources ih =>
    obtain ⟨key, text⟩ := entry
    rw [Table.get?] at hsource
    by_cases hkey : key = name
    · rw [if_pos hkey, Option.some.injEq] at hsource
      subst hkey hsource
      have hhere : readable (b.compile (key, text)) = some (key, root) := by
        rw [compile, hroot]
        rfl
      rw [List.map_cons, List.filterMap_cons_some hhere, Table.get?, if_pos rfl]
    · rw [if_neg hkey] at hsource
      -- an entry of another name is passed over, whether it compiles or not
      cases hother : b.dialect.compile key text with
      | error err =>
        have hhere : readable (b.compile (key, text)) = none := by
          rw [compile, hother]
          rfl
        rw [List.map_cons, List.filterMap_cons_none hhere]
        exact ih hsource
      | ok node =>
        have hhere : readable (b.compile (key, text)) = some (key, node) := by
          rw [compile, hother]
          rfl
        rw [List.map_cons, List.filterMap_cons_some hhere, Table.get?, if_neg hkey]
        exact ih hsource

/-- **Plain text renders as itself.** A source without marks and quotes can be read, however its
words and numbers are used elsewhere. Its HTML is its plain text, escaped, whatever variables,
filters and functions there are and whatever other templates. -/
theorem renderHtml_plainText {b : Blueprint} (hgrammar : b.grammar = .standard)
    (hdepth : 2 ≤ b.settings.maxDepth) {name source : String}
    (hsource : Table.get? b.sources name = some source) (hplain : Lexer.IsPlain source.toList)
    (frame : Frame) :
    b.dialect.compile name source = .ok (Lexer.plainTemplate source) ∧
      b.build.renderHtml name frame =
        .ok (Tree.escaped (Lexer.plainText .standard source)) := by
  have hcompile : b.dialect.compile name source = .ok (Lexer.plainTemplate source) := by
    have hread : b.dialect.parseSource source = .ok (Lexer.plainTemplate source) :=
      Dialect.parseSource_plainText hgrammar (Nat.lt_of_lt_of_le Nat.zero_lt_two hdepth) hplain
    rw [Dialect.compile, hread]
    rfl
  refine ⟨hcompile, ?_⟩
  have htemplate := template?_build hsource hcompile
  have hlines : ∀ texts ∈ (Lexer.nonblankLines source).map (Lexer.lineTexts .standard),
      ∀ t ∈ texts, t ≠ "" := by
    intro texts htexts t ht
    obtain ⟨text, htext, rfl⟩ := List.mem_map.1 htexts
    obtain ⟨hline, hblank⟩ := List.mem_filter.1 htext
    exact Lexer.ne_empty_of_mem_lineTexts (Lexer.isPlain_of_mem_splitOn hplain text hline)
      (by simpa using hblank) ht
  have htexts : b.build.template? name = some (.block
      (((Lexer.nonblankLines source).map (Lexer.lineTexts .standard)).map fun texts =>
        .output .content (texts.map Part.text))) := by
    rw [htemplate, List.map_map]
    rfl
  have hhtml := Engine.renderHtml_texts htexts hdepth hlines frame
  rw [hhtml, List.map_map]
  rfl

/-- Words of the language, brackets and numbers with points are text like any other. -/
theorem renderHtml_plainText_prose :
    let source := "for 1.50 (see [1] # if\n \n  a<b, end"
    let b : Blueprint :=
      { Blueprint.empty with sources := [("page", source)], settings := ⟨"div", "page", 2⟩ }
    b.grammar = .standard ∧ 2 ≤ b.settings.maxDepth ∧ Table.get? b.sources "page" = some source ∧
      Lexer.IsPlain source.toList ∧
      b.dialect.compile "page" source = .ok (Lexer.plainTemplate source) ∧
      b.build.renderHtml "page" [] = .ok "for 1.5 ( see [ 1 ] # if\na &lt; b , end" := by
  intro source b
  have hplain : Lexer.IsPlain source.toList := by decide +kernel
  have htext : Lexer.plainText .standard source = "for 1.5 ( see [ 1 ] # if\na < b , end" := by
    decide +kernel
  obtain ⟨hcompile, hhtml⟩ := 
    @renderHtml_plainText b rfl (Nat.le_refl 2) "page" source rfl hplain []
  refine ⟨rfl, Nat.le_refl 2, rfl, hplain, hcompile, hhtml.trans ?_⟩
  rw [htext]
  decide +kernel

end Blueprint

end Stencil
