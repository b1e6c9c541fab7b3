import Mathlib
import Stencil.Proofs.Lockstep.Levels
import Stencil.Proofs.Termination
/-!
# Spacing

The lines of tokens are told in errors and decide nothing: two lists of tokens with the same kinds
and texts are the same template, or they fail for the same reason. So what leaves the tokens of a
source as they are leaves its template as it is: blank lines, control characters, blanks at the ends
of lines, and more blanks where there is one outside quotes.
-/

namespace Stencil

open Reading Lockstep

/-! ## Tokens in other lines -/

/-- Two results that agree up to the lines of errors are the same once the lines are left out. -/
theorem Lockstep.Agree.mapError_fault {α : Type} {x y : Except SyntaxError α}
    (h : Agree (fun _ => False) Eq x y) :
    x.mapError SyntaxError.fault = y.mapError SyntaxError.fault := by
  cases x with
  | ok a =>
    obtain ⟨b, rfl, rfl⟩ := h.1 a rfl
    rfl
  | error e =>
    obtain ⟨e', rfl, hfault⟩ := (h.2 e rfl).resolve_left id
    rw [Except.mapError, Except.mapError, hfault]

namespace Dialect

variable {d : Dialect} (hd : d.grammar = .standard)
include hd

/-- A string in an attribute is read alike in every line. -/
theorem attributeValue_agree (text : String) (line line' : Nat) :
    Agree (fun _ => False) Eq (d.attributeValue text line) (d.attributeValue text line') := by
  have hg := grammar_eq_withElements hd
  exact attributeText_agree hg hd rfl (fun _ => element_keepsStep rfl)
    (fun _ => elementText_keepsStep rfl) (Or.inl rfl) line line' (Nat.lt_succ_self _)
    (Nat.lt_succ_self _)

/-- **Tokens that are the same up to their lines are the same template**, or they fail for the same
reason. -/
theorem parse_agree {ts us : List Token} (h : List.Forall₂ Token.Alike ts us) :
    Agree (fun _ => False) Eq (d.parse ts) (d.parse us) := by
  have hstrings : ∀ t ∈ ts, t.kind = .string → t.text.length < longestText ts + 1 :=
    fun t ht _ => Nat.lt_succ_of_le (le_longestText ht)
  rw [parse_eq hd, parse_eq hd]
  cases d.maxDepth with
  | zero => exact .error rfl
  | succ k =>
    refine blockOf_agree h hstrings ?_ ⟨⟨0, .unclosedBlock⟩, id⟩
    exact same_levels (grammar_eq_withElements hd) hd rfl rfl (element_keepsStep rfl)
      (elementText_keepsStep rfl)
      (fun text line line' _ => attributeValue_agree hd text line line') k

end Dialect

/-! ## Lines with other spacing -/

namespace Lexer

/-- Texts in which every quote is closed, so that what follows stands outside quotes. -/
inductive QuotesClosed : List Char → Prop
  | plain {text : List Char} : (∀ c ∈ text, isQuote c = false) → QuotesClosed text
  | quoted {text quoted after : List Char} {quote : Char} :
      (∀ c ∈ text, isQuote c = false) → isQuote quote = true → quote ∉ quoted →
      QuotesClosed after → QuotesClosed (text ++ quote :: (quoted ++ quote :: after))

/-- Changes of spacing between the lines of two sources, which add something to the first one: a
blank line, a blank at an end of a line, a control character, or a blank at another one outside
quotes. -/
inductive Spaced : List (List Char) → List (List Char) → Prop
  | blankLine {above below : List (List Char)} {text : List Char} :
      (∀ c ∈ text, isControl c = true ∨ Text.isBlank c = true) →
        Spaced (above ++ below) (above ++ text :: below)
  | lineStart {above below : List (List Char)} {text : List Char} {c : Char} :
      Text.isBlank c = true → Spaced (above ++ text :: below) (above ++ (c :: text) :: below)
  | lineEnd {above below : List (List Char)} {text : List Char} {c : Char} :
      Text.isBlank c = true → Spaced (above ++ text :: below) (above ++ (text ++ [c]) :: below)
  | control {above below : List (List Char)} {front back : List Char} {c : Char} :
      isControl c = true →
        Spaced (above ++ (front ++ back) :: below) (above ++ (front ++ c :: back) :: below)
  | wider {above below : List (List Char)} {front back : List Char} :
      QuotesClosed front → Spaced (above ++ (front ++ ' ' :: back) :: below)
        (above ++ (front ++ ' ' :: ' ' :: back) :: below)

/-- Whether the second one of two sources is the first one with more spacing in one place. -/
def Widens (source source' : String) : Prop :=
  Spaced (source.toList.splitOn '\n') (source'.toList.splitOn '\n')

/-! ### The ends of a line -/

theorem clean_cons {c : Char} (h : isControl c = true ∨ Text.isBlank c = true) (text : List Char) :
    clean (c :: text) = clean text := by
  by_cases hcontrol : isControl c = true
  · rw [clean, clean, List.filter_cons_of_neg (by simp [hcontrol])]
  · have hblank := h.resolve_left hcontrol
    rw [clean, clean, List.filter_cons_of_pos (by simpa using hcontrol), Text.trim, Text.trim,
      List.dropWhile_cons_of_pos hblank]

theorem trimEnd_append {c : Char} (hblank : Text.isBlank c = true) (text : List Char) :
    Text.trimEnd (text ++ [c]) = Text.trimEnd text := by
  rw [Text.trimEnd, Text.trimEnd, List.reverse_append, List.reverse_singleton,
    List.singleton_append, List.dropWhile_cons_of_pos hblank]

theorem clean_append {c : Char} (hblank : Text.isBlank c = true) (text : List Char) :
    clean (text ++ [c]) = clean text := by
  rw [clean, clean, List.filter_append]
  by_cases hcontrol : isControl c = true
  · rw [List.filter_cons_of_neg (by simp [hcontrol]), List.filter_nil, List.append_nil]
  · rw [List.filter_cons_of_pos (by simpa using hcontrol), List.filter_nil, Text.trim, Text.trim,
      List.dropWhile_append]
    split
    · next hempty =>
      rw [List.isEmpty_iff.1 hempty, List.dropWhile_cons_of_pos hblank]
      rfl
    · exact trimEnd_append hblank _

/-- Control characters are dropped wherever they stand. -/
theorem clean_control {c : Char} (hcontrol : isControl c = true) (front back : List Char) :
    clean (front ++ c :: back) = clean (front ++ back) := by
  rw [clean, clean, List.filter_append, List.filter_cons_of_neg (by simp [hcontrol]),
    ← List.filter_append]

/-- A line without anything else is an empty one. -/
theorem clean_eq_nil {text : List Char}
    (h : ∀ c ∈ text, isControl c = true ∨ Text.isBlank c = true) : clean text = [] := by
  induction text with
  | nil => rfl
  | cons c text ih =>
    obtain ⟨hc, htext⟩ := List.forall_mem_cons.1 h
    rw [clean_cons hc, ih htext]

/-! ### Blanks in a line -/

namespace QuotesClosed

/-- Dropping control characters leaves the quotes as they are, since no quote is one. -/
theorem filter {text : List Char} (h : QuotesClosed text) :
    QuotesClosed (text.filter fun c => !isControl c) := by
  have hquote : ∀ {c}, isQuote c = true → isControl c = false := by
    intro c hc
    rw [isQuote, Bool.or_eq_true, beq_iff_eq, beq_iff_eq] at hc
    rcases hc with rfl | rfl <;> rfl
  induction h with
  | plain hplain => exact .plain fun c hc => hplain c (List.mem_of_mem_filter hc)
  | @quoted text quoted after quote hplain hq hnot _ ih =>
    have hkept : (!isControl quote) = true := by rw [hquote hq]; rfl
    rw [List.filter_append, List.filter_cons_of_pos (p := fun c => !isControl c) hkept,
      List.filter_append, List.filter_cons_of_pos (p := fun c => !isControl c) hkept]
    exact .quoted (fun c hc => hplain c (List.mem_of_mem_filter hc)) hq
      (fun hmem => hnot (List.mem_of_mem_filter hmem)) ih

/-- Trimming before the first word drops no quote. -/
theorem dropWhile {text : List Char} (h : QuotesClosed text) :
    QuotesClosed (text.dropWhile Text.isBlank) := by
  cases h with
  | plain hplain => exact .plain fun c hc => hplain c ((List.dropWhile_suffix _).subset hc)
  | @quoted text quoted after quote hplain hq hnot hafter =>
    have hkept : ¬Text.isBlank quote = true := by
      rw [isQuote, Bool.or_eq_true, beq_iff_eq, beq_iff_eq] at hq
      rcases hq with rfl | rfl <;> decide
    rw [List.dropWhile_append]
    split
    · rw [List.dropWhile_cons_of_neg hkept]
      have hclosed : QuotesClosed ([] ++ quote :: (quoted ++ quote :: after)) :=
        .quoted nofun hq hnot hafter
      exact hclosed
    · exact .quoted (fun c hc => hplain c ((List.dropWhile_suffix _).subset hc)) hq hnot hafter

end QuotesClosed

/-- Where the text behind is trimmed away, the trimming goes on in the text before it. -/
theorem trimEnd_append_of_nil {back : List Char} (h : Text.trimEnd back = [])
    (front : List Char) : Text.trimEnd (front ++ back) = Text.trimEnd front := by
  rw [Text.trimEnd, List.reverse_eq_nil_iff] at h
  rw [Text.trimEnd, Text.trimEnd, List.reverse_append, List.dropWhile_append, h]
  rfl

/-- Where something of the text behind is left, the text before it is left whole. -/
theorem trimEnd_append_of_ne_nil {back : List Char} (h : Text.trimEnd back ≠ [])
    (front : List Char) : Text.trimEnd (front ++ back) = front ++ Text.trimEnd back := by
  rw [Text.trimEnd, Ne, List.reverse_eq_nil_iff] at h
  rw [Text.trimEnd, Text.trimEnd, List.reverse_append, List.dropWhile_append,
    if_neg (by rwa [List.isEmpty_iff]), List.reverse_append, List.reverse_reverse]

/-- A blank beside a blank is trimmed with it or stays beside it. -/
theorem clean_wider {front : List Char} (h : QuotesClosed front) (back : List Char) :
    clean (front ++ ' ' :: ' ' :: back) = clean (front ++ ' ' :: back) ∨
      ∃ p q, QuotesClosed p ∧ clean (front ++ ' ' :: back) = p ++ ' ' :: q ∧
        clean (front ++ ' ' :: ' ' :: back) = p ++ ' ' :: ' ' :: q := by
  have hfilter : ∀ text, (front ++ ' ' :: text).filter (fun c => !isControl c) =
      front.filter (fun c => !isControl c) ++ ' ' :: text.filter fun c => !isControl c := by
    intro text
    rw [List.filter_append, List.filter_cons_of_pos (by rfl)]
  rw [clean, clean, hfilter, hfilter, List.filter_cons_of_pos (by rfl), Text.trim, Text.trim,
    List.dropWhile_append, List.dropWhile_append]
  generalize back.filter (fun c => !isControl c) = b
  split
  · exact Or.inl rfl
  · by_cases hb : Text.trimEnd b = []
    · left
      have hspace : Text.trimEnd (' ' :: b) = [] := trimEnd_append_of_nil hb [' ']
      have hspaces : Text.trimEnd (' ' :: ' ' :: b) = [] := trimEnd_append_of_nil hspace [' ']
      rw [trimEnd_append_of_nil hspaces, trimEnd_append_of_nil hspace]
    · right
      refine ⟨_, Text.trimEnd b, h.filter.dropWhile, ?_, ?_⟩
      · rw [List.append_cons, trimEnd_append_of_ne_nil hb, ← List.append_cons]
      · rw [List.append_cons, List.append_cons, trimEnd_append_of_ne_nil hb, ← List.append_cons,
          ← List.append_cons]

/-- A blank stands between words, so the words on either side are found apart. -/
theorem words_append (front back : List Char) :
    words (front ++ ' ' :: back) = words front ++ words back := by
  rw [words, List.splitOn, List.splitOnP_append_cons _ _ (by rfl), List.filter_append]
  rfl

/-- How a line is cut at its first quote, in terms of the text before it and of what stands up to
the next one like it. -/
theorem chunks_eq (cs : List Char) : chunks cs =
    match cs.dropWhile fun c => !isQuote c with
    | [] => .ok [.plain (cs.takeWhile fun c => !isQuote c)]
    | quote :: rest =>
      match rest.dropWhile fun c => c != quote with
      | [] => .error quote
      | _ :: after => (chunks after).map fun more =>
        .plain (cs.takeWhile fun c => !isQuote c) ::
          .quoted (rest.takeWhile fun c => c != quote) :: more := by
  rw [chunks]
  split
  · next h => rw [h]
  · next quote rest h =>
    rw [h]
    dsimp only
    split
    · next h' => rw [h']
    · next h' => rw [h']

variable {v : Vocabulary}

/-- The pieces of a line that is clean. -/
def lexemes (v : Vocabulary) (text : List Char) : Except Char (List Lexeme) :=
  (chunks text).map fun parts => parts.flatMap (Chunk.lexemes v)

/-- Words in front of a line are divided by themselves. -/
theorem lexemes_append {front : List Char} (h : ∀ c ∈ front, isQuote c = false)
    (text : List Char) : lexemes v (front ++ ' ' :: text) =
      (lexemes v text).map fun more => (words front).flatMap (word v) ++ more := by
  have hall : ∀ c ∈ front ++ [' '], (!isQuote c) = true := by
    intro c hc
    rcases List.mem_append.1 hc with hc | hc
    · rw [h c hc]
      rfl
    · rw [List.mem_singleton.1 hc]
      rfl
  -- the words before the blank are found apart from what follows
  have hwords : ∀ text, Chunk.lexemes v (.plain (front ++ [' '] ++ text)) =
      (words front).flatMap (word v) ++ Chunk.lexemes v (.plain text) := by
    intro text
    rw [Chunk.lexemes, ← List.append_cons, words_append, List.flatMap_append]
    rfl
  rw [lexemes, lexemes, chunks_eq, chunks_eq text, List.append_cons,
    List.dropWhile_append_of_pos hall, List.takeWhile_append_of_pos hall]
  cases text.dropWhile fun c => !isQuote c with
  | nil =>
    simp only [Except.map, List.flatMap_cons, List.flatMap_nil, List.append_nil, hwords]
  | cons quote rest =>
    dsimp only
    cases rest.dropWhile fun c => c != quote with
    | nil => rfl
    | cons _ after =>
      dsimp only
      cases chunks after with
      | error e => rfl
      | ok more =>
        simp only [Except.map, List.flatMap_cons, hwords]
        rw [List.append_assoc]

/-- What stands behind a closed quote is cut as a line of its own. -/
theorem lexemes_quoted {text quoted : List Char} {quote : Char}
    (htext : ∀ c ∈ text, isQuote c = false) (hquote : isQuote quote = true) (hnot : quote ∉ quoted)
    (after : List Char) : lexemes v (text ++ quote :: (quoted ++ quote :: after)) =
      (lexemes v after).map fun more =>
        (words text).flatMap (word v) ++ (.string, quoted) :: more := by
  have hall : ∀ c ∈ text, (!isQuote c) = true := fun c hc => by rw [htext c hc]; rfl
  have hinside : ∀ c ∈ quoted, (c != quote) = true := fun c hc => by
    rw [bne_iff_ne]
    rintro rfl
    exact hnot hc
  rw [lexemes, lexemes, chunks_eq, List.dropWhile_append_of_pos hall,
    List.takeWhile_append_of_pos hall, List.dropWhile_cons_of_neg (by simp [hquote]),
    List.takeWhile_cons_of_neg (by simp [hquote]), List.append_nil]
  dsimp only
  rw [List.dropWhile_append_of_pos hinside, List.takeWhile_append_of_pos hinside,
    List.dropWhile_cons_of_neg (by simp), List.takeWhile_cons_of_neg (by simp), List.append_nil]
  dsimp only
  cases chunks after with
  | error e => rfl
  | ok more => rfl

/-- **One blank or two make no difference** behind a text whose quotes are closed. -/
theorem lexemes_wider {front : List Char} (h : QuotesClosed front) (back : List Char) :
    lexemes v (front ++ ' ' :: ' ' :: back) = lexemes v (front ++ ' ' :: back) := by
  induction h with
  | plain hplain =>
    have hblank : lexemes v (' ' :: back) = lexemes v back := by
      have happend : lexemes v ([] ++ ' ' :: back) = _ :=
        lexemes_append (fun c hc => absurd hc List.not_mem_nil) back
      rw [List.nil_append] at happend
      rw [happend]
      cases lexemes v back <;> rfl
    rw [lexemes_append hplain, lexemes_append hplain, hblank]
  | quoted hplain hquote hnot _ ih =>
    simp only [List.append_assoc, List.cons_append]
    rw [lexemes_quoted hplain hquote hnot, lexemes_quoted hplain hquote hnot, ih]

/-- What a line leaves, by the pieces of the clean line. -/
theorem line_eq (number : Nat) (text : List Char) : line v number text =
    if (clean text).isEmpty then .ok []
    else match lexemes v (clean text) with
      | .error quote => .error ⟨number, .unclosedString quote⟩
      | .ok ls => .ok (ls.map (tokenAt number) ++ [⟨.newline, "\n", number⟩]) := by
  rw [line, lexemes]
  cases chunks (clean text) with
  | error quote => rfl
  | ok parts => rfl

/-! ### Sources -/

/-- What is found of lines is the same up to their numbers. -/
abbrev LinesAgree (v : Vocabulary) (ls ls' : List (List Char)) : Prop :=
  ∀ number number', Agree (fun _ => False) (List.Forall₂ Token.Alike) (lines v number ls)
    (lines v number' ls')

/-- Lines above do not matter. -/
theorem LinesAgree.append {ls ls' : List (List Char)} (h : LinesAgree v ls ls')
    (above : List (List Char)) : LinesAgree v (above ++ ls) (above ++ ls') := by
  induction above with
  | nil => exact h
  | cons text above ih =>
    intro number number'
    rw [List.cons_append, List.cons_append, lines_cons, lines_cons]
    exact (line_agree number number' text).bind fun here here' hhere =>
      (ih _ _).map fun _ _ hrest => List.rel_append hhere hrest

/-- Lines with the same pieces. -/
theorem LinesAgree.line {text text' : List Char}
    (h : ∀ number, line v number text = line v number text')
    (below : List (List Char)) : LinesAgree v (text :: below) (text' :: below) := by
  intro number number'
  rw [lines_cons, lines_cons, h]
  exact (line_agree number number' text').bind fun here here' hhere =>
    (lines_agree _ _ below).map fun _ _ hrest => List.rel_append hhere hrest

/-- A line is known by what is left of it when it is clean. -/
theorem LinesAgree.of_clean {text text' : List Char} (h : clean text = clean text')
    (below : List (List Char)) : LinesAgree v (text :: below) (text' :: below) :=
  .line (fun number => by rw [line_eq, line_eq, h]) below

/-- **A change of spacing leaves the tokens as they are**, up to their lines. -/
theorem Spaced.linesAgree {ls ls' : List (List Char)} (h : Spaced ls ls') :
    LinesAgree v ls ls' := by
  cases h with
  | @blankLine above below text hblank =>
    refine LinesAgree.append (fun number number' => ?_) above
    have hnone : line v number' text = .ok [] := by
      rw [line_eq, clean_eq_nil hblank]
      rfl
    rw [lines_cons, hnone]
    have hbelow : (Except.ok [] >>= fun here => (lines v (number' + 1) below).map (here ++ ·)) =
        lines v (number' + 1) below := by
      cases lines v (number' + 1) below <;> rfl
    rw [hbelow]
    exact lines_agree _ _ below
  | lineStart hblank => exact (LinesAgree.of_clean (clean_cons (.inr hblank) _).symm _).append _
  | lineEnd hblank => exact (LinesAgree.of_clean (clean_append hblank _).symm _).append _
  | control hcontrol => exact (LinesAgree.of_clean (clean_control hcontrol _ _).symm _).append _
  | @wider above below front back hfront =>
    rcases clean_wider hfront back with hsame | ⟨p, q, hp, hone, htwo⟩
    · exact (LinesAgree.of_clean hsame.symm _).append _
    · refine (LinesAgree.line (fun number => ?_) _).append _
      rw [line_eq, line_eq, hone, htwo, lexemes_wider hp]
      simp

end Lexer

namespace Dialect

variable {d : Dialect}

/-- One change of spacing changes the lines that errors name and nothing else. -/
theorem parseSource_agree (hd : d.grammar = .standard) {source source' : String}
    (h : Lexer.Widens source source') :
    Agree (fun _ => False) Eq (d.parseSource source) (d.parseSource source') := by
  have htokens : Agree (fun _ => False) (List.Forall₂ Token.Alike)
      (Lexer.tokenize d.grammar.vocabulary source)
      (Lexer.tokenize d.grammar.vocabulary source') :=
    (h.linesAgree 1 1).map fun _ _ hlines => List.rel_append hlines (.cons ⟨rfl, rfl⟩ .nil)
  exact htokens.bind fun _ _ halike => parse_agree hd halike

/-- **Layout does not matter.** Tokens that are the same up to their lines are the same template or
fail for the same reason, and so do sources that changes of spacing lead to from each other. The
reason decides the kind of an error, its message and its hint; only the line may be another one. -/
theorem parseSource_spaced (hd : d.grammar = .standard) :
    (∀ ts us, List.Forall₂ Token.Alike ts us →
      (d.parse ts).mapError SyntaxError.fault = (d.parse us).mapError SyntaxError.fault) ∧
    ∀ source source', Relation.EqvGen Lexer.Widens source source' →
      (d.parseSource source).mapError SyntaxError.fault =
        (d.parseSource source').mapError SyntaxError.fault := by
  refine ⟨fun ts us h => (parse_agree hd h).mapError_fault, fun source source' h => ?_⟩
  induction h with
  | rel source source' h => exact (parseSource_agree hd h).mapError_fault
  | refl source => rfl
  | symm source source' _ ih => exact ih.symm
  | trans source source' source'' _ _ ih ih' => exact ih.trans ih'

/-- A blank line, blanks and a carriage return around a word and a name. -/
theorem parseSource_spaced_return :
    (⟨.standard, fun _ => none, 64⟩ : Dialect).parseSource "\n a  @b\r" =
      .ok (.block [.output .content [.text "a", .expr (.leaf (.name "b"))]]) := by
  have hblank : Lexer.Widens "a @b" "\na @b" :=
    @Lexer.Spaced.blankLine [] ["a @b".toList] [] nofun
  have hstart : Lexer.Widens "\na @b" "\n a @b" :=
    @Lexer.Spaced.lineStart [[]] [] "a @b".toList ' ' rfl
  have hwider : Lexer.Widens "\n a @b" "\n a  @b" :=
    @Lexer.Spaced.wider [[]] [] " a".toList "@b".toList (.plain (List.all_iff_forall_prop.1 rfl))
  have hreturn : Lexer.Widens "\n a  @b" "\n a  @b\r" :=
    @Lexer.Spaced.control [[]] [] " a  @b".toList [] '\r' rfl
  have hchain : Relation.EqvGen Lexer.Widens "a @b" "\n a  @b\r" :=
    ((Relation.EqvGen.rel _ _ hblank).trans _ _ _ (.rel _ _ hstart)).trans _ _ _
      ((Relation.EqvGen.rel _ _ hwider).trans _ _ _ (.rel _ _ hreturn))
  have hsame := (parseSource_spaced (d := ⟨.standard, fun _ => none, 64⟩) rfl).2 _ _ hchain
  have hplain : (⟨.standard, fun _ => none, 64⟩ : Dialect).parseSource "a @b" =
      .ok (.block [.output .content [.text "a", .expr (.leaf (.name "b"))]]) := by
    cbv
  rw [hplain] at hsame
  cases hread : (⟨.standard, fun _ => none, 64⟩ : Dialect).parseSource "\n a  @b\r" with
  | error e =>
    rw [hread] at hsame
    cases hsame
  | ok n =>
    rw [hread] at hsame
    exact congrArg Except.ok (Except.ok.inj hsame.symm)

end Dialect

end Stencil
