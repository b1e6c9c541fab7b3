import Mathlib
import Stencil.Proofs.Lockstep.Levels
import Stencil.Proofs.Nesting
import Stencil.Proofs.Room
/-!
# Comments

A line with a comment between two lines of a source. Its tokens are a note: a mark, the comment sign
and words up to the end of the line. The source with the line and the one without it are read in
lockstep, where the second reading passes over the note as soon as a statement can begin. That is
the case behind every line but one that goes on behind an element: where an `else` in the block of
the element has closed the statement around it, the rest of the line around the element may stand
behind the next one. The fenced dialect refuses such an element.
-/

namespace Stencil

open Reading

/-! ## Notes -/

/-- The tokens of a line that is a comment. -/
inductive IsNote : List Token → Prop
  | mk {t u v : Token} {words : List Token} : t.kind = .mark → u.kind = .comment → u.text = "#" →
      (∀ w ∈ words, w.kind ≠ .newline) → v.kind = .newline → IsNote (t :: u :: (words ++ [v]))

/-- The same words with a note behind the end of a line, if at all. -/
inductive Noted (note : List Token) : List Token → List Token → Prop
  | same {ts us : List Token} : List.Forall₂ Token.Alike ts us → Noted note ts us
  | here {t u : Token} {ts us : List Token} : t.Alike u → t.kind = .newline →
      List.Forall₂ Token.Alike ts us → Noted note (t :: ts) (u :: (note ++ us))
  | cons {t u : Token} {ts us : List Token} :
      t.Alike u → Noted note ts us → Noted note (t :: ts) (u :: us)

theorem exists_alike_of_forall₂ {ts us : List Token} (h : List.Forall₂ Token.Alike ts us) :
    ∀ t ∈ ts, ∃ u ∈ us, t.Alike u := by
  induction h with
  | nil => simp
  | @cons t u ts us hhead _ ih =>
    refine List.forall_mem_cons.2 ⟨⟨u, List.mem_cons_self, hhead⟩, fun t ht => ?_⟩
    obtain ⟨v, hv, halike⟩ := ih t ht
    exact ⟨v, List.mem_cons_of_mem _ hv, halike⟩

namespace Noted

variable {note ts us : List Token} {E : SyntaxError → Prop} {longest : Nat}

/-- Behind words that are the same, up to the end of a line. -/
theorem append {init init' : List Token} {v v' : Token} (h : List.Forall₂ Token.Alike init init')
    (hv : v.Alike v') (hline : v.kind = .newline) (hrest : List.Forall₂ Token.Alike ts us) :
    Noted note (init ++ v :: ts) (init' ++ v' :: (note ++ us)) := by
  induction h with
  | nil => exact .here hv hline hrest
  | cons hhead _ ih => exact .cons hhead ih

/-- Every word has another one beside it. -/
theorem exists_alike (h : Noted note ts us) : ∀ t ∈ ts, ∃ u ∈ us, t.Alike u := by
  induction h with
  | same h => exact exists_alike_of_forall₂ h
  | @here t u ts us hhead _ h =>
    refine List.forall_mem_cons.2 ⟨⟨u, List.mem_cons_self, hhead⟩, fun t ht => ?_⟩
    obtain ⟨v, hv, halike⟩ := exists_alike_of_forall₂ h t ht
    exact ⟨v, List.mem_cons_of_mem _ (List.mem_append_right _ hv), halike⟩
  | @cons t u ts us hhead _ ih =>
    refine List.forall_mem_cons.2 ⟨⟨u, List.mem_cons_self, hhead⟩, fun t ht => ?_⟩
    obtain ⟨v, hv, halike⟩ := ih t ht
    exact ⟨v, List.mem_cons_of_mem _ hv, halike⟩

/-- Up to the end of the line there is no note. -/
theorem dropWhile_line (h : Noted note ts us) :
    Noted note (ts.dropWhile fun w => w.kind != .newline)
      (us.dropWhile fun w => w.kind != .newline) := by
  induction h with
  | same h => exact .same (Lockstep.forall₂_dropWhile (fun h => by rw [h.1]) h)
  | here hhead hline h =>
    rw [List.dropWhile_cons_of_neg (by simp [hline]),
      List.dropWhile_cons_of_neg (by simp [← hhead.1, hline])]
    exact .here hhead hline h
  | cons hhead h ih =>
    rw [List.dropWhile_cons, List.dropWhile_cons, hhead.1]
    split
    · exact ih
    · exact .cons hhead h

/-- A note in front of words that are the same is where a statement can begin. -/
theorem resumes_note {Beside : List Token → List Token → Prop} (hnote : IsNote note)
    (hrest : Beside ts (us.dropWhile fun w => w.kind == .newline)) :
    Lockstep.Resumes Beside E true ts ((note ++ us).dropWhile fun w => w.kind == .newline) := by
  obtain ⟨ht, hu, hsign, hwords, hv⟩ := hnote
  rw [List.cons_append, List.dropWhile_cons_of_neg (by simp [ht]), List.cons_append,
    List.append_assoc, List.singleton_append]
  exact .note rfl ht hu hsign hwords hv hrest

end Noted

/-- The same words with a note behind the end of a line, or in front of all words, if at all. -/
def NotedIn (note ts us : List Token) : Prop :=
  Noted note ts us ∨ ∃ rest, us = note ++ rest ∧ List.Forall₂ Token.Alike ts rest

theorem NotedIn.exists_alike {note ts us : List Token} (h : NotedIn note ts us) :
    ∀ t ∈ ts, ∃ u ∈ us, t.Alike u := by
  rcases h with h | ⟨rest, rfl, h⟩
  · exact h.exists_alike
  · intro t ht
    obtain ⟨u, hu, halike⟩ := exists_alike_of_forall₂ h t ht
    exact ⟨u, List.mem_append_right _ hu, halike⟩

/-- The same words with strings shorter than `longest`, and a note behind the end of a line, if at
all. -/
def Lockstep.noted (E : SyntaxError → Prop) (longest : Nat) {note : List Token}
    (hnote : IsNote note) : Lockstep where
  Beside ts us := Noted note ts us ∧ ∀ t ∈ ts, t.kind = .string → t.text.length < longest
  Excused := E
  around := []
  longest := longest
  ends := true
  fenced := true
  heads := by
    rintro ts us ⟨h, hstrings⟩
    cases h with
    | same h =>
      cases h with
      | nil => exact .done
      | @cons t u ts us hhead htail =>
        by_cases hnewline : t.kind = .newline
        · exact .line hhead hnewline
        · exact .word hhead hnewline ⟨.same htail, fun v hv => hstrings v (.tail _ hv)⟩
    | here hhead hnewline _ => exact .line hhead hnewline
    | @cons t u ts us hhead htail =>
      by_cases hnewline : t.kind = .newline
      · exact .line hhead hnewline
      · exact .word hhead hnewline ⟨htail, fun v hv => hstrings v (.tail _ hv)⟩
  strings := fun h hstring => h.2 _ List.mem_cons_self hstring
  comment := by
    rintro t u ts us ⟨h, hstrings⟩ hsign
    refine ⟨?_, fun v hv => hstrings v (.tail _ ((List.dropWhile_suffix _).subset hv))⟩
    cases h with
    | same h =>
      cases h with
      | cons _ htail => exact Noted.dropWhile_line (.same htail)
    | here _ hnewline _ =>
      have hword := hsign.1
      rw [hnewline] at hword
      cases hword
    | cons _ htail => exact htail.dropWhile_line
  resumes := by
    rintro ts us ⟨h, hstrings⟩
    induction h with
    | same h =>
      refine .level ⟨.same (forall₂_dropWhile (fun h => by rw [h.1]) h), fun v hv => ?_⟩
      exact hstrings v ((List.dropWhile_suffix _).subset hv)
    | @here t u ts us hhead hnewline h =>
      rw [List.dropWhile_cons_of_pos (by simp [hnewline]),
        List.dropWhile_cons_of_pos (by simp [← hhead.1, hnewline])]
      refine Noted.resumes_note hnote ⟨.same (forall₂_dropWhile (fun h => by rw [h.1]) h), ?_⟩
      exact fun v hv => hstrings v (.tail _ ((List.dropWhile_suffix _).subset hv))
    | @cons t u ts us hhead h ih =>
      by_cases hnewline : t.kind = .newline
      · rw [List.dropWhile_cons_of_pos (by simp [hnewline]),
          List.dropWhile_cons_of_pos (by simp [← hhead.1, hnewline])]
        exact ih fun v hv => hstrings v (.tail _ hv)
      · rw [List.dropWhile_cons_of_neg (by simp [hnewline]),
          List.dropWhile_cons_of_neg (by simp [← hhead.1, hnewline])]
        exact .level ⟨.cons hhead h, hstrings⟩
  around_open := open_of_none
  excused_of_around := excused_of_none
  fenced_of_ends := fun _ => rfl

/-- A statement can begin in front of both. -/
theorem NotedIn.resumes {note ts us : List Token} {E : SyntaxError → Prop} {longest : Nat}
    (h : NotedIn note ts us) (hnote : IsNote note)
    (hstrings : ∀ t ∈ ts, t.kind = .string → t.text.length < longest) :
    Lockstep.Resumes (Lockstep.noted E longest hnote).Beside E true
      (ts.dropWhile fun t => t.kind == .newline) (us.dropWhile fun t => t.kind == .newline) := by
  rcases h with h | ⟨rest, rfl, h⟩
  · exact (Lockstep.noted E longest hnote).resumes ⟨h, hstrings⟩
  · refine Noted.resumes_note hnote
      ⟨.same (Lockstep.forall₂_dropWhile (fun h => by rw [h.1]) h), ?_⟩
    exact fun v hv => hstrings v ((List.dropWhile_suffix _).subset hv)

/-! ## Templates -/

namespace Dialect

variable {d : Dialect}

/-- The errors of the fenced dialect after which nothing is said of the source with a comment. -/
def Dropped (d : Dialect) (e : SyntaxError) : Prop :=
  d.LimitReached e ∨ e.IsLost

/-- A note makes no difference to the fenced dialect, up to the limit of nesting. -/
theorem fenced_parse_noted {d' : Dialect} (hd' : d'.grammar = .standard)
    (hm : d'.modifier? = d.modifier?) (hlt : d.maxDepth < d'.maxDepth)
    {note ts us : List Token} (hnote : IsNote note)
    (h : NotedIn note (Cursor.ofTokens ts).tokens (Cursor.ofTokens us).tokens) :
    Lockstep.Agree d.Dropped Eq (d.fenced.parse ts) (d'.parse us) := by
  have hg : d.fenced.grammar = .withElements (Statement.fencedElement true) Statement.elementText :=
    Grammar.withElements_elementText.symm
  have hlost : ∀ line, d.Dropped ⟨line, .lostElseOwner⟩ := fun _ => Or.inr rfl
  have hdeep : ∀ line, d.Dropped ⟨line, .tooDeep d.maxDepth⟩ := fun _ => Or.inl rfl
  have hpart : ∀ {ts : List Token} {t : Token}, t ∈ (Cursor.ofTokens ts).tokens →
      t.text.length < longestText ts + 1 := fun ht =>
    Nat.lt_succ_of_le (le_longestText ((List.takeWhile_prefix _).subset ht))
  obtain ⟨S, hS⟩ : ∃ S, S = Lockstep.noted d.Dropped
    (min (longestText ts + 1) (longestText us + 1)) hnote := ⟨_, rfl⟩
  have hstrings : ∀ t ∈ (Cursor.ofTokens ts).tokens, t.kind = .string →
      t.text.length < min (longestText ts + 1) (longestText us + 1) := by
    intro t ht _
    obtain ⟨u, hu, halike⟩ := h.exists_alike t ht
    exact lt_min (hpart ht) (halike.2 ▸ hpart hu)
  have hstart : S.Resuming [] ((Cursor.ofTokens ts).tokens.length + 1,
      (Cursor.ofTokens us).tokens.length + 1) (Cursor.ofTokens ts) (Cursor.ofTokens us) := by
    refine ⟨?_, ⟨[], .refl [], rfl, ?_⟩, Nat.lt_succ_self _, Nat.lt_succ_self _⟩
    · rw [hS]
      exact h.resumes hnote hstrings
    · rw [hS]
      rfl
  unfold parse read top
  refine Lockstep.Agree.map (R := fun x y => x.1 = y.1) ?_ fun _ _ heq => heq
  change Lockstep.Agree _ _ ((d.fenced.levels _ d.maxDepth).block false _) _
  cases hdepth : d.maxDepth with
  | zero =>
    refine ⟨fun _ hok => (nomatch hok), fun e he => Or.inl (Or.inl ?_)⟩
    cases he
    exact rfl
  | succ k =>
    obtain ⟨extra, hextra⟩ := Nat.exists_eq_add_of_lt hlt
    have hlimit : d'.maxDepth = extra + 1 + k + 1 := by omega
    have hends : S.ends = true := by rw [hS]; rfl
    have hexcused : S.Excused = d.Dropped := by rw [hS]; rfl
    have hlevels : S.Levels (d.fenced.levels (d.fenced.attributeText (longestText ts + 1)) k)
        (d'.levels (d'.attributeText (longestText us + 1)) (extra + 1 + k)) := by
      refine Lockstep.levels_tied hg hd' hm ?_ (elementText_keepsStep hends) (Or.inr ?_)
        (fun _ => Nat.succ_pos extra) ?_ k
      · exact fencedElement_keepsStep (by rw [hexcused]; exact hlost) (Or.inl hends)
      · rw [hexcused]
        exact hdeep
      · intro text line line' hshort
        rw [hS] at hshort
        rw [hexcused]
        refine Lockstep.attributeText_agree hg hd' hm ?_ ?_ (Or.inr ⟨hlt.le, hdeep⟩) line line'
          (hshort.trans_le (min_le_left _ _)) (hshort.trans_le (min_le_right _ _))
        · exact fun longest => fencedElement_keepsStep hlost (Or.inl rfl)
        · exact fun longest => elementText_keepsStep rfl
    have hcomments : Lockstep.PassesComments
        (d'.levels (d'.attributeText (longestText us + 1)) (extra + 1 + k)) := by
      rw [show extra + 1 + k = extra + k + 1 by omega]
      exact Lockstep.passesComments_succ hd' _
    -- the end of the tokens is the end of the template, whatever is said of other errors
    have hother : false = true ∨ ∃ e, ¬S.Excused e := by
      right
      rw [hexcused]
      refine ⟨⟨0, .unclosedBlock⟩, ?_⟩
      rintro (h | h) <;> cases h
    have htied := Lockstep.blockOf_tied hlevels (by simp [Pending.AllOpen]) (fun _ => hcomments)
      hother hstart
    rw [hlimit]
    exact hexcused ▸ htied.agree.mono (fun _ he => he) fun _ _ hxy => hxy.1

end Dialect

/-! ## The tokens of a comment -/

namespace Lexer

variable {v : Vocabulary}

theorem lines_append (number : Nat) (texts texts' : List (List Char)) :
    lines v number (texts ++ texts') = lines v number texts >>= fun here =>
      (lines v (number + texts.length) texts').map (here ++ ·) := by
  induction texts generalizing number with
  | nil =>
    change lines v number texts' = (lines v number texts').map fun rest => rest
    cases lines v number texts' <;> rfl
  | cons text texts ih =>
    have hcount : number + (text :: texts).length = number + 1 + texts.length := by
      rw [List.length_cons]
      omega
    rw [List.cons_append, lines_cons, lines_cons, ih, hcount]
    cases line v number text with
    | error e => rfl
    | ok first =>
      cases lines v (number + 1) texts with
      | error e => rfl
      | ok here =>
        simp only [bind, Except.bind, Except.map]
        cases lines v (number + 1 + texts.length) texts' with
        | error e => rfl
        | ok rest => simp

/-- Whether tokens end with a line. -/
def EndsLine (ts : List Token) : Prop :=
  ts = [] ∨ ∃ init t, ts = init ++ [t] ∧ t.kind = .newline

theorem endsLine_of_line {number : Nat} {text : List Char} {ts : List Token}
    (h : line v number text = .ok ts) : EndsLine ts := by
  unfold line at h
  dsimp only at h
  split at h
  · cases h
    exact Or.inl rfl
  · split at h
    · cases h
    · cases h
      exact Or.inr ⟨_, _, rfl, rfl⟩

theorem endsLine_of_lines {number : Nat} {texts : List (List Char)} {ts : List Token}
    (h : lines v number texts = .ok ts) : EndsLine ts := by
  induction texts generalizing number ts with
  | nil =>
    cases h
    exact Or.inl rfl
  | cons text texts ih =>
    rw [lines_cons] at h
    cases hline : line v number text with
    | error e =>
      rw [hline] at h
      cases h
    | ok here =>
      cases hrest : lines v (number + 1) texts with
      | error e =>
        rw [hline, hrest] at h
        cases h
      | ok rest =>
        rw [hline, hrest] at h
        cases h
        rcases ih hrest with rfl | ⟨init, t, rfl, ht⟩
        · change EndsLine (here ++ [])
          rw [List.append_nil]
          exact endsLine_of_line hline
        · exact Or.inr ⟨here ++ init, t, by simp, ht⟩

theorem chunks_head {cs : List Char} {parts : List Chunk} (h : chunks cs = .ok parts) :
    ∃ more, parts = .plain (cs.takeWhile fun c => !isQuote c) :: more := by
  rw [chunks] at h
  dsimp only at h
  split at h
  · cases h
    exact ⟨[], rfl⟩
  · split at h
    · cases h
    · rename_i after _ 
      cases hmore : chunks after with
      | error e =>
        rw [hmore] at h
        cases h
      | ok more =>
        rw [hmore] at h
        cases h
        exact ⟨_, rfl⟩

/-- No word of the language is the end of a line. -/
theorem ne_newline_of_mem_lexemes {chunk : Chunk} {x : Lexeme}
    (h : x ∈ chunk.lexemes .standard) : x.1 ≠ .newline := by
  have hall : ∀ e ∈ Vocabulary.standard, e.2 ≠ .newline := by decide
  cases chunk with
  | plain text =>
    obtain ⟨w, -, hx⟩ := List.mem_flatMap.1 h
    rcases (isPiece_of_mem_word hx).kind with hkind | hliteral | ⟨hnumber, -⟩
    · exact hall _ (Table.mem_of_get? hkind)
    · simp [hliteral]
    · simp [hnumber]
  | quoted text =>
    rw [List.mem_singleton.1 h]
    simp

/-- The first word of a line with a comment stays whole in the cleaned line. -/
theorem clean_comment (text : List Char) :
    ∃ rest, clean ('@' :: '#' :: ' ' :: text) = '@' :: '#' :: rest ∧
      (rest = [] ∨ ∃ more, rest = ' ' :: more) := by
  obtain ⟨kept, hkept⟩ : ∃ kept, text.filter (fun c => !isControl c) = kept := ⟨_, rfl⟩
  have hfilter : ('@' :: '#' :: ' ' :: text).filter (fun c => !isControl c) =
      '@' :: '#' :: ' ' :: kept := by
    rw [← hkept]
    rfl
  have hend : ∀ cs, Text.trimEnd ('@' :: '#' :: cs) = '@' :: '#' :: Text.trimEnd cs := by
    intro cs
    have hfirst : (['#', '@'] : List Char).dropWhile Text.isBlank = ['#', '@'] := by decide
    rw [Text.trimEnd, Text.trimEnd, List.reverse_cons, List.reverse_cons, List.append_assoc,
      List.dropWhile_append, List.singleton_append, hfirst]
    split
    · next hnil => simp [List.isEmpty_iff.1 hnil]
    · simp
  refine ⟨Text.trimEnd (' ' :: kept), ?_, ?_⟩
  · rw [clean, hfilter, Text.trim]
    exact hend _
  · have hprefix : Text.trimEnd (' ' :: kept) <+: ' ' :: kept := List.rdropWhile_prefix _ _
    rcases List.prefix_cons_iff.1 hprefix with hnil | ⟨more, hmore, -⟩
    · exact Or.inl hnil
    · exact Or.inr ⟨more, hmore⟩

theorem word_sign : word .standard ['@', '#'] = [(.mark, ['@']), (.comment, ['#'])] := by
  decide +kernel

/-- The first two tokens of a line with a comment. -/
theorem lexemes_comment {rest : List Char} (h : rest = [] ∨ ∃ more, rest = ' ' :: more) :
    ∃ more, (Chunk.plain ('@' :: '#' :: rest)).lexemes .standard =
      (.mark, ['@']) :: (.comment, ['#']) :: more := by
  obtain ⟨parts, hparts⟩ : ∃ parts, ('@' :: '#' :: rest).splitOn ' ' = ['@', '#'] :: parts := by
    rcases h with rfl | ⟨more, rfl⟩
    · exact ⟨[], by decide⟩
    · have hblank : ' ' ∉ ['@', '#'] := by decide
      exact ⟨_, List.splitOn_append_cons_self_of_not_mem hblank more⟩
  refine ⟨(parts.filter fun w => !w.isEmpty).flatMap (word .standard), ?_⟩
  rw [Chunk.lexemes, words, hparts, List.filter_cons_of_pos rfl, List.flatMap_cons, word_sign]
  rfl

/-- **A line with a comment is a note**, if its quotes are closed. -/
theorem isNote_of_line {number : Nat} {text : List Char} {ts : List Token}
    (h : line .standard number ('@' :: '#' :: ' ' :: text) = .ok ts) : IsNote ts := by
  obtain ⟨rest, hclean, hrest⟩ := clean_comment text
  unfold line at h
  dsimp only at h
  rw [hclean] at h
  rw [if_neg (by simp)] at h
  split at h
  · cases h
  · next parts hparts =>
    cases h
    obtain ⟨others, rfl⟩ := chunks_head hparts
    -- the line begins with the mark and the sign, whatever is cut behind them
    have hfirst : ∃ more, (Chunk.plain (('@' :: '#' :: rest).takeWhile fun c => !isQuote c)).lexemes
        .standard = (.mark, ['@']) :: (.comment, ['#']) :: more := by
      have htake : ('@' :: '#' :: rest).takeWhile (fun c => !isQuote c) =
          '@' :: '#' :: rest.takeWhile fun c => !isQuote c := rfl
      rw [htake]
      refine lexemes_comment ?_
      rcases hrest with rfl | ⟨more, rfl⟩
      · exact Or.inl rfl
      · exact Or.inr ⟨_, rfl⟩
    obtain ⟨more, hmore⟩ := hfirst
    rw [List.flatMap_cons, hmore]
    -- no piece of a line is a line end
    have hwords : ∀ w ∈ (more ++ others.flatMap (Chunk.lexemes .standard)).map (tokenAt number),
        w.kind ≠ .newline := by
      intro w hw
      obtain ⟨x, hx, rfl⟩ := List.mem_map.1 hw
      rcases List.mem_append.1 hx with hx | hx
      · have hin : x ∈ (Chunk.plain (('@' :: '#' :: rest).takeWhile fun c => !isQuote c)).lexemes
            .standard := hmore ▸ List.mem_cons_of_mem _ (List.mem_cons_of_mem _ hx)
        exact ne_newline_of_mem_lexemes hin
      · obtain ⟨chunk, -, hx⟩ := List.mem_flatMap.1 hx
        exact ne_newline_of_mem_lexemes hx
    exact .mk rfl rfl rfl hwords rfl

/-- A text in one line is divided as that line. -/
theorem exists_line_of_tokenize {text : String} (hline : '\n' ∉ text.toList) {ts : List Token}
    (h : tokenize v text = .ok ts) : ∃ here, line v 1 text.toList = .ok here := by
  unfold tokenize tokenizeFrom at h
  rw [List.splitOn_eq_singleton hline, lines_cons] at h
  cases hhere : line v 1 text.toList with
  | error e =>
    rw [hhere] at h
    cases h
  | ok here => exact ⟨here, rfl⟩

/-! ## Lines of a source -/

/-- A line between other ones. If it is a note, it is one among their tokens as well. -/
theorem lines_insert {text : List Char}
    (htext : ∀ number, ∃ note, line .standard number text = .ok note ∧ IsNote note)
    (number : Nat) (before after : List (List Char)) :
    Lockstep.Agree (fun _ => False) (fun ts us => ∃ note, IsNote note ∧ NotedIn note ts us)
      (lines .standard number (before ++ after))
      (lines .standard number (before ++ text :: after)) := by
  rw [lines_append, lines_append]
  cases hbefore : lines .standard number before with
  | error e => exact .error rfl
  | ok init =>
    obtain ⟨note, hline, hnote⟩ := htext (number + before.length)
    have hafter := lines_agree (v := .standard) (number + before.length)
      (number + before.length + 1) after
    rw [lines_cons, hline]
    cases hrest : lines .standard (number + before.length) after with
    | error e =>
      obtain ⟨e', he', hfault⟩ := (hafter.2 e hrest).resolve_left id
      rw [he']
      exact .error hfault
    | ok rest =>
      obtain ⟨rest', hrest', halike⟩ := hafter.1 rest hrest
      rw [hrest']
      refine .ok ⟨note, hnote, ?_⟩
      rcases endsLine_of_lines hbefore with rfl | ⟨words, t, rfl, ht⟩
      · exact Or.inr ⟨rest', rfl, halike⟩
      · left
        have hsame : List.Forall₂ Token.Alike words words :=
          List.forall₂_same.2 fun w _ => .refl w
        simpa using Noted.append hsame (.refl t) ht halike

end Lexer

/-- A source with a line behind `i` lines of it, or behind all of them if there are fewer. -/
def insertLine (i : Nat) (text source : String) : String :=
  let texts := source.toList.splitOn '\n'
  String.ofList (['\n'].intercalate (texts.take i ++ text.toList :: texts.drop i))

theorem splitOn_insertLine {text : String} (h : '\n' ∉ text.toList) (i : Nat) (source : String) :
    (insertLine i text source).toList.splitOn '\n' =
      (source.toList.splitOn '\n').take i ++
        text.toList :: (source.toList.splitOn '\n').drop i := by
  rw [insertLine, String.toList_ofList]
  refine List.splitOn_intercalate _ (fun part hpart => ?_) (by simp)
  rcases List.mem_append.1 hpart with hpart | hpart
  · exact not_mem_of_mem_splitOn (List.mem_of_mem_take hpart)
  · rcases List.mem_cons.1 hpart with rfl | hpart
    · exact h
    · exact not_mem_of_mem_splitOn (List.mem_of_mem_drop hpart)

/-- The tokens of a source and of the same source with a note. -/
theorem Lexer.tokenize_insertLine {text : String} (hline : '\n' ∉ text.toList)
    (htext : ∀ number, ∃ note, line .standard number text.toList = .ok note ∧ IsNote note)
    (i : Nat) (source : String) :
    Lockstep.Agree (fun _ => False) (fun ts us => ∃ note, IsNote note ∧
        NotedIn note (Cursor.ofTokens ts).tokens (Cursor.ofTokens us).tokens)
      (tokenize .standard source) (tokenize .standard (insertLine i text source)) := by
  have hlines := lines_insert htext 1 ((source.toList.splitOn '\n').take i)
    ((source.toList.splitOn '\n').drop i)
  rw [List.take_append_drop, ← splitOn_insertLine hline] at hlines
  unfold tokenize tokenizeFrom
  cases hsource : lines .standard 1 (source.toList.splitOn '\n') with
  | error e =>
    obtain ⟨e', he', hfault⟩ := (hlines.2 e hsource).resolve_left id
    rw [he']
    exact .error hfault
  | ok ts =>
    obtain ⟨us, hus, note, hnote, hnoted⟩ := hlines.1 ts hsource
    rw [hus]
    refine .ok ⟨note, hnote, ?_⟩
    rw [close, close, Cursor.ofTokens_append_stop (fits_of_lines hsource) rfl,
      Cursor.ofTokens_append_stop (fits_of_lines hus) rfl]
    exact hnoted

namespace Dialect

variable {d : Dialect}

/-- A line with a comment makes no difference to the fenced dialect. -/
theorem fenced_parseSource_insertLine (hd : d.grammar = .standard) {d' : Dialect}
    (hd' : d'.grammar = .standard) (hm : d'.modifier? = d.modifier?)
    (hlt : d.maxDepth < d'.maxDepth) {comment : String} (hline : '\n' ∉ comment.toList)
    (hquotes : ∃ ts, Lexer.tokenize .standard ("@# " ++ comment) = .ok ts) (i : Nat)
    {source : String} (hfenced : ∀ e, d.fenced.parseSource source = .error e → ¬e.IsLost) :
    Lockstep.Agree d.LimitReached Eq (d.parseSource source)
      (d'.parseSource (insertLine i ("@# " ++ comment) source)) := by
  have hchars : ("@# " ++ comment).toList = '@' :: '#' :: ' ' :: comment.toList := by
    rw [String.toList_append]
    rfl
  have hnewline : '\n' ∉ ("@# " ++ comment).toList := by
    rw [hchars]
    simp [hline]
  have hv : d.grammar.vocabulary = .standard := by rw [hd, Grammar.vocabulary_standard]
  have hv' : d'.grammar.vocabulary = .standard := by rw [hd', Grammar.vocabulary_standard]
  have hvf : d.fenced.grammar.vocabulary = .standard := Grammar.vocabulary_standardWith
  -- in every line, the comment is one note of the tokens
  have htext : ∀ number, ∃ note, Lexer.line .standard number ("@# " ++ comment).toList = .ok note ∧
      IsNote note := by
    intro number
    obtain ⟨ts, hts⟩ := hquotes
    obtain ⟨here, hhere⟩ := Lexer.exists_line_of_tokenize hnewline hts
    obtain ⟨note, hnote, -⟩ := (Lexer.line_agree 1 number _).1 here hhere
    exact ⟨note, hnote, Lexer.isNote_of_line (hchars ▸ hnote)⟩
  have htokens := Lexer.tokenize_insertLine hnewline htext i source
  unfold parseSource at hfenced ⊢
  rw [hvf] at hfenced
  rw [hv, hv']
  cases hsource : Lexer.tokenize .standard source with
  | error e =>
    obtain ⟨e', he', hfault⟩ := (htokens.2 e hsource).resolve_left id
    rw [he']
    exact .error hfault
  | ok ts =>
    obtain ⟨us, hus, note, hnote, hnoted⟩ := htokens.1 ts hsource
    rw [hsource] at hfenced
    rw [hus]
    have hagree := fenced_parse_noted hd' hm hlt hnote hnoted
    -- the fence changes nothing, since the source loses no statement
    have hsame : d.fenced.parse ts = d.parse ts := by
      rcases fenced_upTo hd ts with h | ⟨e, he, h⟩
      · exact h
      · exact absurd he (hfenced e h)
    refine ⟨fun n hn => hagree.1 n (hsame.trans hn), fun e he => ?_⟩
    rcases hagree.2 e (hsame.trans he) with (hdeep | hlost) | hfault
    · exact Or.inl hdeep
    · exact absurd hlost (hfenced e (hsame.trans he))
    · exact Or.inr hfault

theorem length_insertLine {text : String} (h : '\n' ∉ text.toList) (i : Nat) (source : String) :
    (insertLine i text source).length = source.length + text.length + 1 := by
  have hall := sum_length_splitOn '\n' (insertLine i text source).toList
  have hsource := sum_length_splitOn '\n' source.toList
  rw [splitOn_insertLine h] at hall
  rw [← List.take_append_drop i (source.toList.splitOn '\n')] at hsource
  simp only [List.map_append, List.map_cons, List.sum_append, List.sum_cons,
    String.length_toList] at hall hsource
  omega

/-- A line with a quote that is not closed is refused wherever it stands, as a comment as well. -/
theorem parseSource_insertLine_of_quote (hd : d.grammar = .standard) {text : String}
    (hline : '\n' ∉ text.toList) {e : SyntaxError} (h : Lexer.tokenize .standard text = .error e)
    (i : Nat) (source : String) : ∃ e' quote,
      d.parseSource (insertLine i text source) = .error e' ∧ e'.fault = .unclosedString quote := by
  have hrefused : ∀ number, ∃ e, Lexer.line .standard number text.toList = .error e := by
    intro number
    cases hhere : Lexer.line .standard number text.toList with
    | error e => exact ⟨e, rfl⟩
    | ok here =>
      obtain ⟨note, hnote, -⟩ := (Lexer.line_agree number 1 _).1 here hhere
      unfold Lexer.tokenize Lexer.tokenizeFrom at h
      rw [List.splitOn_eq_singleton hline, Lexer.lines_cons, hnote] at h
      cases h
  obtain ⟨e', he'⟩ : ∃ e', Lexer.tokenize .standard (insertLine i text source) = .error e' := by
    unfold Lexer.tokenize Lexer.tokenizeFrom
    rw [splitOn_insertLine hline, Lexer.lines_append]
    cases Lexer.lines .standard 1 ((source.toList.splitOn '\n').take i) with
    | error e => exact ⟨e, rfl⟩
    | ok init =>
      obtain ⟨e', he'⟩ := hrefused (1 + ((source.toList.splitOn '\n').take i).length)
      rw [Lexer.lines_cons, he']
      exact ⟨e', rfl⟩
  obtain ⟨quote, hquote⟩ := Lexer.fault_of_tokenizeFrom he'
  refine ⟨e', quote, ?_, hquote⟩
  rw [parseSource, hd, Grammar.vocabulary_standard, he']
  rfl

/-- **A line with a comment makes no difference**, whatever stands in it and between which lines, if
the limit of nesting is none: a source that is a template stays the same template, and one that is
none fails for the same fault. There are two conditions. A line is divided into tokens before
anything is known of its words, and so the quotes of the comment must be closed. And an `else` in
the block of an element must not close the statement around the element: then the line of the
element is not over, and the lines that follow belong to it. -/
theorem parseSource_insertLine (hd : d.grammar = .standard) {source comment : String}
    (hroom : source.length + comment.length + 6 < d.maxDepth) (hline : '\n' ∉ comment.toList)
    (hquotes : ∃ ts, Lexer.tokenize .standard ("@# " ++ comment) = .ok ts)
    (hfenced : ∀ e, d.fenced.parseSource source = .error e → ¬e.IsLost) (i : Nat) :
    (∀ n, d.parseSource source = .ok n →
        d.parseSource (insertLine i ("@# " ++ comment) source) = .ok n) ∧
      ∀ e, d.parseSource source = .error e →
        ∃ e', d.parseSource (insertLine i ("@# " ++ comment) source) = .error e' ∧
          e'.fault = e.fault := by
  have hnewline : '\n' ∉ ("@# " ++ comment).toList := by
    rw [String.toList_append, List.mem_append]
    exact fun h => h.elim (by decide) hline
  have hlength : (insertLine i ("@# " ++ comment) source).length =
      source.length + (3 + comment.length) + 1 := by
    rw [length_insertLine hnewline, String.length_append]
    rfl
  -- one level more, which is no difference to the source with the comment
  have hgrammar : (d.withDepth (d.maxDepth + 1)).grammar = .standard := hd
  have hagree := fenced_parseSource_insertLine hd hgrammar rfl (Nat.lt_succ_self _) hline hquotes i
    hfenced
  rw [parseSource_withDepth hd (by omega) (Nat.le_succ _)] at hagree
  refine ⟨fun n hn => ?_, fun e he => ?_⟩
  · obtain ⟨n', hn', rfl⟩ := hagree.1 n hn
    exact hn'
  · rcases hagree.2 e he with hdeep | hfault
    · have hshallow := isDeep_of_parseSource hd (by omega) he
      rw [hdeep] at hshallow
      cases hshallow
    · exact hfault

/-- A choice, and the same choice without its end. The comment holds words of the language and a
string. -/
theorem parseSource_insertLine_choice :
    let d : Dialect := ⟨.standard, fun _ => none, 64⟩
    let source := "@if a:\nx\n@end"
    let broken := "@if a:\nx"
    let comment := "@end [ \"b\""
    let n : Node := .block
      [.choice [.mk (some (.leaf (.name "a"))) (.block [.output .content [.text "x"]])]]
    d.grammar = .standard ∧ '\n' ∉ comment.toList ∧
      source.length + comment.length + 6 < d.maxDepth ∧
      broken.length + comment.length + 6 < d.maxDepth ∧
      (∃ ts, Lexer.tokenize .standard ("@# " ++ comment) = .ok ts) ∧
      (∀ e, d.fenced.parseSource source = .error e → ¬e.IsLost) ∧
      (∀ e, d.fenced.parseSource broken = .error e → ¬e.IsLost) ∧
      insertLine 2 ("@# " ++ comment) source = "@if a:\nx\n@# @end [ \"b\"\n@end" ∧
      d.parseSource source = .ok n ∧
      d.parseSource (insertLine 2 ("@# " ++ comment) source) = .ok n ∧
      d.parseSource broken = .error ⟨2, .unclosedBlock⟩ ∧
      ∃ e, d.parseSource (insertLine 2 ("@# " ++ comment) broken) = .error e ∧
        e.fault = .unclosedBlock := by
  intro d source broken comment n
  have hline : '\n' ∉ comment.toList := by decide
  have hroom : source.length + comment.length + 6 < d.maxDepth := by decide
  have hroom' : broken.length + comment.length + 6 < d.maxDepth := by decide
  have hquotes : ∃ ts, Lexer.tokenize .standard ("@# " ++ comment) = .ok ts := by
    dsimp only [comment]
    exact ⟨_, by cbv⟩
  have hfenced : ∀ e, d.fenced.parseSource source = .error e → ¬e.IsLost := by
    have hok : d.fenced.parseSource source = .ok n := by
      dsimp only [d, source, n]
      cbv
    intro e he
    rw [hok] at he
    cases he
  have hfenced' : ∀ e, d.fenced.parseSource broken = .error e → ¬e.IsLost := by
    have herror : d.fenced.parseSource broken = .error ⟨2, .unclosedBlock⟩ := by
      dsimp only [d, broken]
      cbv
    intro e he hlost
    rw [herror] at he
    cases he
    cases hlost
  have hparse : d.parseSource source = .ok n := by
    dsimp only [d, source, n]
    cbv
  have hbroken : d.parseSource broken = .error ⟨2, .unclosedBlock⟩ := by
    dsimp only [d, broken]
    cbv
  have hd : d.grammar = .standard := rfl
  have hsame := (parseSource_insertLine hd hroom hline hquotes hfenced 2).1 n hparse
  have hsame' := (parseSource_insertLine hd hroom' hline hquotes hfenced' 2).2 _ hbroken
  exact ⟨hd, hline, hroom, hroom', hquotes, hfenced, hfenced', by decide +kernel, hparse, hsame,
    hbroken, hsame'⟩

/-- An apostrophe in a comment opens a string. A comment behind the first line of a list stands
inside it, if an `else` has cut off the element before. -/
theorem parseSource_comment_refused :
    let d : Dialect := ⟨.standard, fun _ => none, 64⟩
    let source := "@if a: @[elem p: @else: @end, elem q:\n@y ]"
    insertLine 0 "@# it's a note" "text" = "@# it's a note\ntext" ∧
      d.parseSource "text" = .ok (.block [.output .content [.text "text"]]) ∧
      d.parseSource (insertLine 0 "@# it's a note" "text") = .error ⟨1, .unclosedString '\''⟩ ∧
      insertLine 1 "@# c" source = "@if a: @[elem p: @else: @end, elem q:\n@# c\n@y ]" ∧
      (∃ n, d.parseSource source = .ok n) ∧
      d.parseSource (insertLine 1 "@# c" source) =
        .error ⟨2, .expected "']'" (some (.newline, "\n"))⟩ := by
  intro d source
  have happly : insertLine 0 "@# it's a note" "text" = "@# it's a note\ntext" := by decide +kernel
  have hbetween : insertLine 1 "@# c" source =
      "@if a: @[elem p: @else: @end, elem q:\n@# c\n@y ]" := by decide +kernel
  rw [happly, hbetween]
  dsimp only [d, source]
  refine ⟨rfl, by cbv, by cbv, rfl, ⟨.block [.choice
    [.mk (some (.leaf (.name "a"))) (.block [.output .content [.expr (.array
      [.element "p" [] (.block (.block [])),
        .element "q" [] (.block (.block [.output .content [.expr (.leaf (.name "y"))]]))])]]),
      .mk none (.block [])]], ?_⟩, ?_⟩
  · cbv
  · cbv

end Dialect

end Stencil
