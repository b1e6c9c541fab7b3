import Mathlib
import Stencil.Proofs.Canonical
import Stencil.Proofs.Paths
/-!
# Texts put together

How the tokens of a text come from those of its parts. Two texts with a newline between them are
divided one after the other, each with the numbers of its own lines; only the stop has to be moved,
since it stands in the last line that is not blank. In a line, names and signs need no blanks
between them: the division of words cuts off signs at the end, at the front and inside, and what is
left is always a run of the same names and signs.
-/

namespace Stencil

namespace Lexer

variable {v : Vocabulary}

/-! ## Texts below each other -/

/-- The number of the last line that is not blank, or of the first line if all are blank. -/
def lastFull (source : String) (first : Nat) : Nat :=
  (((cleanLines source first).filter fun p => !p.1.isEmpty).getLast?.map Prod.snd).getD first

theorem splitOn_append_cons (c : Char) (cs ds : List Char) :
    (cs ++ c :: ds).splitOn c = cs.splitOn c ++ ds.splitOn c :=
  List.splitOnP_append_cons cs ds (by simp)

theorem length_splitOn (c : Char) (cs : List Char) :
    (cs.splitOn c).length = cs.count c + 1 := by
  induction cs with
  | nil => rfl
  | cons a cs ih =>
    rw [List.splitOn_cons_eq_if_modifyHead, List.count_cons]
    split
    · rw [List.length_cons, ih]
    · rw [List.length_modifyHead, ih, Nat.add_zero]

/-- The tokens of a source are those of its lines, and a stop in the last line that is not blank. -/
theorem tokenizeFrom_eq_map (v : Vocabulary) (source : String) (first : Nat) :
    tokenizeFrom v source first = (lines v first (source.toList.splitOn '\n')).map fun ts =>
      ts ++ [⟨.stop, "(end)", lastFull source first⟩] := by
  rw [tokenizeFrom]
  rcases lines_spec v first (source.toList.splitOn '\n') with ⟨p, quote, -, -, herror⟩ | ⟨-, hok⟩
  · rw [herror]
    rfl
  · rw [hok]
    exact congrArg Except.ok (close_fullTokens v first (cleanLines source first))

/-- **The division into tokens goes line by line.** Of two texts with a newline between them, the
upper one is divided first, and an error in it is the error of the whole. Otherwise the tokens of
both follow each other, the lower ones counted from the line behind the upper text, or an error of
the lower text is the error. Each token list ends in a stop, and that of the whole stands in its
last line that is not blank. -/
theorem tokenizeFrom_append (v : Vocabulary) (a b : String) (first : Nat) :
    (tokenizeFrom v (a ++ "\n" ++ b) first = do
      let above ← tokenizeFrom v a first
      let below ← tokenizeFrom v b (first + 1 + a.toList.count '\n')
      return above.dropLast ++ below.dropLast ++
        [⟨.stop, "(end)", lastFull (a ++ "\n" ++ b) first⟩]) ∧
    ∀ source number ts, tokenizeFrom v source number = .ok ts →
      ts = ts.dropLast ++ [⟨.stop, "(end)", lastFull source number⟩] := by
  constructor
  · have htext : (a ++ "\n" ++ b).toList = a.toList ++ '\n' :: b.toList := by
      simp
    have hbelow : first + (a.toList.splitOn '\n').length = first + 1 + a.toList.count '\n' := by
      rw [length_splitOn]
      omega
    rw [tokenizeFrom_eq_map, tokenizeFrom_eq_map v a, tokenizeFrom_eq_map v b, htext,
      splitOn_append_cons, lines_append, hbelow]
    cases lines v first (a.toList.splitOn '\n') with
    | error e => rfl
    | ok above =>
      cases lines v (first + 1 + a.toList.count '\n') (b.toList.splitOn '\n') with
      | error e => rfl
      | ok below => simp [bind, Except.bind, Except.map, pure, Except.pure]
  · intro source number ts h
    rw [tokenizeFrom_eq_map] at h
    cases hlines : lines v number (source.toList.splitOn '\n') with
    | error e =>
      rw [hlines] at h
      cases h
    | ok init =>
      rw [hlines] at h
      cases h
      simp

/-- A blank line in the middle is counted, and one at the end does not hold the stop. -/
theorem tokenizeFrom_append_blank :
    let above : List Token := [⟨.literal, "x", 3⟩, ⟨.newline, "\n", 3⟩, ⟨.literal, "y", 5⟩,
      ⟨.newline, "\n", 5⟩]
    let below : List Token := [⟨.literal, "z", 6⟩, ⟨.newline, "\n", 6⟩]
    let stop : Nat → Token := fun number => ⟨.stop, "(end)", number⟩
    tokenizeFrom .standard "x\n\n y" 3 = .ok (above ++ [stop 5]) ∧
      above ++ [stop 5] = (above ++ [stop 5]).dropLast ++ [stop (lastFull "x\n\n y" 3)] ∧
      tokenizeFrom .standard "z\n " 6 = .ok (below ++ [stop 6]) ∧
      tokenizeFrom .standard ("x\n\n y" ++ "\n" ++ "z\n ") 3 =
        .ok (above ++ below ++ [stop 6]) := by
  intro above below stop
  have habove : tokenizeFrom .standard "x\n\n y" 3 = .ok (above ++ [stop 5]) := by
    dsimp only [above, stop]
    cbv
  have hbelow : tokenizeFrom .standard "z\n " 6 = .ok (below ++ [stop 6]) := by
    dsimp only [below, stop]
    cbv
  obtain ⟨hjoin, hstop⟩ := tokenizeFrom_append .standard "x\n\n y" "z\n " 3
  have hnumber : 3 + 1 + "x\n\n y".toList.count '\n' = 6 := rfl
  have hlast : lastFull ("x\n\n y" ++ "\n" ++ "z\n ") 3 = 6 := by cbv
  refine ⟨habove, hstop _ _ _ habove, hbelow, ?_⟩
  rw [hjoin, habove, hnumber, hbelow, hlast]
  rfl

/-! ## Names and signs beside each other -/

/-- A name in a vocabulary: it is no word, none of its characters is one, and they are not all
digits and points. -/
structure IsIdentifier (v : Vocabulary) (s : String) : Prop where
  inner : ∀ c ∈ s.toList, v.charKind? c = none
  solid : ∀ c ∈ s.toList, IsSolid c
  notWord : v.kind? s = none
  notNumeric : ∃ c ∈ s.toList, c.isDigit = false ∧ c ≠ '.'

/-- A sign of a vocabulary: a word of one character that is no digit. -/
inductive IsSign (v : Vocabulary) : String → Prop
  | char {c : Char} {kind : TokenKind} :
    v.charKind? c = some kind → c.isDigit = false → IsSolid c → IsSign v (String.ofList [c])

/-- Names and signs that can stand beside each other without blanks: two names never do, and no two
or more pieces beside each other make a word. -/
structure Adjoins (v : Vocabulary) (ps : List String) : Prop where
  pieces : ∀ p ∈ ps, IsIdentifier v p ∨ IsSign v p
  apart : ps.IsChain fun p q => ¬(IsIdentifier v p ∧ IsIdentifier v q)
  notWord : ∀ run, run <:+: ps → 2 ≤ run.length → v.kind? (String.join run) = none

/-- The lexeme that a piece stands for: a sign has its own kind, and a name is a literal. -/
def pieceLexeme (v : Vocabulary) (p : String) : Lexeme :=
  ((v.kind? p).getD .literal, p.toList)

theorem IsIdentifier.ne_nil {s : String} (h : IsIdentifier v s) : s.toList ≠ [] := by
  obtain ⟨c, hc, -⟩ := h.notNumeric
  exact List.ne_nil_of_mem hc

end Lexer

/-- A text without digits is no number. -/
theorem Number.ofText?_eq_none {text : List Char} (h : ∀ c ∈ text, c.isDigit = false) :
    ofText? text = none := by
  -- whatever part of the text is read, there are no digits in it
  have hdigits : ∀ cs : List Char, cs ⊆ text → leadingDigits cs = [] := by
    intro cs hsub
    cases cs with
    | nil => rfl
    | cons c cs =>
      rw [leadingDigits, List.takeWhile_cons_of_neg]
      simp [h c (hsub List.mem_cons_self)]
  have htrim : Text.trim text ⊆ text := by
    intro c hc
    rw [Text.trim, Text.trimEnd, List.mem_reverse] at hc
    have hfront := (List.dropWhile_suffix _).subset hc
    exact (List.dropWhile_suffix _).subset (List.mem_reverse.1 hfront)
  have hbody : (signed (Text.trim text)).2 ⊆ text := by
    unfold signed
    split
    · next heq => exact fun c hc => htrim (heq ▸ List.mem_cons_of_mem _ hc)
    · next heq => exact fun c hc => htrim (heq ▸ List.mem_cons_of_mem _ hc)
    · exact htrim
  have hfraction : fractionDigits (signed (Text.trim text)).2 = [] := by
    unfold fractionDigits
    split
    · next rest heq =>
      have hdrop : '.' :: rest <:+ (signed (Text.trim text)).2 := heq ▸ List.dropWhile_suffix _
      exact hdigits _ fun c hc => hbody (hdrop.subset (List.mem_cons_of_mem _ hc))
    · rfl
  simp [ofText?, hdigits _ hbody, hfraction, floatOfDigits?, intOfDigits?]

namespace Lexer

variable {p q : String} {ps qs : List String}

namespace Adjoins

theorem mono (h : Adjoins v ps) (hqs : qs <:+: ps) : Adjoins v qs where
  pieces p hp := h.pieces p (hqs.subset hp)
  apart := List.IsChain.infix h.apart hqs
  notWord r hr := h.notWord r (hr.trans hqs)

theorem kind?_join (h : Adjoins v ps) (hlen : 2 ≤ ps.length) :
    v.kind? (String.ofList (String.join ps).toList) = none := by
  rw [String.ofList_toList]
  exact h.notWord ps List.infix_rfl hlen

/-- The characters of signs are no digits, and names are not all digits and points. -/
theorem isNumeral_eq_false (h : Adjoins v ps) :
    isNumeral (String.join ps).toList = false := by
  by_cases hname : ∃ p ∈ ps, IsIdentifier v p
  · obtain ⟨p, hp, hname⟩ := hname
    obtain ⟨c, hc, hdigit, hpoint⟩ := hname.notNumeric
    refine not_isNumeral_of_mem ?_ hdigit hpoint
    rw [String.toList_join]
    exact List.mem_flatMap.2 ⟨p, hp, hc⟩
  · have hnone : Number.ofText? (String.join ps).toList = none := by
      refine Number.ofText?_eq_none fun c hc => ?_
      rw [String.toList_join] at hc
      obtain ⟨p, hp, hc⟩ := List.mem_flatMap.1 hc
      cases (h.pieces p hp).resolve_left fun hident => hname ⟨p, hp, hident⟩ with
      | char _ hdigit _ =>
        rw [String.toList_ofList, List.mem_singleton] at hc
        exact hc ▸ hdigit
    rw [isNumeral, hnone, Option.isSome_none, Bool.and_false]

theorem isSolid (h : Adjoins v ps) (hp : p ∈ ps) : ∀ c ∈ p.toList, IsSolid c := by
  rcases h.pieces p hp with hname | hsign
  · exact hname.solid
  · cases hsign with
    | char _ _ hsolid => simpa using hsolid

theorem ne_nil (h : Adjoins v ps) (hp : p ∈ ps) : p.toList ≠ [] := by
  rcases h.pieces p hp with hname | hsign
  · exact hname.ne_nil
  · cases hsign with
    | char => simp

end Adjoins

theorem pieceLexeme_char {c : Char} {kind : TokenKind} (h : v.charKind? c = some kind) :
    pieceLexeme v (String.ofList [c]) = (kind, [c]) := by
  rw [Vocabulary.charKind?] at h
  rw [pieceLexeme, h, String.toList_ofList, Option.getD_some]

theorem pieceLexeme_name (h : IsIdentifier v p) : pieceLexeme v p = (.literal, p.toList) := by
  rw [pieceLexeme, h.notWord, Option.getD_none]

/-- A piece by itself is one lexeme. -/
theorem word_piece (h : IsIdentifier v p ∨ IsSign v p) : word v p.toList = [pieceLexeme v p] := by
  rcases h with hname | hsign
  · have hnumeral : isNumeral p.toList = false := by
      obtain ⟨c, hc, hdigit, hpoint⟩ := hname.notNumeric
      exact not_isNumeral_of_mem hc hdigit hpoint
    have hword : v.kind? (String.ofList p.toList) = none := by
      rw [String.ofList_toList]
      exact hname.notWord
    rw [word_of_forall hname.ne_nil hname.inner hword hnumeral, pieceLexeme_name hname]
  · cases hsign with
    | @char c kind hkind =>
      rw [pieceLexeme_char hkind, String.toList_ofList, word]
      rw [Vocabulary.charKind?] at hkind
      simp only [hkind]

/-- Pieces that end in a name end in a character that is no word. -/
theorem charKind?_getLast (hname : IsIdentifier v q) :
    ∀ c ∈ (String.join (ps ++ [q])).toList.getLast?, v.charKind? c = none := by
  intro c hc
  obtain ⟨init, d, hq⟩ := (List.eq_nil_or_concat q.toList).resolve_left hname.ne_nil
  rw [List.concat_eq_append] at hq
  have hjoin : (String.join (ps ++ [q])).toList = (String.join ps).toList ++ init ++ [d] := by
    simp [hq]
  rw [hjoin, List.getLast?_concat, Option.mem_some_iff] at hc
  exact hname.inner c (by rw [hq, ← hc]; simp)

section

variable (h : Adjoins v ps)
variable (hlast : ∀ c ∈ (String.join ps).toList.getLast?, v.charKind? c = none)
include h

/-- A sign at the end is cut off. -/
theorem word_join_concat (hps : ps = qs ++ [q]) (hne : qs ≠ []) (hq : IsSign v q)
    (hleft : word v (String.join qs).toList = qs.map (pieceLexeme v)) :
    word v (String.join ps).toList = ps.map (pieceLexeme v) := by
  have hlen : 2 ≤ ps.length := by
    have hpos := List.length_pos_of_ne_nil hne
    rw [hps, List.length_append, List.length_singleton]
    omega
  have hword := h.kind?_join hlen
  have hnumeral := h.isNumeral_eq_false
  cases hq with
  | @char c kind hkind =>
    have hjoin : (String.join ps).toList = (String.join qs).toList ++ [c] := by simp [hps]
    rw [hjoin] at hword hnumeral ⊢
    rw [word_concat hword hnumeral hkind, hleft, hps, List.map_append, List.map_singleton,
      pieceLexeme_char hkind]

include hlast

/-- If the end is no sign, a sign at the front is cut off. -/
theorem word_join_cons (hps : ps = p :: qs) (hne : qs ≠ []) (hp : IsSign v p)
    (hleft : word v (String.join qs).toList = qs.map (pieceLexeme v)) :
    word v (String.join ps).toList = ps.map (pieceLexeme v) := by
  have hlen : 2 ≤ ps.length := by
    have hpos := List.length_pos_of_ne_nil hne
    rw [hps, List.length_cons]
    omega
  have hword := h.kind?_join hlen
  have hnumeral := h.isNumeral_eq_false
  cases hp with
  | @char c kind hkind =>
    have hjoin : (String.join ps).toList = c :: (String.join qs).toList := by simp [hps]
    rw [hjoin] at hword hnumeral hlast ⊢
    rw [word_cons hword hnumeral hlast hkind, hleft, hps, List.map_cons, pieceLexeme_char hkind]

/-- If neither end is a sign, the name at the front is cut off together with the sign behind it. -/
theorem word_join_cut (hps : ps = p :: q :: qs) (hp : IsIdentifier v p) (hq : IsSign v q)
    (hleft : word v (String.join qs).toList = qs.map (pieceLexeme v)) :
    word v (String.join ps).toList = ps.map (pieceLexeme v) := by
  have hword := h.kind?_join (by simp [hps])
  have hnumeral := h.isNumeral_eq_false
  cases hq with
  | @char c kind hkind =>
    have hjoin : (String.join ps).toList = p.toList ++ c :: (String.join qs).toList := by
      simp [hps]
    rw [hjoin] at hword hnumeral hlast ⊢
    rw [word_append_cons hp.ne_nil hp.inner hkind hword hnumeral hlast, hleft, hps, List.map_cons,
      List.map_cons, pieceLexeme_name hp, pieceLexeme_char hkind]

end

/-- **Names and signs beside each other are divided into themselves.** What is cut off is the last
piece if it is a sign, else the first one if it is, else a name and the sign behind it; and what is
left is a run of pieces again. -/
theorem word_join (h : Adjoins v ps) :
    word v (String.join ps).toList = ps.map (pieceLexeme v) := by
  induction hn : ps.length using Nat.strong_induction_on generalizing ps with
  | _ n ih =>
    have hleft : ∀ qs, qs <:+: ps → qs.length < n →
        word v (String.join qs).toList = qs.map (pieceLexeme v) :=
      fun qs hqs hlen => ih _ hlen (h.mono hqs) rfl
    rcases ps with _ | ⟨p, _ | ⟨r, rest⟩⟩
    · simp [word]
    · simpa using word_piece (h.pieces p List.mem_cons_self)
    · obtain ⟨init, q, heq⟩ := (List.eq_nil_or_concat (p :: r :: rest)).resolve_left
        (List.cons_ne_nil _ _)
      rw [List.concat_eq_append] at heq
      have hlen := congrArg List.length heq
      simp only [List.length_append, List.length_cons, List.length_nil] at hlen hn
      rcases h.pieces q (heq ▸ List.mem_concat_self) with hq | hq
      · have hlast : ∀ c ∈ (String.join (init ++ [q])).toList.getLast?, v.charKind? c = none :=
          charKind?_getLast hq
        rw [← heq] at hlast
        rcases h.pieces p List.mem_cons_self with hp | hp
        -- behind a name there is a sign
        · have hr : IsSign v r := (h.pieces r (by simp)).resolve_left fun hr =>
            (List.isChain_cons_cons.1 h.apart).1 ⟨hp, hr⟩
          exact word_join_cut h hlast rfl hp hr
            (hleft rest (List.suffix_append [p, r] rest).isInfix (by omega))
        · exact word_join_cons h hlast rfl (List.cons_ne_nil r rest) hp
            (hleft (r :: rest) (List.suffix_cons p _).isInfix (by rw [List.length_cons]; omega))
      · have hne : init ≠ [] := List.ne_nil_of_length_pos (by omega)
        exact word_join_concat h heq hne hq
          (hleft init (heq ▸ (List.prefix_append init [q]).isInfix) (by omega))

/-- Texts between blanks whose characters stand for themselves. -/
theorem tokenizeFrom_solid (parts : List (List Char)) (hne : parts ≠ [])
    (h : ∀ part ∈ parts, part ≠ [] ∧ ∀ c ∈ part, IsSolid c) (first : Nat) :
    tokenizeFrom v (String.ofList ([' '].intercalate parts)) first =
      .ok ((parts.flatMap (word v)).map (tokenAt first) ++
        [⟨.newline, "\n", first⟩, ⟨.stop, "(end)", first⟩]) := by
  have hsolid : ∀ c ∈ parts.flatten, IsSolid c := by
    intro c hc
    obtain ⟨part, hpart, hin⟩ := List.mem_flatten.1 hc
    exact (h part hpart).2 c hin
  exact tokenizeFrom_intercalate hne (fun part hpart => (h part hpart).1)
    (fun c hc => ⟨(hsolid c hc).ne.1, (hsolid c hc).ne.2, (hsolid c hc).1, (hsolid c hc).2.1⟩)
    (fun c hc => (hsolid c (List.mem_of_mem_head? hc)).2.2)
    (fun c hc => (hsolid c (List.mem_of_getLast? hc)).2.2) first

/-- What pieces leave in a line of their own: one token each, of its own kind if the piece is a
sign and a literal if it is a name, and the end of the line if there are any. -/
def pieceTokens (v : Vocabulary) (number : Nat) (ps : List String) : List Token :=
  ps.map (fun p => ⟨(v.kind? p).getD .literal, p, number⟩) ++
    if ps.isEmpty then [] else [⟨.newline, "\n", number⟩]

/-- **Signs need no blanks around them.** In every vocabulary, names and signs that are written
beside each other, without two names or a word of several pieces among them, are divided into one
token each, in their order, just as they are with blanks between them. -/
theorem tokenizeFrom_join (h : Adjoins v ps) (first : Nat) :
    tokenizeFrom v (String.join ps) first = .ok (close first (pieceTokens v first ps)) ∧
      tokenizeFrom v (" ".intercalate ps) first = .ok (close first (pieceTokens v first ps)) := by
  by_cases hne : ps = []
  · subst hne
    exact ⟨rfl, rfl⟩
  have htokens : close first (pieceTokens v first ps) =
      (ps.map (pieceLexeme v)).map (tokenAt first) ++
        [⟨.newline, "\n", first⟩, ⟨.stop, "(end)", first⟩] := by
    have htoken : tokenAt first ∘ pieceLexeme v =
        fun p => ⟨(v.kind? p).getD .literal, p, first⟩ := by
      funext p
      rw [Function.comp_apply, pieceLexeme, tokenAt, String.ofList_toList]
    simp [close, pieceTokens, hne, htoken]
  have hsolid : ∀ p ∈ ps, p.toList ≠ [] ∧ ∀ c ∈ p.toList, IsSolid c :=
    fun p hp => ⟨h.ne_nil hp, h.isSolid hp⟩
  rw [htokens]
  constructor
  -- beside each other the pieces are one word
  · have hwhole := tokenizeFrom_solid (v := v) [(String.join ps).toList]
      (List.cons_ne_nil _ _) (fun part hpart => ?_) first
    · rwa [List.intercalate_singleton, String.ofList_toList, List.flatMap_singleton,
        word_join h] at hwhole
    · rw [List.mem_singleton.1 hpart, String.toList_join]
      refine ⟨fun hnil => ?_, fun c hc => ?_⟩
      · obtain ⟨p, hp⟩ := List.exists_mem_of_ne_nil ps hne
        exact h.ne_nil hp (List.flatMap_eq_nil_iff.1 hnil p hp)
      · obtain ⟨p, hp, hc⟩ := List.mem_flatMap.1 hc
        exact h.isSolid hp c hc
  · have hparts := tokenizeFrom_solid (v := v) (ps.map String.toList) (by simpa using hne)
      (List.forall_mem_map.2 hsolid) first
    have hwords : (ps.map String.toList).flatMap (word v) = ps.map (pieceLexeme v) := by
      rw [List.flatMap_map, List.map_eq_flatMap]
      exact List.flatMap_congr fun p hp => word_piece (h.pieces p hp)
    rwa [← intercalate_eq_ofList, hwords] at hparts

/-- An operation between paths, with signs at both ends of it. -/
theorem tokenizeFrom_join_path :
    let ps := ["(", "a", ".", "b_1", "-", "é", ")"]
    let ts : List Token := [⟨.delimiter, "(", 2⟩, ⟨.literal, "a", 2⟩, ⟨.delimiter, ".", 2⟩,
      ⟨.literal, "b_1", 2⟩, ⟨.arithmetic, "-", 2⟩, ⟨.literal, "é", 2⟩, ⟨.delimiter, ")", 2⟩,
      ⟨.newline, "\n", 2⟩, ⟨.stop, "(end)", 2⟩]
    Adjoins .standard ps ∧
      tokenizeFrom .standard "(a.b_1-é)" 2 = .ok ts ∧
      tokenizeFrom .standard "( a . b_1 - é )" 2 = .ok ts := by
  intro ps ts
  have ha : IsIdentifier .standard "a" :=
    ⟨List.all_iff_forall_prop.1 rfl, List.all_iff_forall_prop.1 rfl, rfl, 'a', by simp⟩
  have hb : IsIdentifier .standard "b_1" :=
    ⟨List.all_iff_forall_prop.1 rfl, List.all_iff_forall_prop.1 rfl, rfl, 'b', by simp⟩
  have he : IsIdentifier .standard "é" :=
    ⟨List.all_iff_forall_prop.1 rfl, List.all_iff_forall_prop.1 rfl, rfl, 'é', by simp⟩
  have hopen : IsSign .standard "(" := @IsSign.char .standard '(' .delimiter rfl rfl (by decide)
  have hpoint : IsSign .standard "." := @IsSign.char .standard '.' .delimiter rfl rfl (by decide)
  have hminus : IsSign .standard "-" := @IsSign.char .standard '-' .arithmetic rfl rfl (by decide)
  have hclose : IsSign .standard ")" := @IsSign.char .standard ')' .delimiter rfl rfl (by decide)
  -- no two neighbours make a word of the language together
  have hword : ∀ run ∈ ps.sublists, run <:+: ps → 2 ≤ run.length →
      Vocabulary.standard.kind? (String.join run) = none := by
    decide +kernel
  have h : Adjoins .standard ps := by
    refine ⟨?_, ?_, fun run hrun => hword run (List.mem_sublists.2 hrun.sublist) hrun⟩
    · simp only [ps, List.forall_mem_cons]
      exact ⟨.inr hopen, .inl ha, .inr hpoint, .inl hb, .inr hminus, .inl he, .inr hclose, nofun⟩
    · have hnot : ∀ s, IsSign .standard s → ¬IsIdentifier .standard s := by
        intro s hs hname
        cases hs with
        | char hkind => cases hname.notWord.symm.trans hkind
      simp only [ps, List.isChain_cons_cons, List.isChain_singleton, and_true]
      exact ⟨fun hpq => hnot _ hopen hpq.1, fun hpq => hnot _ hpoint hpq.2,
        fun hpq => hnot _ hpoint hpq.1, fun hpq => hnot _ hminus hpq.2,
        fun hpq => hnot _ hminus hpq.1, fun hpq => hnot _ hclose hpq.2⟩
  exact ⟨h, tokenizeFrom_join h 2⟩

end Lexer

end Stencil
