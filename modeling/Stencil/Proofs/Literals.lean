import Stencil.Proofs.Nesting
import Stencil.Proofs.Paths
/-!
# Integers in templates

What digits behind a mark come to, from the source to the HTML. If they are an integer of 64 bits,
its decimal digits are shown, and of the digits in the source nothing is lost but zeros in front.
If they are not, the division into tokens takes them for no number, and so they are a name: what is
shown is the variable of that name, or nothing.
-/

namespace Stencil

variable {s : String} {cs : List Char}

/-! ## The value of digits -/

namespace Decimal

open Number

/-- A digit is the sign of its own value. -/
theorem digitChar_of_isDigit {c : Char} (h : c.isDigit = true) :
    c.toNat - '0'.toNat < 10 ∧ (c.toNat - '0'.toNat).digitChar = c := by
  rw [Char.isDigit, Bool.and_eq_true, decide_eq_true_eq, decide_eq_true_eq] at h
  have hlow : '0'.toNat ≤ c.toNat := UInt32.le_iff_toNat_le.1 h.1
  have hhigh : c.toNat ≤ '0'.toNat + 9 := UInt32.le_iff_toNat_le.1 h.2
  have hzero : '0'.toNat = 48 := rfl
  refine ⟨by omega, Char.toNat_inj.1 ?_⟩
  rw [Nat.toNat_digitChar_of_lt_ten (by omega)]
  omega

/-- Digits are the digits of their value behind some zeros. -/
theorem exists_replicate_digitsOf (hne : cs ≠ []) (h : ∀ c ∈ cs, c.isDigit = true) :
    ∃ z, cs = List.replicate z '0' ++ digitsOf (digitsValue cs) := by
  induction cs using List.reverseRecOn with
  | nil => contradiction
  | append_singleton cs c ih =>
    obtain ⟨hlt, hchar⟩ := digitChar_of_isDigit (h c (by simp))
    have hvalue : digitsValue (cs ++ [c]) = 10 * digitsValue cs + (c.toNat - '0'.toNat) := by
      rw [digitsValue, List.foldl_append]
      rfl
    have hlast : digitsOf (c.toNat - '0'.toNat) = [c] := by
      rw [digitsOf, Nat.toDigits_of_lt_base hlt, hchar]
    rw [hvalue]
    by_cases hnil : cs = []
    · have hvalue : digitsValue [] = 0 := rfl
      rw [hnil, hvalue, Nat.mul_zero, Nat.zero_add, hlast]
      exact ⟨0, rfl⟩
    obtain ⟨z, hz⟩ := ih hnil fun d hd => h d (List.mem_append_left _ hd)
    rcases Nat.eq_zero_or_pos (digitsValue cs) with hzero | hpos
    -- nothing but zeros so far
    · have hdigit : digitsOf 0 = ['0'] := rfl
      rw [hzero, hdigit] at hz
      refine ⟨z + 1, ?_⟩
      rw [hzero, Nat.mul_zero, Nat.zero_add, hlast, List.replicate_succ', ← hz]
    · refine ⟨z, ?_⟩
      rw [digitsOf, ← Nat.toDigits_append_toDigits (by decide) hpos hlt, ← List.append_assoc]
      exact congrArg₂ _ hz hlast.symm

end Decimal

namespace Number

theorem signed_of_isDigit (h : ∀ c ∈ cs, c.isDigit = true) : signed cs = (false, cs) := by
  unfold signed
  split
  · next heq => simp at h
  · next heq => simp at h
  · rfl

theorem leadingDigits_of_isDigit (h : ∀ c ∈ cs, c.isDigit = true) : leadingDigits cs = cs :=
  List.takeWhile_eq_self_iff.2 h

/-- Digits are read as their value, if it fits. -/
theorem ofText?_of_isDigit (hne : cs ≠ []) (h : ∀ c ∈ cs, c.isDigit = true) :
    ofText? cs = (fit? (digitsValue cs)).map int := by
  have htrim : Text.trim cs = cs :=
    Text.trim_of_forall fun c hc => Text.isBlank_of_isDigit (h c hc)
  have hpoint : '.' ∉ cs := fun hmem => absurd (h '.' hmem) (by decide)
  rw [ofText?, htrim, signed_of_isDigit h]
  simp only [hpoint, if_false, leadingDigits_of_isDigit h]
  rw [intOfDigits?, if_neg (by simpa using hne)]
  rfl

/-- A natural number fits into 64 bits with a sign up to the greatest positive one. -/
theorem fit?_natCast (n : Nat) :
    fit? n = if n < 2 ^ 63 then some (Int64.ofNat n) else none := by
  have hmin : Int64.minValue.toInt = -2 ^ 63 := rfl
  have hmax : Int64.maxValue.toInt = 2 ^ 63 - 1 := rfl
  rw [fit?, hmin, hmax, Int64.ofInt_eq_ofNat]
  split <;> split <;> first | rfl | omega

/-- A natural number below `2 ^ 63` is shown by its decimal digits. -/
theorem display_ofNat {n : Nat} (h : n < 2 ^ 63) :
    (int (Int64.ofNat n)).display = String.ofList (Decimal.digitsOf n) := by
  rw [display, Int64.toInt_ofNat_of_lt h, Decimal.ofInt, if_neg (by omega)]
  rfl

end Number

/-! ## The tokens -/

open Number

/-- A page with one leaf in it. -/
def leafPage (lf : Leaf) : Node :=
  .block [.output .content [.expr (.leaf lf)]]

/-- What digits stand for: an integer if it fits, or else a name. -/
def digitsLeaf (s : String) : Leaf :=
  if digitsValue s.toList < 2 ^ 63 then
    .number (.ofNat (digitsValue s.toList))
  else .name s

namespace Lexer

/-- The token of a word of digits. -/
def digitsToken (number : Nat) (s : String) : Token :=
  ⟨if isNumeral s.toList then .number else .literal, s, number⟩

/-- A word of digits is a numeral if its value fits. -/
theorem isNumeral_iff (h : isPosition s = true) :
    isNumeral s.toList = true ↔ digitsValue s.toList < 2 ^ 63 := by
  obtain ⟨hne, hdigits⟩ := isPosition_iff.1 h
  have hall : s.toList.all (fun c => c.isDigit || c == '.') = true :=
    List.all_eq_true.2 fun c hc => by rw [hdigits c hc, Bool.true_or]
  rw [isNumeral, hall, List.isEmpty_eq_false_iff.2 hne, ofText?_of_isDigit hne hdigits,
    fit?_natCast]
  split
  · next hlt => exact iff_of_true rfl hlt
  · next hge => exact iff_of_false Bool.false_ne_true hge

/-- Whether digits are a number is decided by their value alone. -/
theorem leaf?_digitsToken (h : isPosition s = true) (number : Nat) :
    (digitsToken number s).leaf? = some (digitsLeaf s) := by
  obtain ⟨hne, hdigits⟩ := isPosition_iff.1 h
  rw [digitsToken, digitsLeaf]
  by_cases hlt : digitsValue s.toList < 2 ^ 63
  · rw [(isNumeral_iff h).2 hlt, if_pos hlt, if_pos rfl]
    simp only [Token.leaf?, ofText?_of_isDigit hne hdigits, fit?_natCast, if_pos hlt]
    rfl
  · rw [if_neg hlt, if_neg (fun hnumeral => hlt ((isNumeral_iff h).1 hnumeral))]
    rfl

/-- Digits are a number or a name, and never a word of the language. -/
theorem digitsToken_kind (number : Nat) (s : String) :
    (digitsToken number s).kind = .number ∨ (digitsToken number s).kind = .literal := by
  rw [digitsToken]
  cases isNumeral s.toList with
  | true => exact .inl rfl
  | false => exact .inr rfl

/-- The tokens of digits behind a mark. -/
def digitsTokens (number : Nat) (s : String) : List Token :=
  [⟨.mark, "@", number⟩, digitsToken number s, ⟨.newline, "\n", number⟩]

/-- Digits behind a mark are one token of the line. -/
theorem tokenizeFrom_digits (h : isPosition s = true) (number : Nat) :
    tokenizeFrom .standard ("@" ++ s) number = .ok (close number (digitsTokens number s)) := by
  have hsegment : IsSegment s := .inr h
  have htext : ("@" ++ s).toList = '@' :: s.toList := by
    rw [String.toList_append]
    rfl
  have hchars : ∀ c ∈ '@' :: s.toList, IsSolid c := by
    intro c hc
    rcases List.mem_cons.1 hc with rfl | hc
    · decide
    · exact (hsegment.isNameChar c hc).2
  have hnewline : '\n' ∉ '@' :: s.toList := fun hc => (hchars _ hc).ne.2 rfl
  obtain ⟨cs, c, hlast, hc⟩ := exists_last (List.cons_ne_nil s []) (by simpa using hsegment)
  rw [String.intercalate_singleton] at hlast
  rw [tokenizeFrom, htext, List.splitOn_eq_singleton hnewline, lines,
    line_of_forall (List.cons_ne_nil _ _) hchars, word_mark ⟨cs, c, hlast, hc⟩,
    word_segment hsegment]
  simp only [lines, Except.map, List.append_nil, List.map_cons, List.map_nil, tokenAt,
    String.ofList_toList, List.cons_append, List.nil_append, digitsTokens, digitsToken]

end Lexer

/-! ## Reading -/

namespace Dialect

open Reading Grammar

variable {d : Dialect}

/-- Digits are an expression by themselves. -/
theorem expression_digits {A : String → Nat → Except SyntaxError Node} {c : Cursor} {k number : Nat}
    (h : isPosition s = true)
    (hc : c.tokens = [Lexer.digitsToken number s, ⟨.newline, "\n", number⟩]) :
    (d.levels A (k + 1)).expression 0 c =
      .ok (some (.leaf (digitsLeaf s)), c.moveTo [⟨.newline, "\n", number⟩]) := by
  have hword : (Lexer.digitsToken number s).kind.isWord = false := by
    rcases Lexer.digitsToken_kind number s with h | h <;> rw [h] <;> rfl
  rw [expression_levels_succ, expressionOf_of_start hc
    (start_leaf (symbol?_of_not_isWord hword) (Lexer.leaf?_digitsToken h number))]
  exact extend_stop (stops_cons.2 (.inl rfl))

/-- The page has one line with one leaf in it. -/
theorem parse_digitsTokens (hdepth : 2 ≤ d.maxDepth) (h : isPosition s = true) :
    d.parse (Lexer.close 1 (Lexer.digitsTokens 1 s)) = .ok (leafPage (digitsLeaf s)) := by
  obtain ⟨k, hk⟩ : ∃ k, d.maxDepth = k + 1 + 1 := ⟨d.maxDepth - 2, by omega⟩
  have hne : ∀ kind, kind ≠ .number → kind ≠ .literal → (Lexer.digitsToken 1 s).kind ≠ kind := by
    rintro kind hnumber hliteral rfl
    exact (Lexer.digitsToken_kind 1 s).elim hnumber hliteral
  have htokens : (Cursor.ofTokens (Lexer.close 1 (Lexer.digitsTokens 1 s))).tokens =
      Lexer.digitsTokens 1 s := by
    rw [Cursor.ofTokens, Lexer.close, List.takeWhile_append_of_pos fun t ht => ?_]
    · exact List.append_nil _
    · simp only [Lexer.digitsTokens, List.mem_cons, List.not_mem_nil, or_false] at ht
      rcases ht with rfl | rfl | rfl
      · rfl
      · exact bne_iff_ne.2 (hne .stop TokenKind.noConfusion TokenKind.noConfusion)
      · rfl
  refine parse_marked_line htokens rfl hk
    (hne .keyword TokenKind.noConfusion TokenKind.noConfusion)
    (hne .comment TokenKind.noConfusion TokenKind.noConfusion) ?_ ?_ (expression_digits h rfl)
  · exact fun t ht => by rw [List.mem_singleton.1 ht]
  · exact le_rfl

/-- Compiling succeeds with what parsing gives; only errors are dressed up. -/
theorem compile_eq_ok_iff {name source : String} {root : Node} :
    d.compile name source = .ok root ↔ d.parseSource source = .ok root := by
  rw [compile]
  cases d.parseSource source <;> simp [Except.mapError]

/-- Reading the source is reading these tokens. -/
theorem parseSource_digits_eq_parse (hd : d.grammar = .standard) (h : isPosition s = true) :
    d.parseSource ("@" ++ s) = d.parse (Lexer.close 1 (Lexer.digitsTokens 1 s)) := by
  refine parseSource_of_tokenize ?_
  rw [hd, vocabulary_standard]
  exact Lexer.tokenizeFrom_digits h 1

/-- A source of digits is a page of one leaf, whatever its value is. -/
theorem parseSource_digits (hd : d.grammar = .standard) (hdepth : 2 ≤ d.maxDepth)
    (h : isPosition s = true) : d.parseSource ("@" ++ s) = .ok (leafPage (digitsLeaf s)) := by
  rw [parseSource_digits_eq_parse hd h, parse_digitsTokens hdepth h]

/-- With whatever limit of nesting digits behind a mark are read, they are one template. -/
theorem eq_digitsPage (hd : d.grammar = .standard) (h : isPosition s = true) {root : Node}
    (hroot : d.parseSource ("@" ++ s) = .ok root) : root = leafPage (digitsLeaf s) := by
  rcases Nat.lt_or_ge d.maxDepth 2 with hlt | hge
  -- below two levels reading is refused, or comes to what it comes to with two
  · have hv : d.grammar.vocabulary = (d.withDepth 2).grammar.vocabulary := rfl
    have hup : d.parse (Lexer.close 1 (Lexer.digitsTokens 1 s)) =
        (d.withDepth 2).parse (Lexer.close 1 (Lexer.digitsTokens 1 s)) ∨
          ∃ e, d.LimitReached e ∧ d.parse (Lexer.close 1 (Lexer.digitsTokens 1 s)) = .error e :=
      parse_upTo hv (fun _ _ hA => levels_upTo_withDepth hd hlt.le hA) _
    rw [parseSource_digits_eq_parse hd h] at hroot
    rw [hroot, parse_digitsTokens (d := d.withDepth 2) le_rfl h] at hup
    rcases hup with hsame | ⟨e, -, herror⟩
    · exact Except.ok.inj hsame
    · cases herror
  · rw [parseSource_digits hd hge h] at hroot
    exact (Except.ok.inj hroot).symm

end Dialect

/-! ## Rendering -/

namespace Tree

theorem escaped_of_isDigit (h : ∀ c ∈ s.toList, c.isDigit = true) : escaped s = s := by
  have hplain : ∀ c ∈ s.toList, escapedChar c = [c] := by
    intro c hc
    unfold escapedChar
    split
    · exact absurd (h _ hc) (by decide)
    · exact absurd (h _ hc) (by decide)
    · exact absurd (h _ hc) (by decide)
    · rfl
  rw [escaped, List.flatMap_congr hplain, List.flatMap_singleton', String.ofList_toList]

end Tree

namespace Engine

open Rendering

variable {e : Engine} {lf : Leaf} {v : Value} {name : String} {frame : Frame}

/-- The value of a name at the beginning of a rendering: its variable, or the global one, or
`null`. -/
def valueOf (e : Engine) (frame : Frame) (name : String) : Value :=
  ((Table.get? frame name).or (e.global? name)).getD .null

/-- Looking up a name in a new container gives its value and changes at most the scope. -/
theorem evalName_contained (e : Engine) (frame : Frame) (name : String) :
    ∃ scope, e.evalName name (e.contained frame) =
      .ok (e.valueOf frame name) { e.contained frame with scope } := by
  have hscope : (e.contained frame).scope.get? name = Table.get? frame name := rfl
  rw [valueOf]
  cases hvar : Table.get? frame name with
  | some v => exact ⟨_, evalName_of_variable (hscope.trans hvar)⟩
  | none =>
    cases hglobal : e.global? name with
    | some v => exact ⟨_, evalName_of_global (hscope.trans hvar) hglobal⟩
    | none => exact ⟨_, evalName_of_none (hscope.trans hvar) hglobal⟩

/-- A line with one leaf in it has the text of this leaf as its value. -/
theorem eval_leafLine (levels : Nat) {c : NodeId} {r r' : Run} (hv : e.evalLeaf lf r = .ok v r') :
    e.eval (levels + 2) (.output .content [.expr (.leaf lf)]) c r =
      .ok (.string v.display) r' := by
  have hleaf : e.eval (levels + 1) (.leaf lf) c r = .ok v r' := hv
  have hparts : evalParts (e.eval (levels + 1)) c [.expr (.leaf lf)] r = .ok [v.display] r' := by
    rw [evalParts, bind_of_ok hleaf]
    rfl
  have hjoin : OutputMode.content.join ([v.display].filter fun p => !p.isEmpty) = v.display := by
    by_cases hempty : v.display = "" <;> simp [hempty, OutputMode.join]
  rw [eval, evalNode, bind_of_ok hparts, hjoin]
  rfl

/-- A page needs three levels: its block, its line and its leaf. -/
theorem eval_leafPage_shallow {k : Nat} (hk : k < 3) (c : NodeId) (r : Run) :
    ∃ s, e.eval k (leafPage lf) c r = .error (.depthExceeded e.settings.maxDepth) s := by
  obtain rfl | rfl | rfl : k = 0 ∨ k = 1 ∨ k = 2 := by omega
  · exact ⟨_, rfl⟩
  · exact ⟨_, rfl⟩
  · exact ⟨_, rfl⟩

/-- A page with one leaf in it shows the value of the leaf. That takes three levels of nesting: for
the page, the line and the leaf. -/
theorem renderHtml_leafPage (htemplate : e.template? name = some (leafPage lf))
    (hv : ∃ scope, e.evalLeaf lf (e.contained frame) = .ok v { e.contained frame with scope }) :
    e.renderHtml name frame =
      if 3 ≤ e.settings.maxDepth then .ok (Tree.escaped v.display)
      else .error (.depthExceeded e.settings.maxDepth) := by
  rw [renderHtml_eq htemplate, evaluate]
  by_cases hdepth : 3 ≤ e.settings.maxDepth
  · obtain ⟨k, hk⟩ := Nat.exists_eq_add_of_le' hdepth
    obtain ⟨scope, hleaf⟩ := hv
    have hfits := e.fits_contained frame
    have hinside : Run.Inside .empty 0 { e.contained frame with scope } :=
      ⟨⟨hfits.next, hfits.wellFormed⟩, rfl⟩
    obtain ⟨s, hs, -, hhtml⟩ := addText_htmlIn hinside v.display
    have hroot : e.eval (k + 3) (leafPage lf) 0 (e.contained frame) = .ok .null s := by
      rw [eval, leafPage, evalNode, bind_of_ok (evalBlock_line (eval_leafLine k hleaf) hs)]
      rfl
    rw [if_pos hdepth, hk, hroot]
    change Except.ok (s.htmlIn .empty 0) = _
    rw [hhtml]
    rfl
  · obtain ⟨s, hs⟩ := eval_leafPage_shallow (e := e) (Nat.lt_of_not_le hdepth) 0
      (e.contained frame)
    rw [if_neg hdepth, hs]

/-- What digits behind a mark show: their value if it is an integer of 64 bits, or else the variable
of that name. -/
def digitsShown (e : Engine) (frame : Frame) (s : String) : String :=
  if Number.digitsValue s.toList < 2 ^ 63 then
    String.ofList (Decimal.digitsOf (Number.digitsValue s.toList))
  else Tree.escaped (e.valueOf frame s).display

/-- With three levels allowed, the page shows its leaf; with fewer ones it fails. -/
theorem renderHtml_digitsPage (htemplate : e.template? name = some (leafPage (digitsLeaf s))) :
    e.renderHtml name frame =
      if 3 ≤ e.settings.maxDepth then .ok (e.digitsShown frame s)
      else .error (.depthExceeded e.settings.maxDepth) := by
  rw [digitsLeaf] at htemplate
  rw [digitsShown]
  split at htemplate
  · next hlt =>
    have hshown : Tree.escaped (Value.ofNat (Number.digitsValue s.toList)).display =
        String.ofList (Decimal.digitsOf (Number.digitsValue s.toList)) := by
      rw [Value.ofNat, Value.display, Number.display_ofNat hlt]
      refine Tree.escaped_of_isDigit fun c hc => ?_
      rw [String.toList_ofList] at hc
      exact Number.isDigit_of_mem_digitsOf hc
    have hvalue : ∃ scope, e.evalLeaf (.number (.ofNat (Number.digitsValue s.toList)))
        (e.contained frame) = .ok (Value.ofNat (Number.digitsValue s.toList))
          { e.contained frame with scope } := ⟨_, rfl⟩
    rw [if_pos hlt, renderHtml_leafPage htemplate hvalue, hshown]
  · next hge =>
    rw [if_neg hge, renderHtml_leafPage htemplate (e.evalName_contained frame s)]

end Engine

namespace Blueprint

open Engine

/-- **Digits behind a mark show an integer, or a variable.** A page of digits behind a mark cannot
be compiled, for want of two levels of nesting, or it is rendered, for which there must be three.
If the digits are an integer of 64 bits, they are shown without zeros in front. If they are not,
the page shows the variable of that name, the global one, or nothing. -/
theorem renderHtml_digits {b : Blueprint} (hgrammar : b.grammar = .standard) {name s : String}
    (hsource : Table.get? b.sources name = some ("@" ++ s)) (hs : isPosition s = true)
    (frame : Frame) :
    ((∃ err, b.dialect.compile name ("@" ++ s) = .error err) ∨
      b.build.renderHtml name frame =
        if 3 ≤ b.settings.maxDepth then .ok (b.build.digitsShown frame s)
        else .error (.depthExceeded b.settings.maxDepth)) ∧
    (2 ≤ b.settings.maxDepth →
      b.dialect.compile name ("@" ++ s) = .ok (leafPage (digitsLeaf s))) ∧
    (Number.digitsValue s.toList < 2 ^ 63 →
      ∃ z, s.toList = List.replicate z '0' ++ (b.build.digitsShown frame s).toList ∧
        (b.build.digitsShown frame s).toList =
          Decimal.digitsOf (Number.digitsValue s.toList)) ∧
    (2 ^ 63 ≤ Number.digitsValue s.toList →
      b.build.digitsShown frame s = Tree.escaped (b.build.valueOf frame s).display) := by
  have hd : b.dialect.grammar = .standard := hgrammar
  refine ⟨?_, fun hdepth => ?_, fun hlt => ?_, fun hge => ?_⟩
  · cases hcompile : b.dialect.compile name ("@" ++ s) with
    | error err => exact .inl ⟨err, rfl⟩
    | ok root =>
      have hroot := Dialect.eq_digitsPage hd hs (Dialect.compile_eq_ok_iff.1 hcompile)
      rw [hroot] at hcompile
      exact .inr (renderHtml_digitsPage (template?_build hsource hcompile))
  · exact Dialect.compile_eq_ok_iff.2 (Dialect.parseSource_digits hd hdepth hs)
  · obtain ⟨hne, hdigits⟩ := isPosition_iff.1 hs
    rw [digitsShown, if_pos hlt, String.toList_ofList]
    obtain ⟨z, hz⟩ := Decimal.exists_replicate_digitsOf hne hdigits
    exact ⟨z, hz, rfl⟩
  · rw [digitsShown, if_neg (Nat.not_lt.2 hge)]

/-- Zeros in front are not shown. -/
theorem renderHtml_digits_zeros :
    let b : Blueprint :=
      { Blueprint.empty with sources := [("page", "@007")], settings := ⟨"div", "page", 3⟩ }
    b.grammar = .standard ∧ Table.get? b.sources "page" = some ("@" ++ "007") ∧
      isPosition "007" = true ∧ b.build.renderHtml "page" [] = .ok "7" := by
  intro b
  have hs : isPosition "007" = true := by decide
  have hsource : Table.get? b.sources "page" = some ("@" ++ "007") := by decide
  have hshown : b.build.digitsShown [] "007" = "7" := by decide +kernel
  obtain ⟨hrender, hcompile, -⟩ := renderHtml_digits (b := b) rfl hsource hs []
  have hcompiled := hcompile (by decide)
  rcases hrender with ⟨err, herror⟩ | hrender
  · rw [hcompiled] at herror
    cases herror
  · rw [hrender, hshown]
    exact ⟨rfl, hsource, hs, rfl⟩

/-- The first integer that does not fit into 64 bits: the page is compiled, and shows nothing. -/
theorem renderHtml_digits_lost :
    let s := "9223372036854775808"
    let b : Blueprint := { Blueprint.empty with sources := [("page", "@" ++ s)] }
    isPosition s = true ∧ b.dialect.compile "page" ("@" ++ s) = .ok (leafPage (.name s)) ∧
      b.build.renderHtml "page" [] = .ok "" ∧
      String.ofList (Decimal.digitsOf (Number.digitsValue s.toList)) ≠ "" := by
  intro s b
  have hs : isPosition s = true := by decide
  have hleaf : digitsLeaf s = .name s := if_neg (by decide +kernel)
  have hdepth : b.build.settings.maxDepth = 256 := rfl
  have hcompile : b.dialect.compile "page" ("@" ++ s) = .ok (leafPage (digitsLeaf s)) :=
    Dialect.compile_eq_ok_iff.2 (Dialect.parseSource_digits rfl (by decide) hs)
  have hshown : b.build.digitsShown [] s = "" := by decide +kernel
  refine ⟨hs, hleaf ▸ hcompile, ?_, Decimal.ofList_digitsOf_ne_empty⟩
  rw [renderHtml_digitsPage (template?_build rfl hcompile), hdepth, hshown]
  rfl

end Blueprint

end Stencil
