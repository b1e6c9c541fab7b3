import Mathlib
import Stencil.Engine.Render
import Stencil.Proofs.Growth
import Stencil.Proofs.Derivation.Levels
/-!
# Lines

The order in which a line of output leaves texts behind. Its parts are evaluated one after the
other, and what a part adds to the container stands there before the line does; the words of the
line come last, all of them together. So a line keeps the order of its source only if no words
stand before a part that adds a text.
-/

namespace Stencil

/-- What a part of a line yields: the text that it adds to the container while it is evaluated, and
its words in the line. -/
structure Piece where
  added : String
  words : String

namespace Piece

/-- The texts that come from the parts of a line, in the order in which they stand in the container
in the end, each with the place of its part in the line. -/
def standing (pieces : List Piece) : List (String × Nat) :=
  ((pieces.map added).zipIdx ++ (pieces.map words).zipIdx).filter fun t => !t.1.isEmpty

/-- Whether the texts from the parts of a line stand in the order of the parts. -/
def InOrder (pieces : List Piece) : Prop :=
  (standing pieces).Pairwise fun t u => t.2 ≤ u.2

instance (pieces : List Piece) : Decidable (InOrder pieces) :=
  inferInstanceAs (Decidable (List.Pairwise _ _))

theorem pairwise_zipIdx (texts : List String) :
    texts.zipIdx.Pairwise fun t u => t.2 ≤ u.2 := by
  have hplaces : (texts.zipIdx.map Prod.snd).Pairwise (· < ·) := by
    rw [List.zipIdx_map_snd]
    exact List.pairwise_lt_range'
  exact (List.pairwise_map.1 hplaces).imp Nat.le_of_lt

/-- The texts are in order unless words stand before a part that adds a text. -/
theorem inOrder_iff (pieces : List Piece) :
    InOrder pieces ↔ ∀ (i j : Nat) (p q : Piece), pieces[i]? = some p → pieces[j]? = some q →
      i < j → p.words = "" ∨ q.added = "" := by
  -- both lists carry the places of the pieces
  have hmem : ∀ (f : Piece → String) (t : String × Nat),
      t ∈ (pieces.map f).zipIdx ↔ ∃ p, pieces[t.2]? = some p ∧ f p = t.1 := fun f t => by
    rw [List.mem_zipIdx_iff_getElem?, List.getElem?_map, Option.map_eq_some_iff]
  rw [InOrder, standing, List.pairwise_filter, List.pairwise_append]
  constructor
  · rintro ⟨-, -, hcross⟩ i j p q hp hq hij
    by_cases hwords : p.words = ""
    · exact .inl hwords
    · by_cases hadded : q.added = ""
      · exact .inr hadded
      · have hle := hcross (q.added, j) ((hmem added _).2 ⟨q, hq, rfl⟩) (p.words, i)
          ((hmem words _).2 ⟨p, hp, rfl⟩) (by simpa using hadded) (by simpa using hwords)
        exact absurd hij (Nat.not_lt_of_le hle)
  · intro h
    refine ⟨(pairwise_zipIdx _).imp fun hle _ _ => hle, (pairwise_zipIdx _).imp fun hle _ _ => hle,
      fun t ht u hu hadded hwords => ?_⟩
    obtain ⟨q, hq, hqt⟩ := (hmem added t).1 ht
    obtain ⟨p, hp, hpu⟩ := (hmem words u).1 hu
    refine Nat.le_of_not_lt fun hlt => ?_
    rcases h _ _ p q hp hq hlt with hempty | hempty
    · rw [← hpu, hempty] at hwords
      simp at hwords
    · rw [← hqt, hempty] at hadded
      simp at hadded

end Piece

/-! ## Texts in a container -/

theorem Tree.textContentAll_append (ts us : List Tree) :
    textContentAll (ts ++ us) = textContentAll ts ++ textContentAll us := by
  induction ts with
  | nil => simp [textContentAll]
  | cons t ts ih => simp [textContentAll, ih, String.append_assoc]

namespace Document

variable {d d' : Document} {c : Nat}

theorem textContent_tree (h : d.WellFormed) (hc : (d.element? c).isSome) :
    (d.tree c).textContent = Tree.textContentAll ((d.children c).map d.tree) := by
  obtain ⟨el, hel⟩ := Option.isSome_iff_exists.1 hc
  rw [tree_eq h, children_of_element? hel, get?_of_element? hel]
  rfl

namespace Grows

variable {whole : Bool}

/-- The trees below the old children are what they were. -/
theorem map_tree (h : Grows whole d c d') (hd : d.WellFormed) :
    (d.children c).map d'.tree = (d.children c).map d.tree := by
  refine List.map_congr_left fun x hx => ?_
  have hbehind := hd.behind c x hx
  exact tree_congr hd h.wellFormed h.size (fun q hle hlt => h.others q hlt (by omega)) hbehind.2

/-- Nothing is added to the text of a container but behind it. -/
theorem textContent (h : Grows whole d c d') (hd : d.WellFormed) (hc : (d.element? c).isSome) :
    ∃ added, (d'.tree c).textContent = (d.tree c).textContent ++ added := by
  obtain ⟨new, hnew⟩ := h.children_prefix
  refine ⟨Tree.textContentAll (new.map d'.tree), ?_⟩
  rw [textContent_tree h.wellFormed (h.isSome_element? hc), textContent_tree hd hc, ← hnew,
    List.map_append, h.map_tree hd, Tree.textContentAll_append]

end Grows

/-- A new text is the last child of its container. -/
theorem children_tree_addText (h : d.WellFormed) (hc : (d.element? c).isSome) (content : String) :
    (((d.apply (.text content)).apply (.append c d.size)).tree c).children =
      (d.tree c).children ++ [.text content] := by
  have hgrows := Grows.addText h (lt_size_of_isSome hc) content
  obtain ⟨el, hel⟩ := Option.isSome_iff_exists.1 hc
  have hel' : (d.apply (.text content)).element? c = some el := by
    rw [element?_congr ((get?_text d content c).trans
      (if_neg (Nat.ne_of_lt (lt_size_of_isSome hc)))), hel]
  have hnew : ((d.apply (.text content)).apply (.append c d.size)).get? d.size =
      some (.text content) := by
    rw [get?_append_of_ne (Nat.ne_of_gt (lt_size_of_isSome hc)), get?_text, if_pos rfl]
  rw [children_tree hgrows.wellFormed, children_tree h, children_append_self hel', children_text,
    List.map_append, hgrows.map_tree h, List.map_singleton, tree_eq hgrows.wellFormed, hnew]

theorem textContent_addText (h : d.WellFormed) (hc : (d.element? c).isSome) (content : String) :
    (((d.apply (.text content)).apply (.append c d.size)).tree c).textContent =
      (d.tree c).textContent ++ content := by
  have hgrows := Grows.addText h (lt_size_of_isSome hc) content
  rw [textContent_tree hgrows.wellFormed (hgrows.isSome_element? hc), textContent_tree h hc,
    ← children_tree hgrows.wellFormed, ← children_tree h, children_tree_addText h hc,
    Tree.textContentAll_append]
  simp [Tree.textContentAll, Tree.textContent]

end Document

/-! ## Parts -/

/-- Whether a node is a statement that is evaluated for what it adds, and has no value. -/
def Node.IsStatement : Node → Prop
  | choice _ | loop _ _ _ _ | element _ _ _ | render _ | renderComputed _ => True
  | _ => False

namespace Run

/-- The text in a container of a run that has begun with the document `before`. -/
def textIn (r : Run) (before : Document) (c : NodeId) : String :=
  ((r.document before).tree c).textContent

/-- A run that goes on in a well-formed document, in one of its elements. -/
structure Inside (before : Document) (c : Nat) (r : Run) : Prop where
  fits : r.Fits before
  isElement : ((r.document before).element? c).isSome

variable {before : Document} {c : Nat} {r s : Run}

theorem Inside.grows (h : Inside before c r) {e : Engine} (hhost : e.host.Confined)
    {names : String → Prop} {whole : Bool} (heffect : Effect e names whole c r s) :
    Inside before c s ∧ ∃ added, s.textIn before c = r.textIn before c ++ added := by
  obtain ⟨hgrows, hs⟩ := heffect.grows hhost h.fits (Document.lt_size_of_isSome h.isElement)
  exact ⟨⟨hs, hgrows.isSome_element? h.isElement⟩,
    hgrows.textContent h.fits.wellFormed h.isElement⟩

theorem Inside.document_addText (h : Inside before c r) (content : String) :
    ((Rendering.addText c content).after r).document before =
      ((r.document before).apply (.text content)).apply (.append c (r.document before).size) := by
  rw [← h.fits.next]
  exact document_writeAll r _ before

/-- The element is there for further texts. -/
theorem Inside.after_addText (h : Inside before c r) (content : String) :
    ((Rendering.addText c content).after r).Inside before c := by
  have hgrows := Document.Grows.addText h.fits.wellFormed (Document.lt_size_of_isSome h.isElement)
    content
  rw [← h.document_addText content] at hgrows
  exact ⟨⟨next_writeAll h.fits.next _, hgrows.wellFormed⟩, hgrows.isSome_element? h.isElement⟩

theorem Inside.textIn_addText (h : Inside before c r) (content : String) :
    ((Rendering.addText c content).after r).textIn before c = r.textIn before c ++ content := by
  rw [textIn, h.document_addText]
  exact Document.textContent_addText h.fits.wellFormed h.isElement content

end Run

namespace Engine

open Rendering

/-- The parts of a line are evaluated one after the other in the container `c`, and yield their
pieces. -/
inductive Yields (ev : Evaluator) (before : Document) (c : NodeId) :
    Run → List Part → List Piece → Run → Prop
  | nil {r : Run} : Yields ev before c r [] [] r
  | text {r s : Run} {ps : List Part} {pieces : List Piece} (words : String) :
    Yields ev before c r ps pieces s →
    Yields ev before c r (.text words :: ps) (⟨"", words⟩ :: pieces) s
  | expr {r s t : Run} {n : Node} {v : Value} {ps : List Part} {pieces : List Piece}
    (added : String) : ev n c r = .ok v s →
    s.textIn before c = r.textIn before c ++ added → Yields ev before c s ps pieces t →
    Yields ev before c r (.expr n :: ps) (⟨added, v.display⟩ :: pieces) t

variable {e : Engine} {ev : Evaluator} {levels : Nat} {before : Document} {c : Nat} {r s : Run}

namespace Yields

variable {ps : List Part} {pieces : List Piece}

/-- What the parts add comes behind the old text, one after the other. -/
theorem textIn (h : Yields ev before c r ps pieces s) :
    s.textIn before c = r.textIn before c ++ String.join (pieces.map Piece.added) := by
  induction h with
  | nil => exact (String.append_empty).symm
  | text words _ ih =>
    rw [ih, List.map_cons, String.join_cons, String.empty_append]
  | expr added _ hadded _ ih =>
    rw [ih, hadded, List.map_cons, String.join_cons, String.append_assoc]

/-- If some nodes have no words, then neither have the parts that they are. -/
theorem words_eq_empty (h : Yields ev before c r ps pieces s) {silent : Node → Prop}
    (hsilent : ∀ n, silent n → ∀ r v s, ev n c r = .ok v s → v.display = "") (i : Nat) (n : Node)
    (p : Piece) (hn : ps[i]? = some (.expr n)) (hp : pieces[i]? = some p) (hs : silent n) :
    p.words = "" := by
  induction h generalizing i with
  | nil => cases hn
  | text words _ ih =>
    cases i with
    | zero => cases hn
    | succ i => exact ih i hn hp
  | expr added hv _ _ ih =>
    cases i with
    | zero =>
      cases hn
      cases hp
      exact hsilent _ hs _ _ _ hv
    | succ i => exact ih i hn hp

end Yields

theorem yields_evalParts (hhost : e.host.Confined) (h : r.Inside before c) {ps : List Part}
    {texts : List String} (hev : ∀ n, Causes e (fun _ => True) c (ev n c))
    (hps : evalParts ev c ps r = .ok texts s) :
    ∃ pieces, Yields ev before c r ps pieces s ∧ pieces.map Piece.words = texts := by
  induction ps generalizing r texts with
  | nil =>
    cases hps
    exact ⟨[], .nil, rfl⟩
  | cons p ps ih =>
    cases p with
    | text words =>
      obtain ⟨rest, t, hrest, hpure⟩ := eq_ok_of_bind hps
      cases hpure
      obtain ⟨pieces, hyields, hwords⟩ := ih h hrest
      exact ⟨⟨"", words⟩ :: pieces, .text words hyields, by rw [List.map_cons, hwords]⟩
    | expr n =>
      obtain ⟨v, t, hv, hafter⟩ := eq_ok_of_bind hps
      obtain ⟨rest, u, hrest, hpure⟩ := eq_ok_of_bind hafter
      obtain ⟨ht, added, hadded⟩ := h.grows hhost ((hev n).of_ok hv)
      cases hpure
      obtain ⟨pieces, hyields, hwords⟩ := ih ht hrest
      exact ⟨⟨added, v.display⟩ :: pieces, .expr added hv hadded hyields,
        by rw [List.map_cons, hwords]⟩

/-- A statement has the value `null`. -/
theorem eq_null_of_isStatement {n : Node} (hn : n.IsStatement) {v : Value}
    (h : e.eval levels n c r = .ok v s) : v = .null := by
  have hnull : ∀ {α : Type} {m : Rendering α} {r : Run},
      (m >>= fun _ => pure Value.null) r = .ok v s → v = .null := fun h => by
    obtain ⟨_, _, _, hpure⟩ := eq_ok_of_bind h
    cases hpure
    rfl
  cases levels with
  | zero => cases h
  | succ levels =>
    cases n with
    | choice branches => exact hnull h
    | loop names source body otherwise =>
      obtain ⟨_, _, _, h⟩ := eq_ok_of_bind h
      obtain ⟨_, _, _, h⟩ := eq_ok_of_bind h
      exact hnull h
    | element tag modifiers body =>
      obtain ⟨_, _, _, h⟩ := eq_ok_of_bind h
      obtain ⟨_, _, _, h⟩ := eq_ok_of_bind h
      obtain ⟨_, _, _, h⟩ := eq_ok_of_bind h
      exact hnull h
    | render name => exact hnull h
    | renderComputed target =>
      obtain ⟨_, _, _, h⟩ := eq_ok_of_bind h
      exact hnull h
    | _ => exact hn.elim

/-- **The order of the texts in a line.** When the line of a block has been rendered into an
element, the text of the element goes on with what the parts have added, in their order, and then
with the words of the line, all of them together; statements have no words. So these texts are in
the order of the line exactly if no words stand before a part that adds a text. -/
theorem eval_line (hhost : e.host.Confined) (h : r.Inside before c) {parts : List Part} {v : Value}
    (hline : e.eval (levels + 1) (.output .content parts) c r = .ok v s) :
    let t := (addText c v.display).after s
    ∃ pieces, Yields (e.eval levels) before c r parts pieces s ∧
      (∀ (i : Nat) (n : Node) (p : Piece), parts[i]? = some (.expr n) → pieces[i]? = some p →
        n.IsStatement → p.words = "") ∧
      t.textIn before c = r.textIn before c ++ String.join (pieces.map Piece.added) ++
        OutputMode.content.join ((pieces.map Piece.words).filter fun w => !w.isEmpty) ∧
      (Piece.InOrder pieces ↔ ∀ (i j : Nat) (p q : Piece), pieces[i]? = some p →
        pieces[j]? = some q → i < j → p.words = "" ∨ q.added = "") ∧
      ∀ rest, evalBlock (e.eval (levels + 1)) c (.output .content parts :: rest) r =
        (do
          if rest.head?.any Node.isOutput then addText c "\n"
          evalBlock (e.eval (levels + 1)) c rest) t := by
  intro t
  have hcauses : ∀ n, Causes e (fun _ => True) c (e.eval levels n c) :=
    fun n => (causes_eval e levels n c).mono fun _ _ => trivial
  obtain ⟨texts, u, hparts, hpure⟩ := eq_ok_of_bind hline
  cases hpure
  obtain ⟨pieces, hyields, hwords⟩ := yields_evalParts hhost h hcauses hparts
  have hinside : s.Inside before c :=
    (h.grows hhost ((causes_evalParts fun n _ => hcauses n).of_ok hparts)).1
  refine ⟨pieces, hyields, fun i n p hn hp hs => ?_, ?_, Piece.inOrder_iff pieces, fun rest => ?_⟩
  · refine hyields.words_eq_empty (fun n hn r v s hv => ?_) i n p hn hp hs
    rw [eq_null_of_isStatement hn hv]
    rfl
  · rw [hinside.textIn_addText, hyields.textIn, hwords]
    rfl
  · rw [evalBlock, bind_of_ok hline]
    rfl

/-- An element between two words. -/
theorem eval_line_between :
    let e : Engine := ⟨.standard, [], [], .empty, [], [], .standard⟩
    let parts : List Part := [.text "a", .expr (.element "b" [] (.text (.leaf (.string "x")))),
      .text "c"]
    let before := Document.empty.apply (.element "div")
    let r : Run := .start [] 1
    let s := (e.eval 8 (.output .content parts) 0).after r
    let v : Value := .string "a c"
    let t := (addText 0 v.display).after s
    e.host.Confined ∧ r.Inside before 0 ∧ e.eval 8 (.output .content parts) 0 r = .ok v s ∧
      t.textIn before 0 = "xa c" ∧
      ∃ pieces, Yields (e.eval 7) before 0 r parts pieces s ∧
        (∀ (i : Nat) (n : Node) (p : Piece), parts[i]? = some (.expr n) → pieces[i]? = some p →
          n.IsStatement → p.words = "") ∧
        t.textIn before 0 = r.textIn before 0 ++ String.join (pieces.map Piece.added) ++
          OutputMode.content.join ((pieces.map Piece.words).filter fun w => !w.isEmpty) ∧
        (Piece.InOrder pieces ↔ ∀ (i j : Nat) (p q : Piece), pieces[i]? = some p →
          pieces[j]? = some q → i < j → p.words = "" ∨ q.added = "") ∧
        ∀ rest, evalBlock (e.eval 8) 0 (.output .content parts :: rest) r =
          (do
            if rest.head?.any Node.isOutput then addText 0 "\n"
            evalBlock (e.eval 8) 0 rest) t := by
  intro e parts before r s v t
  have hr : r.Inside before 0 := ⟨⟨rfl, Document.WellFormed.empty.element "div"⟩, rfl⟩
  have hline : e.eval 8 (.output .content parts) 0 r = .ok v s := rfl
  exact ⟨Host.confined_empty, hr, hline, by decide +kernel,
    eval_line Host.confined_empty hr hline⟩

/-- The text of an element comes before the word that stands before the element in the source. -/
theorem parseSource_line_reversed :
    let d : Dialect := ⟨.standard, fun _ => none, 64⟩
    let parts : List Part := [.text "hello", .expr (.element "b" [] (.text (.leaf (.string "x"))))]
    let e : Engine := ⟨.standard, [], [], .empty, [], [], .standard⟩
    let before := Document.empty.apply (.element "div")
    let r : Run := .start [] 1
    let s := (e.eval 8 (.output .content parts) 0).after r
    let v : Value := .string "hello"
    d.parseSource "hello @elex b \"x\"" = .ok (.block [.output .content parts]) ∧
      e.eval 8 (.output .content parts) 0 r = .ok v s ∧
      ((addText 0 v.display).after s).textIn before 0 = "xhello" ∧
      ∃ pieces, Yields (e.eval 7) before 0 r parts pieces s ∧ ¬Piece.InOrder pieces := by
  intro d parts e before r s v
  have htokens : Lexer.tokenize d.grammar.vocabulary "hello @elex b \"x\"" = .ok
      [⟨.literal, "hello", 1⟩, ⟨.mark, "@", 1⟩, ⟨.keyword, "elex", 1⟩, ⟨.literal, "b", 1⟩,
        ⟨.string, "x", 1⟩, ⟨.newline, "\n", 1⟩, ⟨.stop, "(end)", 1⟩] := by
    decide +kernel
  have hparse : d.parseSource "hello @elex b \"x\"" = .ok (.block [.output .content parts]) := by
    rw [Dialect.parseSource_of_tokenize htokens]
    cbv
  have hadded : s.textIn before 0 = r.textIn before 0 ++ "x" := by decide +kernel
  have hyields : Yields (e.eval 7) before 0 r parts [⟨"", "hello"⟩, ⟨"x", ""⟩] s :=
    .text "hello" (.expr (v := .null) "x" rfl hadded .nil)
  exact ⟨hparse, rfl, by decide +kernel, _, hyields, by decide⟩

end Engine

end Stencil
