import Mathlib.Data.List.Nodup
import Mathlib.Data.String.Basic
import Stencil.Project.Check
import Stencil.Proofs.Allowance
import Stencil.Proofs.Appending
/-!
# References between templates

What a check tells of the references between templates. A place in a template is a way down from
its root, and `walk` meets each place once: so the check warns of each reference to a missing
template exactly once, wherever it stands. And what it leaves unsaid does not happen: where nothing
is warned of and no name is computed, no rendering misses a template.
-/

namespace Stencil

/-! ## Keys of sorted tables -/

namespace Table

variable {α : Type}

/-- To insert an entry adds its key and keeps the others. -/
theorem mem_keys_insertSorted {t : Table α} {key other : String} {value : α} :
    other ∈ keys (insertSorted t key value) ↔ other = key ∨ other ∈ keys t := by
  induction t with
  | nil => simp [insertSorted, keys]
  | cons entry t ih =>
    obtain ⟨k, v⟩ := entry
    simp only [insertSorted, keys] at ih ⊢
    split
    · simp
    · split
      · next heq => simp [heq]
      · simp only [List.map_cons, List.mem_cons, ih, or_left_comm]

/-- An entry goes where its key belongs. -/
theorem increasing_insertSorted {t : Table α} (h : (keys t).Pairwise (· < ·)) (key : String)
    (value : α) : (keys (insertSorted t key value)).Pairwise (· < ·) := by
  induction t with
  | nil => exact List.pairwise_singleton _ _
  | cons entry t ih =>
    obtain ⟨k, v⟩ := entry
    obtain ⟨hk, ht⟩ := List.pairwise_cons.1 h
    simp only [insertSorted]
    split
    · next hlt =>
      refine List.pairwise_cons.2 ⟨fun other hother => ?_, h⟩
      rcases List.mem_cons.1 hother with rfl | hother
      · exact hlt
      · exact hlt.trans (hk other hother)
    · next hge =>
      split
      · exact h
      · next hne =>
        refine List.pairwise_cons.2 ⟨fun other hother => ?_, ih ht⟩
        rcases mem_keys_insertSorted.1 hother with rfl | hother
        · exact lt_of_le_of_ne (not_lt.1 hge) hne
        · exact hk other hother

/-- Entries in any order give a table in order. -/
theorem increasing_foldl {entries t : Table α} (h : (keys t).Pairwise (· < ·)) :
    (keys (entries.foldl (fun t e => insertSorted t e.1 e.2) t)).Pairwise (· < ·) := by
  induction entries generalizing t with
  | nil => exact h
  | cons entry entries ih => exact ih (increasing_insertSorted h _ _)

/-- No key is added and none is lost. -/
theorem mem_keys_foldl {entries t : Table α} {key : String} :
    key ∈ keys (entries.foldl (fun t e => insertSorted t e.1 e.2) t) ↔
      key ∈ keys t ∨ key ∈ keys entries := by
  induction entries generalizing t with
  | nil => simp [keys]
  | cons entry entries ih =>
    rw [List.foldl_cons, ih, mem_keys_insertSorted]
    simp only [keys, List.map_cons, List.mem_cons]
    rw [or_assoc, or_left_comm]

/-- No key of a sorted table stands there twice. -/
theorem nodup_keys_sorted (t : Table α) : (keys (sorted t)).Nodup :=
  (increasing_foldl List.Pairwise.nil).imp fun hlt => ne_of_lt hlt

/-- Sorting keeps the keys. -/
theorem mem_keys_sorted {t : Table α} {key : String} : key ∈ keys (sorted t) ↔ key ∈ keys t := by
  rw [sorted, mem_keys_foldl]
  simp [keys]

theorem mem_keys_of_get? {t : Table α} {key : String} {value : α} (h : get? t key = some value) :
    key ∈ keys t :=
  List.mem_map.2 ⟨_, mem_of_get? h, rfl⟩

end Table

/-! ## Places -/

namespace Node

variable {n : Node}

/-- The node at a place of a tree. A place is the way down to it, told by the positions among the
children. -/
def at? (n : Node) : List Nat → Option Node
  | [] => some n
  | i :: way => n.children[i]?.bind fun m => m.at? way

/-- A child has fewer nodes below it than its parent, and so the places come to an end. -/
theorem length_walk_lt {m : Node} (h : m ∈ n.children) : m.walk.length < n.walk.length := by
  obtain ⟨before, after, hsplit⟩ := List.append_of_mem h
  rw [n.walk_eq, hsplit, List.flatMap_append, List.flatMap_cons]
  simp only [List.length_cons, List.length_append]
  omega

/-- All places of a tree, a node before those below it. -/
def places (n : Node) : List (List Nat) :=
  [] :: (List.finRange n.children.length).flatMap fun i => (n.children[i]).places.map (i.val :: ·)
termination_by n.walk.length
decreasing_by exact length_walk_lt (List.getElem_mem _)

/-- The places are the ways that lead to a node. -/
theorem mem_places {way : List Nat} : way ∈ n.places ↔ (n.at? way).isSome := by
  induction way generalizing n with
  | nil =>
    rw [places]
    simp [at?]
  | cons i way ih =>
    rw [places]
    simp only [List.mem_cons, reduceCtorEq, false_or, List.mem_flatMap, List.mem_finRange,
      List.mem_map, List.cons.injEq, true_and, at?]
    constructor
    · rintro ⟨j, way', hway', hj, rfl⟩
      rw [← hj, List.getElem?_eq_getElem j.isLt]
      exact ih.1 hway'
    · intro h
      obtain ⟨m, hm⟩ := Option.isSome_iff_exists.1 h
      obtain ⟨child, hchild, hat⟩ := Option.bind_eq_some_iff.1 hm
      obtain ⟨hi, rfl⟩ := List.getElem?_eq_some_iff.1 hchild
      exact ⟨⟨i, hi⟩, way, ih.2 (Option.isSome_iff_exists.2 ⟨m, hat⟩), rfl, rfl⟩

/-- No way is met twice. -/
theorem nodup_places (n : Node) : n.places.Nodup := by
  induction n using places.induct with
  | case1 n ih =>
    rw [places, List.nodup_cons, List.nodup_flatMap]
    refine ⟨by simp, fun i _ => (ih i).map (List.cons_injective), ?_⟩
    -- places below different children differ in their first number
    refine (List.nodup_finRange _).imp fun {i j} hne => ?_
    simp only [Function.onFun, List.disjoint_left, List.mem_map]
    rintro _ ⟨way, -, rfl⟩ ⟨way', -, heq⟩
    exact hne (Fin.ext (List.cons.inj heq).1.symm)

/-- **Each place is met once** when a tree is walked. -/
theorem map_at?_places (n : Node) : n.places.map n.at? = n.walk.map some := by
  induction n using places.induct with
  | case1 n ih =>
    have hchildren : n.children = (List.finRange n.children.length).map fun i => n.children[i] :=
      (List.map_getElem_finRange n.children).symm
    have hbelow : ∀ i : Fin n.children.length,
        ((n.children[i]).places.map (i.val :: ·)).map n.at? = (n.children[i]).walk.map some := by
      intro i
      rw [← ih i, List.map_map]
      refine List.map_congr_left fun way _ => ?_
      simp [at?]
    rw [places, n.walk_eq, List.map_cons, List.map_cons, List.map_flatMap, List.map_flatMap]
    conv_rhs => rw [hchildren, List.flatMap_map]
    simp only [hbelow, at?]

/-- A walk meets the nodes that ways lead to. -/
theorem mem_walk {m : Node} : m ∈ n.walk ↔ ∃ way, n.at? way = some m := by
  have hsome : m ∈ n.walk ↔ some m ∈ n.places.map n.at? := by
    rw [map_at?_places]
    simp
  rw [hsome, List.mem_map]
  refine ⟨fun ⟨way, _, hway⟩ => ⟨way, hway⟩, fun ⟨way, hway⟩ => ⟨way, ?_, hway⟩⟩
  exact mem_places.2 (Option.isSome_iff_exists.2 ⟨m, hway⟩)

/-- The name of the template that a node renders by name. -/
def target? : Node → Option String
  | render name => some name
  | _ => none

/-- Only a node that renders by name has a target. -/
theorem target?_eq_some {name : String} : n.target? = some name ↔ n = .render name := by
  cases n <;> simp [target?]

/-- The references of a template are found place by place. -/
theorem references_eq (n : Node) :
    n.references = n.places.filterMap fun way => (n.at? way).bind target? := by
  have hwalk : n.references = (n.walk.map some).filterMap fun m => m.bind target? := by
    rw [List.filterMap_map]
    refine List.filterMap_congr fun m _ => ?_
    cases m <;> rfl
  rw [hwalk, ← map_at?_places, List.filterMap_map]
  rfl

end Node

/-- All is allowed but to fail since a template is missing. -/
def Allowance.complete : Allowance :=
  ⟨fun _ => True, fun _ => True, RenderError.Ordinary⟩

namespace Engine

open Rendering

variable {e : Engine}

theorem mem_templateNames {name : String} {root : Node} (h : e.template? name = some root) :
    name ∈ e.templateNames :=
  Table.mem_keys_sorted.2 (Table.mem_keys_of_get? h)

/-- The places of a template that refer to no template with a source, and to which name. -/
def danglingPlaces (e : Engine) (root : Node) : List (List Nat × String) :=
  root.places.filterMap fun way =>
    (((root.at? way).bind Node.target?).filter fun target => !e.knows target).map (way, ·)

/-- A place dangles if its target has no source. -/
theorem mem_danglingPlaces {root : Node} {way : List Nat} {target : String} :
    (way, target) ∈ e.danglingPlaces root ↔
      root.at? way = some (.render target) ∧ e.knows target = false := by
  simp only [danglingPlaces, List.mem_filterMap, Option.map_eq_some_iff, Prod.mk.injEq,
    Option.filter_eq_some_iff, Option.bind_eq_some_iff, Node.target?_eq_some]
  constructor
  · rintro ⟨way, -, target, ⟨⟨m, hm, rfl⟩, hknows⟩, rfl, rfl⟩
    exact ⟨hm, by simpa using hknows⟩
  · rintro ⟨hat, hknows⟩
    refine ⟨way, Node.mem_places.2 (by rw [hat]; rfl), target, ⟨⟨_, hat, rfl⟩, ?_⟩, rfl, rfl⟩
    simp [hknows]

/-- A place is warned of once. -/
theorem nodup_danglingPlaces (root : Node) : (e.danglingPlaces root).Nodup := by
  refine (root.nodup_places).filterMap fun way way' entry hway hway' => ?_
  obtain ⟨_, -, rfl⟩ := Option.map_eq_some_iff.1 hway
  obtain ⟨_, -, heq⟩ := Option.map_eq_some_iff.1 hway'
  exact (Prod.mk.inj heq).1.symm

/-- The names that the check tells are those of the dangling places, in their order. -/
theorem missing_eq {name : String} {root : Node} (h : e.template? name = some root) :
    e.missing name = (e.danglingPlaces root).map Prod.snd := by
  rw [missing, h, danglingPlaces, List.map_filterMap]
  dsimp only
  rw [root.references_eq, List.filter_filterMap]
  refine List.filterMap_congr fun way _ => ?_
  rw [Option.map_map]
  cases (root.at? way).bind Node.target? with
  | none => rfl
  | some target => cases hknows : e.knows target <;> simp [Option.filter, hknows]

/-- All references to templates without a source: where each stands, and to which name. -/
def dangling (e : Engine) : List (String × List Nat × String) :=
  e.templateNames.flatMap fun name =>
    ((e.template? name).toList.flatMap e.danglingPlaces).map (name, ·)

/-- A reference is told by its template, its place and its target. -/
theorem mem_dangling {name : String} {way : List Nat} {target : String} :
    (name, way, target) ∈ e.dangling ↔
      (∃ root, e.template? name = some root ∧ root.at? way = some (.render target)) ∧
        e.knows target = false := by
  simp only [dangling, List.mem_flatMap, List.mem_map, Prod.mk.injEq, Option.mem_toList]
  constructor
  · rintro ⟨name, -, _, ⟨root, hget, hmem⟩, rfl, rfl⟩
    obtain ⟨hat, hknows⟩ := mem_danglingPlaces.1 hmem
    exact ⟨⟨root, hget, hat⟩, hknows⟩
  · rintro ⟨⟨root, hget, hat⟩, hknows⟩
    have hmem := mem_danglingPlaces.2 ⟨hat, hknows⟩
    exact ⟨name, mem_templateNames hget, (way, target), ⟨root, hget, hmem⟩, rfl, rfl⟩

/-- No reference is told twice, since templates have different names and places are met once. -/
theorem nodup_dangling (e : Engine) : e.dangling.Nodup := by
  rw [dangling, List.nodup_flatMap]
  refine ⟨fun name _ => ?_, ?_⟩
  · refine List.Nodup.map (fun _ _ heq => (Prod.mk.inj heq).2) ?_
    cases e.template? name with
    | none => exact List.nodup_nil
    | some root =>
      rw [Option.toList_some, List.flatMap_singleton]
      exact nodup_danglingPlaces root
  · -- references from different templates differ in the name of the template
    refine (Table.nodup_keys_sorted e.templates).imp fun {name name'} hne => ?_
    simp only [Function.onFun, List.disjoint_left, List.mem_map]
    rintro _ ⟨_, -, rfl⟩ ⟨_, -, heq⟩
    exact hne (Prod.mk.inj heq).1.symm

/-- The check leaves the places out. -/
theorem danglingReferences_eq (e : Engine) :
    e.danglingReferences = e.dangling.map fun d => (d.1, d.2.2) := by
  rw [danglingReferences, dangling, List.map_flatMap]
  refine List.flatMap_congr fun name _ => ?_
  rw [List.map_map]
  cases hget : e.template? name with
  | none => simp [missing, hget]
  | some root =>
    rw [missing_eq hget, Option.toList_some, List.flatMap_singleton, List.map_map]
    rfl

/-- A template without a source is one that is neither there nor has failed to compile. -/
theorem knows_eq_false {name : String} :
    e.knows name = false ↔ e.hasTemplate name = false ∧ ∀ fault ∈ e.faults, fault.1 ≠ name := by
  simp [knows]

/-- Where a check finds nothing and no name is computed, no template is missing. -/
theorem covers_complete (hfaults : e.faults = []) (hwarnings : e.referenceFindings.warnings = [])
    (hcomputed : ∀ name root way target, e.template? name = some root →
      root.at? way ≠ some (.renderComputed target))
    (hhost : ∀ name ctx args missing,
      (e.host name ctx args).answer ≠ .error (.templateNotFound missing))
    (hfilter : ∀ name f v missing, e.filter? name = some f →
      f v ≠ .error (.templateNotFound missing)) : Allowance.complete.Covers e where
  ordinary _ h := h
  click := trivial
  edits _ _ _ edit _ := by cases edit <;> exact trivial
  answer name ctx args err herr missing heq := hhost name ctx args missing (heq ▸ herr)
  filter name f v hf err herr missing heq := hfilter name f v missing hf (heq ▸ herr)
  nodes name root hget n hn := by
    have hdangling : e.dangling = [] := by
      have hreferences : e.danglingReferences = [] := List.map_eq_nil_iff.1 hwarnings
      rw [danglingReferences_eq] at hreferences
      exact List.map_eq_nil_iff.1 hreferences
    obtain ⟨way, hway⟩ := Node.mem_walk.1 hn
    cases n with
    | «attribute» attr value =>
      intro v ch _
      cases ch <;> exact trivial
    | render target =>
      -- a name that no template has would have been warned of, since no source is at fault
      intro hmissing
      have hknows : e.knows target = false :=
        knows_eq_false.2 ⟨hmissing, by simp [hfaults]⟩
      have hmem := mem_dangling.2 ⟨⟨root, hget, hway⟩, hknows⟩
      rw [hdangling] at hmem
      exact absurd hmem List.not_mem_nil
    | renderComputed target => exact absurd hway (hcomputed name root way target hget)
    | _ => exact trivial

/-- **The check of references is sound.** Where every source could be read, nothing is warned of
and no name is computed, no rendering of a template fails since a template is missing, if neither
the functions of the host nor the filters say so. And there is one warning for each place in a
template that refers to a name without a source. -/
theorem referenceFindings_sound (e : Engine) :
    (e.faults = [] → e.referenceFindings.warnings = [] →
      (∀ name root way target, e.template? name = some root →
        root.at? way ≠ some (.renderComputed target)) →
      (∀ name ctx args missing,
        (e.host name ctx args).answer ≠ .error (.templateNotFound missing)) →
      (∀ name f v missing, e.filter? name = some f → f v ≠ .error (.templateNotFound missing)) →
      ∀ name frame next container missing, e.hasTemplate name = true →
        (e.render name frame next container).outcome ≠ .error (.templateNotFound missing)) ∧
    ∃ places : List (String × List Nat × String), places.Nodup ∧
      (∀ name way target, (name, way, target) ∈ places ↔
        (∃ root, e.template? name = some root ∧ root.at? way = some (.render target)) ∧
          e.hasTemplate target = false ∧ ∀ fault ∈ e.faults, fault.1 ≠ target) ∧
      e.referenceFindings.warnings = places.map fun place =>
        "模板 " ++ place.1 ++ " 引用了不存在的模板 " ++ place.2.2 := by
  refine ⟨?_, e.dangling, e.nodup_dangling, fun name way target => ?_, ?_⟩
  · intro hfaults hwarnings hcomputed hhost hfilter name frame next container missing hname
    have hcovers := covers_complete hfaults hwarnings hcomputed hhost hfilter
    rw [render, if_pos hname, Rendered.outcome_ofRun]
    intro houtcome
    exact (within_renderRun hcovers hname fun _ => trivial).error houtcome missing rfl
  · rw [mem_dangling, knows_eq_false]
  · change e.danglingReferences.map _ = _
    rw [danglingReferences_eq, List.map_map]
    rfl

/-- Two templates that render each other, in the branch of a loop without turns and below the
modifiers of an element, until the nesting is too deep. -/
theorem referenceFindings_sound_cycle :
    let page : Node := .block [.loop ["x"] (.leaf .null) (.block []) (some (.render "card"))]
    let card : Node := .element "p" [.output .content [.expr (.render "page")]] .empty
    let e : Engine := ⟨.standard, Filter.standard, [], .empty, [("page", page), ("card", card)],
      [], { Settings.standard with maxDepth := 12 }⟩
    e.faults = [] ∧ e.referenceFindings.warnings = [] ∧ e.hasTemplate "page" = true ∧
      (e.render "page" [] 0 none).outcome = .error (.depthExceeded 12) ∧
      ∀ missing, (e.render "page" [] 0 none).outcome ≠ .error (.templateNotFound missing) := by
  intro page card e
  have hwarnings : e.referenceFindings.warnings = [] := by
    dsimp +zetaDelta only
    decide
  have hplain : ∀ t ∈ e.templates, ∀ target, .renderComputed target ∉ t.2.walk := by
    simp [e, page, card, Node.walk, Node.walkList, Node.walkOption, Node.walkParts, Node.walkBody]
  refine ⟨rfl, hwarnings, rfl, ?_, fun missing => ?_⟩
  · dsimp +zetaDelta only
    decide
  · refine (referenceFindings_sound e).1 rfl hwarnings ?_ ?_ ?_ "page" [] 0 none missing rfl
    · intro name root way target hget hat
      exact hplain _ (Table.mem_of_get? hget) target (Node.mem_walk.2 ⟨way, hat⟩)
    · exact fun name ctx args missing heq => by cases heq
    · exact fun name f v missing hf heq => FailsOnly.standard hf v _ heq missing rfl

end Engine

end Stencil
