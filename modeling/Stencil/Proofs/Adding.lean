import Mathlib
import Stencil.Engine.Build
import Stencil.Proofs.Depth
import Stencil.Proofs.References
import Stencil.Proofs.Variables
/-!
# Adding templates

The sources of an engine are read one by one, so a name stands among its templates or among its
errors by its own last source alone. And whatever further templates an engine has, a rendering comes
to notice them only where it would have missed a template.
-/

namespace Stencil

/-! ## Tables that are written entry by entry -/

namespace Table

variable {α : Type}

/-- What was written last counts. -/
theorem get?_merge (t entries : Table α) (key : String) :
    get? (merge t entries) key = (get? entries.reverse key).or (get? t key) := by
  induction entries generalizing t with
  | nil => rfl
  | cons entry entries ih =>
    obtain ⟨k, v⟩ := entry
    have hstep : merge t ((k, v) :: entries) = merge (insert t k v) entries := rfl
    rw [hstep, ih, List.reverse_cons, get?_append, Option.or_assoc]
    by_cases hk : k = key
    · subst hk
      simp [get?]
    · rw [get?_insert_of_ne t v hk]
      simp [get?, hk]

theorem mem_keys_insert {t : Table α} {key other : String} {value : α} :
    other ∈ keys (insert t key value) ↔ other ∈ keys t ∨ other = key := by
  rcases keys_insert t key value with ⟨hkey, heq⟩ | ⟨-, heq⟩
  · rw [heq]
    exact ⟨.inl, fun h => h.elim id fun hother => hother ▸ hkey⟩
  · rw [heq, List.mem_append, List.mem_singleton]

/-- An entry takes the place of the one with its key, so no key comes twice. -/
theorem nodup_keys_insert {t : Table α} (h : (keys t).Nodup) (key : String) (value : α) :
    (keys (insert t key value)).Nodup := by
  rcases keys_insert t key value with ⟨-, heq⟩ | ⟨hnew, heq⟩
  · exact heq ▸ h
  · rw [heq, ← List.concat_eq_append]
    exact h.concat hnew

theorem mem_keys_merge {t entries : Table α} {key : String} :
    key ∈ keys (merge t entries) ↔ key ∈ keys t ∨ key ∈ keys entries := by
  induction entries generalizing t with
  | nil => simp [merge, keys]
  | cons entry entries ih =>
    have hstep : merge t (entry :: entries) = merge (insert t entry.1 entry.2) entries := rfl
    have hkeys : keys (entry :: entries) = entry.1 :: keys entries := rfl
    rw [hstep, ih, mem_keys_insert, hkeys, List.mem_cons, or_assoc]

/-- Merging entry by entry never makes a key come twice. -/
theorem nodup_keys_merge {t : Table α} (h : (keys t).Nodup) (entries : Table α) :
    (keys (merge t entries)).Nodup := by
  induction entries generalizing t with
  | nil => exact h
  | cons entry entries ih => exact ih (nodup_keys_insert h entry.1 entry.2)

/-- Where no key stands twice, every entry is found under its key. -/
theorem get?_eq_some {t : Table α} (h : (keys t).Nodup) {key : String} {value : α} :
    get? t key = some value ↔ (key, value) ∈ t := by
  refine ⟨mem_of_get?, fun hmem => ?_⟩
  induction t with
  | nil => cases hmem
  | cons entry t ih =>
    obtain ⟨k, v⟩ := entry
    obtain ⟨hhead, htail⟩ := List.nodup_cons.1 h
    rcases List.mem_cons.1 hmem with heq | hmem
    · cases heq
      rw [get?, if_pos rfl]
    · have hk : k ≠ key := fun hk => hhead (hk ▸ List.mem_map.2 ⟨_, hmem, rfl⟩)
      rw [get?, if_neg hk, ih htail hmem]

/-- To sort a table in which no key stands twice is to reorder its keys. -/
theorem keys_sorted_perm {t : Table α} (h : (keys t).Nodup) : (keys (sorted t)).Perm (keys t) :=
  (List.perm_ext_iff_of_nodup (nodup_keys_sorted t) h).2 fun _ => mem_keys_sorted

end Table

/-! ## What an engine is built from -/

namespace Blueprint

variable {b : Blueprint}

theorem mem_compiled {name : String} {result : Except CompileError Node} :
    (name, result) ∈ b.compiled ↔
      ∃ source, (name, source) ∈ b.sources ∧ b.dialect.compile name source = result := by
  simp [compiled, compile]

/-- The entries that are read are those whose compilation gave a template. -/
theorem readable_eq_some {entry : String × Except CompileError Node} {name : String}
    {root : Node} : readable entry = some (name, root) ↔ entry = (name, .ok root) := by
  obtain ⟨key, result⟩ := entry
  cases result <;> simp [readable]

theorem unreadable_eq_some {entry : String × Except CompileError Node} {name : String}
    {err : CompileError} : unreadable entry = some (name, err) ↔ entry = (name, .error err) := by
  obtain ⟨key, result⟩ := entry
  cases result <;> simp [unreadable]

/-- An engine has the templates of those sources that compile. -/
theorem mem_templates {name : String} {root : Node} :
    (name, root) ∈ b.build.templates ↔
      ∃ source, (name, source) ∈ b.sources ∧ b.dialect.compile name source = .ok root := by
  simp only [build, List.mem_filterMap, readable_eq_some, exists_eq_right, mem_compiled]

/-- An engine has the faults of those sources that do not compile. -/
theorem mem_faults {name : String} {err : CompileError} :
    (name, err) ∈ b.build.faults ↔
      ∃ source, (name, source) ∈ b.sources ∧ b.dialect.compile name source = .error err := by
  simp only [build, List.mem_filterMap, unreadable_eq_some, exists_eq_right, mem_compiled]

/-- Each entry is a template or an error. -/
theorem names_perm (entries : List (String × Except CompileError Node)) :
    (Table.keys (entries.filterMap readable) ++ (entries.filterMap unreadable).map (·.1)).Perm
      (entries.map (·.1)) := by
  induction entries with
  | nil => exact .refl _
  | cons entry entries ih =>
    obtain ⟨name, result⟩ := entry
    cases result with
    | ok node => exact ih.cons name
    | error err => exact List.perm_middle.trans (ih.cons name)

/-- The engine that is built from a list of sources, where a later source of a name replaces an
earlier one, and from what else there is in the blueprint. -/
def engineOf (b : Blueprint) (sources : List (String × String)) : Engine :=
  ({ b with sources := [] }.withSources sources).build

end Blueprint

/-- The last source of a name. -/
def lastSource? (sources : List (String × String)) (name : String) : Option String :=
  Table.get? sources.reverse name

/-- Whether a list holds the given sources in their order, and between them at most sources under
new names. -/
def AddsTo (sources all : List (String × String)) : Prop :=
  all.filter (fun source => decide (source.1 ∈ Table.keys sources)) = sources

/-- New sources may stand before and behind the others. -/
theorem addsTo_around {sources before after : List (String × String)}
    (hbefore : ∀ source ∈ before, source.1 ∉ Table.keys sources)
    (hafter : ∀ source ∈ after, source.1 ∉ Table.keys sources) :
    AddsTo sources (before ++ sources ++ after) := by
  have hdropped : ∀ {more : List (String × String)},
      (∀ source ∈ more, source.1 ∉ Table.keys sources) →
        more.filter (fun source => decide (source.1 ∈ Table.keys sources)) = [] :=
    fun h => List.filter_eq_nil_iff.2 fun source hsource => by simpa using h source hsource
  rw [AddsTo, List.filter_append, List.filter_append, hdropped hbefore, hdropped hafter,
    List.nil_append, List.append_nil, List.filter_eq_self]
  exact fun source hsource => decide_eq_true (List.mem_map_of_mem hsource)

/-- New names have no part in what the last source of an old one is. -/
theorem AddsTo.lastSource?_eq {sources all : List (String × String)} (h : AddsTo sources all)
    {name : String} (hname : name ∈ Table.keys sources) :
    lastSource? all name = lastSource? sources name := by
  have hreverse : sources.reverse =
      all.reverse.filter fun source => decide (source.1 ∈ Table.keys sources) := by
    rw [List.filter_reverse, h]
  rw [lastSource?, lastSource?, hreverse,
    Table.get?_filter_of_pos (p := fun key => decide (key ∈ Table.keys sources))
      (decide_eq_true hname)]

namespace Blueprint

variable (b : Blueprint) (sources : List (String × String))

/-- However often a name is given, it has one source in the end. -/
theorem nodup_keys_sources : (Table.keys (Table.merge [] sources)).Nodup :=
  Table.nodup_keys_merge (t := []) List.nodup_nil sources

/-- The source of a name is the one that was given last. -/
theorem mem_sources {name source : String} :
    (name, source) ∈ Table.merge [] sources ↔ lastSource? sources name = some source := by
  rw [← Table.get?_eq_some (nodup_keys_sources sources), Table.get?_merge]
  simp [lastSource?, Table.get?]

/-- The names of the templates and of the errors, together. -/
theorem names_engineOf :
    (Table.keys (b.engineOf sources).templates ++ (b.engineOf sources).faults.map (·.1)).Perm
      (Table.keys (Table.merge [] sources)) := by
  have hnames : ((Table.merge [] sources).map b.compile).map (·.1) =
      Table.keys (Table.merge [] sources) := List.map_map
  exact hnames ▸ names_perm _

/-- Every name has one template at most. -/
theorem nodup_keys_templates : (Table.keys (b.engineOf sources).templates).Nodup :=
  ((names_engineOf b sources).nodup_iff.2 (nodup_keys_sources sources)).of_append_left

/-- A template is found by its name if the last source of this name compiles to it. -/
theorem template?_engineOf {name : String} {root : Node} :
    (b.engineOf sources).template? name = some root ↔
      ∃ source, lastSource? sources name = some source ∧
        b.dialect.compile name source = .ok root := by
  rw [Engine.template?, Table.get?_eq_some (nodup_keys_templates b sources), engineOf,
    mem_templates]
  exact exists_congr fun source => and_congr_left fun _ => mem_sources sources

/-- A name has a fault if the last source of this name does not compile. -/
theorem fault_engineOf {name : String} {err : CompileError} :
    (name, err) ∈ (b.engineOf sources).faults ↔
      ∃ source, lastSource? sources name = some source ∧
        b.dialect.compile name source = .error err := by
  rw [engineOf, mem_faults]
  exact exists_congr fun source => and_congr_left fun _ => mem_sources sources

/-- Templates and faults divide the names that were given, each of them once. -/
theorem names_engineOf_dedup :
    ((b.engineOf sources).templateNames ++ (b.engineOf sources).faults.map (·.1)).Perm
      (Table.keys sources).dedup := by
  have hsorted := Table.keys_sorted_perm (nodup_keys_templates b sources)
  have hdedup : (Table.keys (Table.merge [] sources)).Perm (Table.keys sources).dedup := by
    refine (List.perm_ext_iff_of_nodup (nodup_keys_sources sources) (List.nodup_dedup _)).2 ?_
    intro name
    rw [Table.mem_keys_merge, List.mem_dedup]
    exact or_iff_right List.not_mem_nil
  exact ((hsorted.append_right _).trans (names_engineOf b sources)).trans hdedup

end Blueprint

/-! ## More templates -/

open Rendering

namespace Engine

variable {e e' : Engine}

/-- The engine `e'` has the templates of `e` and perhaps more, and otherwise is like it. -/
structure Enlarged (e e' : Engine) : Prop where
  templates : ∀ name root, e.template? name = some root → e'.template? name = some root
  filters : ∀ name, e.filter? name = e'.filter? name
  globals : ∀ name, e.global? name = e'.global? name
  host : e.host = e'.host
  settings : e.settings = e'.settings

/-- A rendering has missed a template. -/
def Missing (err : RenderError) : Prop :=
  ∃ name, err = .templateNotFound name

namespace Enlarged

/-- A rendering under the larger engine does the same until the smaller one misses a template. -/
theorem cutShort_renderRun (h : Enlarged e e') (name : String) (container : Option NodeId) :
    CutShort Missing (e.renderRun name container) (e'.renderRun name container) := by
  let cong := cutShort Missing h.host h.filters
  have htemplates : cong.Templates := by
    refine ⟨h.templates, fun name _ levels c c' _ => .fail ⟨name, rfl⟩ fun r => ?_⟩
    have hcauses : Causes e' (fun _ => True) c' (e'.evalTemplate (e'.eval levels) name c') :=
      causes_evalTemplate name fun root => causes_eval_any e' levels root c'
    exact (hcauses r).edits_suffix
  have hname : ∀ name, CutShort Missing (e.evalName name) (e'.evalName name) := by
    intro name
    have hsame : e.evalName name = e'.evalName name := by rw [evalName, evalName, h.globals name]
    have hcauses : Causes e' (fun _ => True) 0 (e'.evalName name) := causes_evalName name
    rw [hsame]
    exact .refl fun r => (hcauses r).edits_suffix
  have hzero : ∀ n, cong.On 0 0 n n := by
    intro n c c' _
    rw [eval, eval, h.settings]
    exact cong.fail _
  have hrender : ∀ c, CutShort Missing (e.renderIn name c) (e'.renderIn name c) := by
    intro c
    refine cong.rel_renderIn (P := fun _ => True) (fun _ _ _ _ => trivial) htemplates
      (fun _ _ _ => trivial) (fun name _ => hname name) hzero ?_ name rfl
    rw [Nat.zero_add, h.settings]
  exact cong.rel_renderRun (fun _ _ => Iff.rfl) (by rw [h.settings]) (by rw [h.settings]) hrender
    container

/-- A rendering that misses no template goes on in the same way where there are more. -/
theorem render_eq (h : Enlarged e e') {name : String} {frame : Frame} {next : NodeId}
    {container : Option NodeId} (hfound : ∀ missing,
      (e.render name frame next container).outcome ≠ .error (.templateNotFound missing)) :
    e'.render name frame next container = e.render name frame next container := by
  by_cases hknown : e.hasTemplate name = true
  · obtain ⟨root, hroot⟩ := Option.isSome_iff_exists.1 hknown
    have hknown' : e'.hasTemplate name = true :=
      Option.isSome_iff_exists.2 ⟨root, h.templates name root hroot⟩
    have hr : e.render name frame next container =
        .ofRun (e.renderRun name container (.start frame next)) := if_pos hknown
    have hr' : e'.render name frame next container =
        .ofRun (e'.renderRun name container (.start frame next)) := if_pos hknown'
    rw [hr] at hfound ⊢
    rw [hr']
    rcases (h.cutShort_renderRun name container).rendered (.start frame next) with
      hsame | ⟨_, ⟨missing, rfl⟩, hstopped, -⟩
    · exact hsame
    · exact absurd hstopped (hfound missing)
  · refine absurd ?_ (hfound name)
    rw [render, if_neg hknown]

end Enlarged

end Engine

/-- **Adding templates never disturbs others.** The names of the templates that can be read and
those of the errors are together the given names, each one once; which of the two a name is, and
what stands under it, its last source tells alone. If sources under new names are added, whether
they can be read or not, then every rendering that does not end for a missing template comes to the
same as before: to the same result or error by the same edits, and so to the same document. -/
theorem Blueprint.engineOf_adding (b : Blueprint) (sources : List (String × String)) :
    let e := b.engineOf sources
    (e.templateNames ++ e.faults.map (·.1)).Perm (Table.keys sources).dedup ∧
      (∀ name root, e.template? name = some root ↔ ∃ source,
        lastSource? sources name = some source ∧ b.dialect.compile name source = .ok root) ∧
      (∀ name err, (name, err) ∈ e.faults ↔ ∃ source,
        lastSource? sources name = some source ∧ b.dialect.compile name source = .error err) ∧
      ∀ all, AddsTo sources all → ∀ name frame next container,
        (∀ missing, (e.render name frame next container).outcome ≠
          .error (.templateNotFound missing)) →
        (b.engineOf all).render name frame next container =
          e.render name frame next container := by
  intro e
  refine ⟨names_engineOf_dedup b sources, fun _ _ => template?_engineOf b sources,
    fun _ _ => fault_engineOf b sources, fun all hall name frame next container hfound => ?_⟩
  have hlarger : Engine.Enlarged e (b.engineOf all) := by
    refine ⟨fun name root hroot => ?_, fun _ => rfl, fun _ => rfl, rfl, rfl⟩
    obtain ⟨source, hsource, hcompile⟩ := (template?_engineOf b sources).1 hroot
    have hname : name ∈ Table.keys sources := by
      have hkey := Table.mem_keys_of_get? hsource
      rwa [Table.keys, List.map_reverse, List.mem_reverse] at hkey
    exact (template?_engineOf b all).2
      ⟨source, (hall.lastSource?_eq hname).trans hsource, hcompile⟩
  exact hlarger.render_eq hfound

/-- Four sources, the first of which a later one replaces, and two new ones around them. The
template of the page renders the last source of `line` in both engines. -/
theorem Blueprint.engineOf_adding_page :
    let b : Blueprint := { empty with settings.maxDepth := 8 }
    let sources := [("line", "a"), ("bad", "'"), ("line", "b"), ("page", "@render line")]
    let all := [("new", "@render page")] ++ sources ++ [("other", "'")]
    let e := b.engineOf sources
    AddsTo sources all ∧
      (e.templateNames ++ e.faults.map (·.1)).Perm (Table.keys sources).dedup ∧
      e.template? "line" = some (.block [.output .content [.text "b"]]) ∧
      e.templateNames = ["line", "page"] ∧ e.faults.map (·.1) = ["bad"] ∧
      (e.render "page" [] 0 none).outcome = .ok 0 ∧
      (∀ missing, (e.render "page" [] 0 none).outcome ≠ .error (.templateNotFound missing)) ∧
      (b.engineOf all).render "page" [] 0 none = e.render "page" [] 0 none := by
  intro b sources all e
  have hall : AddsTo sources all := addsTo_around (by decide) (by decide)
  -- the sources are compiled by their tokens, so that the lexer is evaluated once for each
  have hline : b.dialect.compile "line" "b" = .ok (.block [.output .content [.text "b"]]) := by
    have htokens : Lexer.tokenize b.dialect.grammar.vocabulary "b" = .ok
        [⟨.literal, "b", 1⟩, ⟨.newline, "\n", 1⟩, ⟨.stop, "(end)", 1⟩] := by
      decide +kernel
    rw [Dialect.compile, Dialect.parseSource_of_tokenize htokens]
    cbv
  have hpage : b.dialect.compile "page" "@render line" = .ok (.block [.render "line"]) := by
    have htokens : Lexer.tokenize b.dialect.grammar.vocabulary "@render line" = .ok
        [⟨.mark, "@", 1⟩, ⟨.keyword, "render", 1⟩, ⟨.literal, "line", 1⟩, ⟨.newline, "\n", 1⟩,
          ⟨.stop, "(end)", 1⟩] := by
      decide +kernel
    rw [Dialect.compile, Dialect.parseSource_of_tokenize htokens]
    cbv
  have hbad : b.dialect.compile "bad" "'" =
      .error (.inTemplate "bad" "'" ⟨1, .unclosedString '\''⟩) := by
    have htokens : Lexer.tokenize b.dialect.grammar.vocabulary "'" =
        .error ⟨1, .unclosedString '\''⟩ := by
      decide +kernel
    rw [Dialect.compile, Dialect.parseSource]
    change (Lexer.tokenize b.dialect.grammar.vocabulary "'" >>= _).mapError _ = _
    rw [htokens]
    rfl
  -- the engine, written out
  have he : e = ⟨.standard, [], [], .empty,
      [("line", .block [.output .content [.text "b"]]), ("page", .block [.render "line"])],
      [("bad", .inTemplate "bad" "'" ⟨1, .unclosedString '\''⟩)], b.settings⟩ := by
    have hcompiled : [("line", "b"), ("bad", "'"), ("page", "@render line")].map b.compile =
        [("line", .ok (.block [.output .content [.text "b"]])),
          ("bad", .error (.inTemplate "bad" "'" ⟨1, .unclosedString '\''⟩)),
          ("page", .ok (.block [.render "line"]))] := by
      simp only [List.map, compile, hline, hbad, hpage]
    have hmerged : Table.merge [] sources =
        [("line", "b"), ("bad", "'"), ("page", "@render line")] := rfl
    change Engine.mk .standard [] [] .empty (((Table.merge [] sources).map b.compile).filterMap
      readable) (((Table.merge [] sources).map b.compile).filterMap unreadable) b.settings = _
    rw [hmerged, hcompiled]
    rfl
  have houtcome : (e.render "page" [] 0 none).outcome = .ok 0 := by
    rw [he]
    rfl
  have hfound : ∀ missing,
      (e.render "page" [] 0 none).outcome ≠ .error (.templateNotFound missing) := by
    intro missing hmissing
    rw [houtcome] at hmissing
    cases hmissing
  have hnames : e.templateNames = ["line", "page"] ∧ e.faults.map (·.1) = ["bad"] := by
    rw [he]
    exact ⟨by decide, rfl⟩
  obtain ⟨hperm, hlines, -, hadded⟩ := engineOf_adding b sources
  exact ⟨hall, hperm, (hlines "line" _).2 ⟨"b", rfl, hline⟩, hnames.1, hnames.2, houtcome, hfound,
    hadded all hall "page" [] 0 none hfound⟩

end Stencil
