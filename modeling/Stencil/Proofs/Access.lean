import Mathlib
import Stencil.Proofs.Depth
/-!
# Access by path

Where a path leads from a value, and what is told if it leads nowhere. A path goes from objects to
members and from arrays to items, one step for each segment. It is lost where there is no such part
or where it goes on behind `null`, and blocked where it goes on behind a value of another kind.
Whether a path is written as one or behind the value of its beginning makes no difference.
-/

namespace Stencil

namespace Value

variable {v u w w' : Value} {segment : String} {ss ts : List String} {i j : Nat} {kind kind' : Kind}

/-! ## Steps -/

/-- One step along a path: from an object to the member with this key, or from an array to the item
with this position. -/
inductive Step : Value → String → Value → Prop
  | member {members : Table Value} {key : String} {w : Value}
      (h : Table.get? members key = some w) : Step (.object members) key w
  | item {items : List Value} {position : String} {i : Nat} {w : Value}
      (hi : Number.natural? position.toList = some i) (h : items[i]? = some w) :
      Step (.array items) position w

/-- The steps along a path, one for each segment. -/
inductive Leads : Value → List String → Value → Prop
  | here (v : Value) : Leads v [] v
  | step {v u w : Value} {segment : String} {ss : List String} (h : Step v segment u)
      (rest : Leads u ss w) : Leads v (segment :: ss) w

/-- One step is what the program looks up for a segment. -/
theorem step_iff : Step v segment w ↔ v.part? segment = some w := by
  constructor
  · rintro (⟨h⟩ | ⟨hi, h⟩)
    · exact h
    · rw [part?, hi]
      exact h
  · intro h
    cases v with
    | object members => exact .member h
    | array items =>
      obtain ⟨i, hi, hitem⟩ := Option.bind_eq_some_iff.1 h
      exact .item hi hitem
    | _ => cases h

/-- A segment is looked up in one way only. -/
theorem Step.unique (h : Step v segment w) (h' : Step v segment w') : w = w' :=
  Option.some.inj ((step_iff.1 h).symm.trans (step_iff.1 h'))

/-- Only objects and arrays have parts. -/
theorem Step.kind_eq (h : Step v segment w) : v.kind = .object ∨ v.kind = .array := by
  cases h with
  | member h => exact .inl rfl
  | item hi h => exact .inr rfl

theorem leads_nil_iff : Leads v [] w ↔ v = w :=
  ⟨fun | .here _ => rfl, fun h => h ▸ .here v⟩

/-- A path leads on behind its first step. -/
theorem leads_cons_iff : Leads v (segment :: ss) w ↔ ∃ u, Step v segment u ∧ Leads u ss w :=
  ⟨fun | .step h rest => ⟨_, h, rest⟩, fun ⟨_, h, rest⟩ => .step h rest⟩

/-- A path leads to one value. -/
theorem Leads.unique (h : Leads v ss w) (h' : Leads v ss w') : w = w' := by
  induction h with
  | here v => exact leads_nil_iff.1 h'
  | step hstep _ ih =>
    obtain ⟨u', hstep', rest⟩ := leads_cons_iff.1 h'
    exact ih (hstep.unique hstep' ▸ rest)

/-- A path may be cut anywhere: what it leads to is reached in two parts. -/
theorem leads_append_iff : Leads v (ss ++ ts) w ↔ ∃ u, Leads v ss u ∧ Leads u ts w := by
  induction ss generalizing v with
  | nil => simp [leads_nil_iff]
  | cons segment ss ih =>
    simp only [List.cons_append, leads_cons_iff, ih]
    constructor
    · rintro ⟨x, hstep, u, hfront, hback⟩
      exact ⟨u, ⟨x, hstep, hfront⟩, hback⟩
    · rintro ⟨u, ⟨x, hstep, hfront⟩, hback⟩
      exact ⟨x, hstep, u, hfront, hback⟩

/-- On the way to a value every beginning of the path leads somewhere. -/
theorem Leads.split (h : Leads v ss w) (i : Nat) :
    ∃ u, Leads v (ss.take i) u ∧ Leads u (ss.drop i) w := by
  rw [← List.take_append_drop i ss] at h
  exact leads_append_iff.1 h

/-! ## Where a path ends early -/

/-- The first `j` segments lead nowhere, or to `null` though segments are left. -/
def Lost (v : Value) (ss : List String) (j : Nat) : Prop :=
  (j ≤ ss.length ∧ ∀ w, ¬Leads v (ss.take j) w) ∨ (j < ss.length ∧ Leads v (ss.take j) .null)

/-- Segments are left behind the first `j` ones, but these lead to a value of a kind that has no
parts. -/
def Blocked (v : Value) (ss : List String) (j : Nat) (kind : Kind) : Prop :=
  j < ss.length ∧ (∃ w, Leads v (ss.take j) w ∧ w.kind = kind) ∧
    kind ≠ .object ∧ kind ≠ .array ∧ kind ≠ .null

/-- The first `j` segments are the shortest beginning that is lost, and no value before its end
blocks the path. -/
def LostFirst (v : Value) (ss : List String) (j : Nat) : Prop :=
  Lost v ss j ∧ (∀ i < j, ¬Lost v ss i) ∧ ∀ i < j, ∀ kind, ¬Blocked v ss i kind

/-- The value behind the first `j` segments is the first one that blocks the path. -/
def BlockedFirst (v : Value) (ss : List String) (j : Nat) (kind : Kind) : Prop :=
  Blocked v ss j kind ∧ ∀ i < j, ∀ kind', ¬Blocked v ss i kind'

/-- Before the first step a path is lost only on `null`. -/
theorem lost_zero_iff : Lost v ss 0 ↔ ss ≠ [] ∧ v = .null := by
  rw [Lost, List.take_zero, leads_nil_iff, ← List.length_pos_iff]
  exact ⟨fun h => h.elim (fun h => absurd (.here v) (h.2 v)) id, .inr⟩

/-- Before the first step a path is blocked by a value that has no parts. -/
theorem blocked_zero_iff : Blocked v ss 0 kind ↔
    ss ≠ [] ∧ v.kind = kind ∧ kind ≠ .object ∧ kind ≠ .array ∧ kind ≠ .null := by
  rw [Blocked, List.take_zero, ← List.length_pos_iff]
  simp only [leads_nil_iff, exists_eq_left']

section Step

variable (h : Step v segment u)
include h

theorem Step.leads_iff : Leads v (segment :: ss) w ↔ Leads u ss w := by
  rw [leads_cons_iff]
  exact ⟨fun ⟨u', h', rest⟩ => h.unique h' ▸ rest, fun rest => ⟨u, h, rest⟩⟩

/-- Where a first step can be made, nothing is lost yet. -/
theorem Step.not_lost_zero : ¬Lost v ss 0 := by
  intro hlost
  rcases (lost_zero_iff.1 hlost).2 with rfl
  cases h

/-- Where a first step can be made, nothing blocks it. -/
theorem Step.not_blocked_zero : ¬Blocked v ss 0 kind := by
  intro hblocked
  obtain ⟨-, rfl, hobject, harray, -⟩ := blocked_zero_iff.1 hblocked
  exact h.kind_eq.elim hobject harray

/-- A loss behind the first step is one of the rest of the path, and its place is counted from
there. -/
theorem Step.lost_succ_iff : Lost v (segment :: ss) (j + 1) ↔ Lost u ss j := by
  simp only [Lost, List.length_cons, Nat.add_le_add_iff_right, Nat.add_lt_add_iff_right,
    List.take_succ_cons, h.leads_iff]

/-- It is the same for what blocks a path. -/
theorem Step.blocked_succ_iff : Blocked v (segment :: ss) (j + 1) kind ↔ Blocked u ss j kind := by
  simp only [Blocked, List.length_cons, Nat.add_lt_add_iff_right, List.take_succ_cons, h.leads_iff]

/-- The first loss of the rest is the first loss of the whole, since the first step can be made. -/
theorem Step.lostFirst_succ (hlost : LostFirst u ss j) : LostFirst v (segment :: ss) (j + 1) := by
  obtain ⟨hj, hbefore, hopen⟩ := hlost
  refine ⟨h.lost_succ_iff.2 hj, Nat.forall_lt_succ_left.2 ⟨h.not_lost_zero, fun i hi => ?_⟩,
    Nat.forall_lt_succ_left.2 ⟨fun _ => h.not_blocked_zero, fun i hi kind => ?_⟩⟩
  · rw [h.lost_succ_iff]
    exact hbefore i hi
  · rw [h.blocked_succ_iff]
    exact hopen i hi kind

/-- It is the same for the first value that blocks a path. -/
theorem Step.blockedFirst_succ (hblocked : BlockedFirst u ss j kind) :
    BlockedFirst v (segment :: ss) (j + 1) kind := by
  obtain ⟨hj, hopen⟩ := hblocked
  refine ⟨h.blocked_succ_iff.2 hj,
    Nat.forall_lt_succ_left.2 ⟨fun _ => h.not_blocked_zero, fun i hi kind' => ?_⟩⟩
  rw [h.blocked_succ_iff]
  exact hopen i hi kind'

end Step

/-- Before the end of steps that have been made, a path is neither lost nor blocked. -/
theorem Leads.open_before (h : Leads v (ss.take j) w) (hi : i < j) (hj : j ≤ ss.length) :
    ¬Lost v ss i ∧ ∀ kind, ¬Blocked v ss i kind := by
  obtain ⟨u, hfront, hback⟩ := h.split i
  rw [List.take_take, Nat.min_eq_left hi.le] at hfront
  have hleft : (ss.take j).drop i ≠ [] := by
    rw [ne_eq, List.drop_eq_nil_iff, List.length_take]
    omega
  obtain ⟨segment, rest, hcons⟩ := List.exists_cons_of_ne_nil hleft
  rw [hcons, leads_cons_iff] at hback
  obtain ⟨x, hstep, -⟩ := hback
  constructor
  · rintro (⟨-, hnone⟩ | ⟨-, hnull⟩)
    · exact hnone u hfront
    · cases hfront.unique hnull
      cases hstep
  · rintro kind ⟨-, ⟨w', hfront', rfl⟩, hobject, harray, -⟩
    cases hfront.unique hfront'
    exact hstep.kind_eq.elim hobject harray

/-- A path that leads somewhere is never lost. -/
theorem Leads.not_lost (h : Leads v ss w) : ¬Lost v ss j := by
  have hall : Leads v (ss.take ss.length) w := ss.take_length.symm ▸ h
  intro hlost
  rcases Nat.lt_or_ge j ss.length with hj | hj
  · exact (hall.open_before hj le_rfl).1 hlost
  · rcases hlost with ⟨-, hnone⟩ | ⟨hlt, -⟩
    · rw [List.take_of_length_le hj] at hnone
      exact hnone w h
    · exact absurd hlt (Nat.not_lt_of_le hj)

/-- A path that leads somewhere is never blocked. -/
theorem Leads.not_blocked (h : Leads v ss w) : ¬Blocked v ss j kind := by
  have hall : Leads v (ss.take ss.length) w := ss.take_length.symm ▸ h
  exact fun hblocked => (hall.open_before hblocked.1 le_rfl).2 kind hblocked

/-- There is one shortest beginning that is lost. -/
theorem LostFirst.unique (h : LostFirst v ss i) (h' : LostFirst v ss j) : i = j := by
  rcases Nat.lt_trichotomy i j with hlt | heq | hlt
  · exact absurd h.1 (h'.2.1 i hlt)
  · exact heq
  · exact absurd h'.1 (h.2.1 j hlt)

/-- The kind that is told is that of one value. -/
theorem BlockedFirst.unique (h : BlockedFirst v ss i kind) (h' : BlockedFirst v ss j kind') :
    kind = kind' := by
  rcases Nat.lt_trichotomy i j with hlt | rfl | hlt
  · exact absurd h.1 (h'.2 i hlt kind)
  · obtain ⟨-, ⟨w, hw, rfl⟩, -⟩ := h.1
    obtain ⟨-, ⟨w', hw', rfl⟩, -⟩ := h'.1
    rw [hw.unique hw']
  · exact absurd h'.1 (h.2 j hlt kind')

/-- A value that blocks the path has been reached, so the path is not lost before or there. -/
theorem LostFirst.not_blockedFirst (h : LostFirst v ss i) : ¬BlockedFirst v ss j kind := by
  intro h'
  obtain ⟨hj, ⟨w, hw, rfl⟩, -, -, hnull⟩ := h'.1
  rcases Nat.lt_trichotomy i j with hlt | rfl | hlt
  · exact (hw.open_before hlt hj.le).1 h.1
  · rcases h.1 with ⟨-, hnone⟩ | ⟨-, hends⟩
    · exact hnone w hw
    · exact hnull (congrArg Value.kind (hw.unique hends))
  · exact h.2.2 j hlt _ h'.1

/-! ## What is told of a path -/

/-- The result of a path: the value it leads to, or the error that tells the beginning that is lost,
or the error that tells the kind of the value that blocks it. -/
inductive Ends (trail : String) (v : Value) (ss : List String) : Except RenderError Value → Prop
  | found {w : Value} (h : Leads v ss w) : Ends trail v ss (.ok w)
  | lost {j : Nat} (h : LostFirst v ss j) :
      Ends trail v ss (.error (.undefinedVariable (".".intercalate (trail :: ss.take j))))
  | blocked {j : Nat} {kind : Kind} (h : BlockedFirst v ss j kind) :
      Ends trail v ss (.error (.notIndexable kind))

variable {trail : String} {x y : Except RenderError Value}

/-- The segment of a step that has been made is told with what comes behind it. -/
theorem Ends.step (h : Step v segment u) (hx : Ends (trail ++ "." ++ segment) u ss x) :
    Ends trail v (segment :: ss) x := by
  cases hx with
  | found hleads => exact .found (.step h hleads)
  | lost hlost =>
    have htold : Ends trail v (segment :: ss) _ := .lost (h.lostFirst_succ hlost)
    rwa [List.take_succ_cons, String.intercalate_cons_cons,
      ← String.intercalate_cons_append] at htold
  | blocked hblocked => exact .blocked (h.blockedFirst_succ hblocked)

/-- The trail grows by the segment that has been followed. -/
theorem follow_of_step (h : Step v segment u) :
    v.follow trail (segment :: ss) = u.follow (trail ++ "." ++ segment) ss := by
  have hpart := step_iff.1 h
  cases h <;> simp only [follow, hpart]

/-- What is told where a step cannot be made does not depend on what is left of the path. -/
theorem follow_of_no_step (trail : String) (h : v.part? segment = none) :
    (v = .null ∧ ∀ ss, v.follow trail (segment :: ss) = .error (.undefinedVariable trail)) ∨
      ((v.kind = .object ∨ v.kind = .array) ∧ ∀ ss, v.follow trail (segment :: ss) =
        .error (.undefinedVariable (trail ++ "." ++ segment))) ∨
      ((v.kind ≠ .object ∧ v.kind ≠ .array ∧ v.kind ≠ .null) ∧
        ∀ ss, v.follow trail (segment :: ss) = .error (.notIndexable v.kind)) := by
  cases v with
  | null => exact .inl ⟨rfl, fun _ => rfl⟩
  | object members => exact .inr (.inl ⟨.inl rfl, fun ss => by simp only [follow, h]⟩)
  | array items => exact .inr (.inl ⟨.inr rfl, fun ss => by simp only [follow, h]⟩)
  | _ => exact .inr (.inr ⟨⟨nofun, nofun, nofun⟩, fun _ => rfl⟩)

/-- Nothing can be reached from `null`. -/
theorem lostFirst_null : LostFirst .null (segment :: ss) 0 :=
  ⟨lost_zero_iff.2 ⟨List.cons_ne_nil _ _, rfl⟩, fun _ hi => absurd hi (Nat.not_lt_zero _),
    fun _ hi => absurd hi (Nat.not_lt_zero _)⟩

/-- A part that is not there is lost with its segment, and so the segment is told. -/
theorem lostFirst_of_no_step (hkind : v.kind = .object ∨ v.kind = .array)
    (h : v.part? segment = none) : LostFirst v (segment :: ss) 1 := by
  refine ⟨.inl ⟨by simp, fun w hw => ?_⟩, Nat.forall_lt_succ_left.2 ⟨fun hlost => ?_, ?_⟩,
    Nat.forall_lt_succ_left.2 ⟨fun kind hblocked => ?_, ?_⟩⟩
  · obtain ⟨u, hstep, -⟩ := leads_cons_iff.1 hw
    cases h.symm.trans (step_iff.1 hstep)
  · rw [(lost_zero_iff.1 hlost).2] at hkind
    exact hkind.elim nofun nofun
  · exact fun i hi => absurd hi (Nat.not_lt_zero i)
  · obtain ⟨-, rfl, hobject, harray, -⟩ := blocked_zero_iff.1 hblocked
    exact hkind.elim hobject harray
  · exact fun i hi => absurd hi (Nat.not_lt_zero i)

/-- A value without parts blocks every path that goes on. -/
theorem blockedFirst_of_kind (h : v.kind ≠ .object ∧ v.kind ≠ .array ∧ v.kind ≠ .null) :
    BlockedFirst v (segment :: ss) 0 v.kind :=
  ⟨blocked_zero_iff.2 ⟨List.cons_ne_nil _ _, rfl, h⟩, fun _ hi => absurd hi (Nat.not_lt_zero _)⟩

/-- **A path ends in one of the three ways.** -/
theorem follow_ends (trail : String) (v : Value) (ss : List String) :
    Ends trail v ss (v.follow trail ss) := by
  induction ss generalizing trail v with
  | nil => exact .found (.here v)
  | cons segment ss ih =>
    cases hpart : v.part? segment with
    | some u =>
      have hstep := step_iff.2 hpart
      rw [follow_of_step hstep]
      exact (ih _ u).step hstep
    | none =>
      rcases follow_of_no_step trail hpart with
        ⟨rfl, hfollow⟩ | ⟨hkind, hfollow⟩ | ⟨hkind, hfollow⟩
      · have htold : Ends trail .null (segment :: ss) _ := .lost lostFirst_null
        rwa [List.take_zero, String.intercalate_singleton, ← hfollow ss] at htold
      · have htold : Ends trail v (segment :: ss) _ := .lost (lostFirst_of_no_step hkind hpart)
        rwa [List.take_succ_cons, List.take_zero, String.intercalate_cons_cons,
          String.intercalate_singleton, ← hfollow ss] at htold
      · rw [hfollow]
        exact .blocked (blockedFirst_of_kind hkind)

/-- A path ends in one way only. -/
theorem Ends.unique (hx : Ends trail v ss x) (hy : Ends trail v ss y) : x = y := by
  cases hx with
  | found h =>
    cases hy with
    | found h' => rw [h.unique h']
    | lost h' => exact absurd h'.1 h.not_lost
    | blocked h' => exact absurd h'.1 h.not_blocked
  | lost h =>
    cases hy with
    | found h' => exact absurd h.1 h'.not_lost
    | lost h' => rw [h.unique h']
    | blocked h' => exact (h.not_blockedFirst h').elim
  | blocked h =>
    cases hy with
    | found h' => exact absurd h.1 h'.not_blocked
    | lost h' => exact (h'.not_blockedFirst h).elim
    | blocked h' => rw [h.unique h']

/-- The program gives the one result that a path has. -/
theorem follow_eq_iff : v.follow trail ss = x ↔ Ends trail v ss x :=
  ⟨fun h => h ▸ follow_ends trail v ss, (follow_ends trail v ss).unique⟩

/-- The three cases, one by one: the value that the path leads to. -/
theorem follow_eq_ok_iff : v.follow trail ss = .ok w ↔ Leads v ss w := by
  rw [follow_eq_iff]
  exact ⟨fun | .found h => h, .found⟩

/-- The beginning that is lost is told with the trail in front of it. -/
theorem follow_eq_undefined_iff {p : String} :
    v.follow trail ss = .error (.undefinedVariable p) ↔
      ∃ j, LostFirst v ss j ∧ p = ".".intercalate (trail :: ss.take j) := by
  rw [follow_eq_iff]
  constructor
  · rintro ⟨⟩
    exact ⟨_, ‹_›, rfl⟩
  · rintro ⟨j, h, rfl⟩
    exact .lost h

/-- The kind that is told is that of the first value without parts. -/
theorem follow_eq_notIndexable_iff :
    v.follow trail ss = .error (.notIndexable kind) ↔ ∃ j, BlockedFirst v ss j kind := by
  rw [follow_eq_iff]
  exact ⟨fun | .blocked h => ⟨_, h⟩, fun ⟨_, h⟩ => .blocked h⟩

/-- A path can be followed in two parts, the second one behind the first one in errors. -/
theorem follow_append (trail : String) (v : Value) (ss ts : List String) :
    v.follow trail (ss ++ ts) =
      (v.follow trail ss).bind fun w => w.follow (".".intercalate (trail :: ss)) ts := by
  induction ss generalizing trail v with
  | nil => rw [String.intercalate_singleton]; rfl
  | cons segment ss ih =>
    rw [List.cons_append]
    cases hpart : v.part? segment with
    | some u =>
      have hstep := step_iff.2 hpart
      rw [follow_of_step hstep, follow_of_step hstep, ih, String.intercalate_cons_append,
        String.intercalate_cons_cons]
    | none =>
      rcases follow_of_no_step trail hpart with
        ⟨-, hfollow⟩ | ⟨-, hfollow⟩ | ⟨-, hfollow⟩
      all_goals
        rw [hfollow, hfollow]
        rfl

end Value

namespace Rendering

variable {α : Type} {x : Except RenderError α} {r : Run}

/-- A step that only computes keeps the state, and so its result tells all. -/
theorem ofResult_eq_ok_iff {a : α} : ofResult x r = .ok a r ↔ x = .ok a := by
  cases x with
  | ok b => exact ⟨fun h => EStateM.Result.ok.inj h |>.1 ▸ rfl, fun h => Except.ok.inj h ▸ rfl⟩
  | error err => exact ⟨nofun, nofun⟩

theorem ofResult_eq_error_iff {err : RenderError} :
    ofResult x r = .error err r ↔ x = .error err := by
  cases x with
  | ok b => exact ⟨nofun, nofun⟩
  | error err' =>
    exact ⟨fun h => EStateM.Result.error.inj h |>.1 ▸ rfl, fun h => Except.error.inj h ▸ rfl⟩

end Rendering

open Rendering Value

namespace Engine

variable {e : Engine} {target : Node} {container : NodeId} {levels : Nat} {r r' : Run} {v : Value}

/-- A path is followed from the value of its target, and nothing else happens. -/
theorem eval_path_eq (segments : List String) (h : e.eval levels target container r = .ok v r') :
    e.eval (levels + 1) (.path target segments) container r =
      ofResult (v.follow target.describe segments) r' :=
  bind_of_ok h

/-- The path to the value of a path goes on from its end. -/
theorem eval_path_append (e : Engine) (levels : Nat) (target : Node) {front : List String}
    (hfront : front ≠ []) (back : List String) (container : NodeId) (r : Run) :
    e.eval (levels + 2) (.path (.path target front) back) container r =
      e.eval (levels + 1) (.path target (front ++ back)) container r := by
  cases htarget : e.eval levels target container r with
  | error err s =>
    have hwhole : ∀ segments, e.eval (levels + 1) (.path target segments) container r =
        .error err s := fun _ => bind_of_error htarget
    rw [hwhole]
    exact bind_of_error (hwhole front)
  | ok v s =>
    have hdescribe : (Node.path target front).describe =
        ".".intercalate (target.describe :: front) := by
      rw [Node.describe, String.intercalate_cons_of_ne_nil hfront]
    rw [eval_path_eq (front ++ back) htarget, follow_append]
    have hinner := eval_path_eq front htarget
    cases hends : v.follow target.describe front with
    | ok w =>
      rw [hends] at hinner
      rw [eval_path_eq back hinner, hdescribe]
      rfl
    | error err =>
      rw [hends] at hinner
      exact bind_of_error hinner

/-- **Access by path.** A path behind a node goes from the value of the node, one step for each
segment. Where it is lost, the error tells the node and the shortest beginning of the path that is
lost; where it is blocked, the kind of the first value that has no parts; else the result is the
value at its end. If some of the segments are put into a path of their own, nothing changes but that
one more level of nesting is needed. -/
theorem eval_path (e : Engine) (target : Node) {segments : List String} (hne : segments ≠ [])
    (container : NodeId) (r : Run) :
    (∀ levels v r', e.eval levels target container r = .ok v r' →
      let result := e.eval (levels + 1) (.path target segments) container r
      (∀ p, result = .error (.undefinedVariable p) r' ↔ ∃ j, LostFirst v segments j ∧
        p = ".".intercalate (target.describe :: segments.take j)) ∧
      (∀ kind, result = .error (.notIndexable kind) r' ↔ ∃ j, BlockedFirst v segments j kind) ∧
      (∀ w, result = .ok w r' ↔ Leads v segments w) ∧
      ((∃ p, result = .error (.undefinedVariable p) r') ∨
        (∃ kind, result = .error (.notIndexable kind) r') ∨ ∃ w, result = .ok w r')) ∧
    ∀ k, 0 < k → ∀ levels,
      let nested : Node := .path (.path target (segments.take k)) (segments.drop k)
      e.eval (levels + 2) nested container r =
          e.eval (levels + 1) (.path target segments) container r ∧
        (e.eval levels nested container r = e.eval levels (.path target segments) container r ∨
          ∃ s, e.eval levels nested container r =
            .error (.depthExceeded e.settings.maxDepth) s) := by
  refine ⟨fun levels v r' htarget => ?_, fun k hk levels => ?_⟩
  · rw [eval_path_eq segments htarget]
    simp only [ofResult_eq_ok_iff, ofResult_eq_error_iff]
    refine ⟨fun p => follow_eq_undefined_iff, fun kind => follow_eq_notIndexable_iff,
      fun w => follow_eq_ok_iff, ?_⟩
    have hends := follow_ends target.describe v segments
    generalize v.follow target.describe segments = x at hends ⊢
    cases hends with
    | found h => exact .inr (.inr ⟨_, rfl⟩)
    | lost h => exact .inl ⟨_, rfl⟩
    | blocked h => exact .inr (.inl ⟨_, rfl⟩)
  · intro nested
    have hfront : segments.take k ≠ [] := by
      rw [ne_eq, List.take_eq_nil_iff, not_or]
      exact ⟨hk.ne', hne⟩
    have hmore : ∀ levels, e.eval (levels + 2) nested container r =
        e.eval (levels + 1) (.path target segments) container r := by
      intro levels
      rw [eval_path_append e levels target hfront, List.take_append_drop]
    refine ⟨hmore levels, ?_⟩
    cases levels with
    | zero => exact .inl rfl
    | succ levels =>
      -- with a level less the nested path may fail for its depth, and does the same otherwise
      have hcut := ((Deepened.refl e).cutShort_eval 1 (levels + 1) nested container).agrees r
      rw [Nat.add_comm 1, hmore] at hcut
      exact hcut.imp_right fun ⟨err, s, herr, hstop, _⟩ => ⟨s, herr ▸ hstop⟩

/-- In a list of a name and `null`, the first segment behind either of them is one too many, but a
path may end at `null`. -/
theorem eval_path_names :
    let e : Engine := ⟨.standard, [], [], .empty, [], [], .standard⟩
    let user : Value := .object [("names", .array [.string "Ada", .null])]
    let target : Node := .leaf (.name "user")
    let r := Run.start [("user", user)] 0
    e.eval 1 target 0 r = .ok user r ∧
      e.eval 2 (.path target ["names", "1", "first"]) 0 r =
        .error (.undefinedVariable "user.names.1") r ∧
      (∃ j, LostFirst user ["names", "1", "first"] j ∧
        "user.names.1" = ".".intercalate ("user" :: ["names", "1", "first"].take j)) ∧
      (∃ j, BlockedFirst user ["names", "0", "first"] j .string) ∧
      Leads user ["names", "1"] .null ∧
      e.eval 3 (.path (.path target ["names"]) ["1", "first"]) 0 r =
        .error (.undefinedVariable "user.names.1") r := by
  intro e user target r
  have htarget : e.eval 1 target 0 r = .ok user r := rfl
  have hlost : e.eval 2 (.path target ["names", "1", "first"]) 0 r =
      .error (.undefinedVariable "user.names.1") r := by cbv
  have hblocked : e.eval 2 (.path target ["names", "0", "first"]) 0 r =
      .error (.notIndexable .string) r := by cbv
  have hnull : e.eval 2 (.path target ["names", "1"]) 0 r = .ok .null r := by cbv
  have hpath (segment : String) (rest : List String) :=
    eval_path e target (List.cons_ne_nil segment rest) 0 r
  have hsplit := (hpath "names" ["1", "first"]).2 1 Nat.one_pos 1
  exact ⟨htarget, hlost, ((hpath _ _).1 1 user r htarget).1 _ |>.1 hlost,
    ((hpath _ _).1 1 user r htarget).2.1 _ |>.1 hblocked,
    ((hpath _ _).1 1 user r htarget).2.2.1 _ |>.1 hnull, hsplit.1.trans hlost⟩

end Engine

end Stencil
