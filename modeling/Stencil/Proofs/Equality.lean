import Mathlib.Data.List.Perm.Subperm
import Stencil.Proofs.Adding
import Stencil.Proofs.Comparing
/-!
# Equality of values

Equality of values is reflexive and symmetric, at any depth of arrays in objects in arrays, and it
ignores the order of members. It is transitive but for integers that are blurred: they are equal to
one floating-point number and not to each other, so two values may each be equal to a third and
differ in a pair of such integers, and in nothing else.
-/

namespace Stencil

namespace Value

open Number

variable {u v w : Value} {m n p : Number}

/-- No number in the value is the one that is none, and no object has a key twice. -/
inductive Sound : Value → Prop
  | null : Sound .null
  | bool (b : Bool) : Sound (.bool b)
  | number {n : Number} (h : n.isNaN = false) : Sound (.number n)
  | string (s : String) : Sound (.string s)
  | array {items : List Value} (h : ∀ v ∈ items, Sound v) : Sound (.array items)
  | object {members : Table Value} (hkeys : (Table.keys members).Nodup)
      (h : ∀ k v, Table.get? members k = some v → Sound v) : Sound (.object members)
  | function (f : Callable) : Sound (.function f)

theorem sound_object {members : Table Value} (hkeys : (Table.keys members).Nodup)
    (h : ∀ e ∈ members, Sound e.2) : Sound (.object members) :=
  .object hkeys fun _ _ hget => h _ (Table.mem_of_get? hget)

/-- The numbers stand in the same place of two values: behind the same keys and positions. -/
inductive Meet : Value → Value → Number → Number → Prop
  | number (m n : Number) : Meet (.number m) (.number n) m n
  | item {as bs : List Value} {i : Nat} {a b : Value} {m n : Number} (ha : as[i]? = some a)
      (hb : bs[i]? = some b) (h : Meet a b m n) : Meet (.array as) (.array bs) m n
  | member {as bs : Table Value} {k : String} {a b : Value} {m n : Number}
      (ha : Table.get? as k = some a) (hb : Table.get? bs k = some b) (h : Meet a b m n) :
      Meet (.object as) (.object bs) m n

/-! ## Arrays and objects -/

theorem equalItems_iff {as bs : List Value} : equalItems as bs = true ↔
    as.length = bs.length ∧
      ∀ (i : Nat) (a b : Value), as[i]? = some a → bs[i]? = some b → a.equal b = true := by
  induction as generalizing bs with
  | nil => cases bs <;> simp [equalItems]
  | cons a as ih =>
    cases bs with
    | nil => simp [equalItems]
    | cons b bs =>
      rw [equalItems, Bool.and_eq_true, ih, List.length_cons, List.length_cons, Nat.succ_inj]
      constructor
      · rintro ⟨hhead, hlen, htail⟩
        refine ⟨hlen, fun i => ?_⟩
        cases i with
        | zero =>
          rintro a' b' ⟨⟩ ⟨⟩
          exact hhead
        | succ i => exact htail i
      · rintro ⟨hlen, h⟩
        exact ⟨h 0 a b rfl rfl, hlen, fun i => h (i + 1)⟩

theorem equalMembers_iff {as bs : Table Value} : equalMembers as bs = true ↔
    ∀ e ∈ as, ∃ b, Table.get? bs e.1 = some b ∧ e.2.equal b = true := by
  induction as with
  | nil => simp [equalMembers]
  | cons e as ih =>
    rw [equalMembers, Bool.and_eq_true, ih, List.forall_mem_cons]
    refine and_congr_left' ?_
    cases Table.get? bs e.1 <;> simp

theorem mem_keys_iff {members : Table Value} (h : (Table.keys members).Nodup) {k : String} :
    k ∈ Table.keys members ↔ ∃ v, Table.get? members k = some v := by
  constructor
  · intro hk
    obtain ⟨⟨k', v⟩, hmem, rfl⟩ := List.mem_map.1 hk
    exact ⟨v, (Table.get?_eq_some h).2 hmem⟩
  · rintro ⟨v, hv⟩
    exact Table.mem_keys_of_get? hv

theorem equal_array_iff {as bs : List Value} :
    (Value.array as).equal (.array bs) = true ↔ as.length = bs.length ∧
      ∀ (i : Nat) (a b : Value), as[i]? = some a → bs[i]? = some b → a.equal b = true := by
  rw [equal, equalItems_iff]

/-- Objects are equal if they have the same keys, and equal members under them. -/
theorem equal_object_iff {as bs : Table Value} (ha : (Table.keys as).Nodup)
    (hb : (Table.keys bs).Nodup) :
    (Value.object as).equal (.object bs) = true ↔ (Table.keys as).Perm (Table.keys bs) ∧
      ∀ k a b, Table.get? as k = some a → Table.get? bs k = some b → a.equal b = true := by
  have hlen : (as.length == bs.length) = true ↔
      (Table.keys as).length = (Table.keys bs).length := by
    rw [beq_iff_eq, Table.keys, Table.keys, List.length_map, List.length_map]
  rw [equal, Bool.and_eq_true, equalMembers_iff, hlen]
  constructor
  · rintro ⟨hlen, h⟩
    have hsub : Table.keys as ⊆ Table.keys bs := by
      intro k hk
      obtain ⟨a, hka⟩ := (mem_keys_iff ha).1 hk
      obtain ⟨b, hkb, -⟩ := h (k, a) (Table.mem_of_get? hka)
      exact Table.mem_keys_of_get? hkb
    refine ⟨(List.subperm_of_subset ha hsub).perm_of_length_le hlen.ge, ?_⟩
    intro k a b hka hkb
    obtain ⟨b', hkb', heq⟩ := h (k, a) (Table.mem_of_get? hka)
    rw [hkb] at hkb'
    cases hkb'
    exact heq
  · rintro ⟨hperm, h⟩
    refine ⟨hperm.length_eq, fun e hmem => ?_⟩
    obtain ⟨k, a⟩ := e
    have hka := (Table.get?_eq_some ha).2 hmem
    obtain ⟨b, hkb⟩ := (mem_keys_iff hb).1 (hperm.subset (Table.mem_keys_of_get? hka))
    exact ⟨b, hkb, h k a b hka hkb⟩

/-- Values that are no numbers and have no parts are equal only to themselves. -/
theorem eq_of_equal (hu : u.kind ∈ [Kind.null, .bool, .string, .function])
    (h : u.equal v = true) : u = v := by
  cases u <;> cases v <;> simp_all [equal, kind]

/-! ## The three laws -/

theorem equal_refl (hv : Sound v) : v.equal v = true := by
  induction hv with
  | number h => exact (equal_iff h h).2 ⟨rfl, not_blurred_self _⟩
  | array h ih =>
    refine equal_array_iff.2 ⟨rfl, fun i a b ha hb => ?_⟩
    rw [ha] at hb
    cases hb
    exact ih a (List.mem_of_getElem? ha)
  | object hkeys h ih =>
    refine (equal_object_iff hkeys hkeys).2 ⟨.refl _, fun k a b ha hb => ?_⟩
    rw [ha] at hb
    cases hb
    exact ih k a ha
  | _ => simp [equal]

theorem equal_symm (hv : Sound v) (hw : Sound w) (h : v.equal w = true) : w.equal v = true := by
  induction hv generalizing w with
  -- numbers are equal by value, up to what rounding blurs
  | @number m hm =>
    cases hw with
    | @number n hn =>
      have heq := (equal_iff hm hn).1 h
      exact (equal_iff hn hm).2 ⟨heq.1.symm, fun hblur => heq.2 (blurred_comm.1 hblur)⟩
    | _ => simp [equal] at h
  | array hitems ih =>
    cases hw with
    | array hitems' =>
      obtain ⟨hlen, heq⟩ := equal_array_iff.1 h
      refine equal_array_iff.2 ⟨hlen.symm, fun i b a hb ha => ?_⟩
      exact ih a (List.mem_of_getElem? ha) (hitems' b (List.mem_of_getElem? hb)) (heq i a b ha hb)
    | _ => simp [equal] at h
  | object hkeys hmembers ih =>
    cases hw with
    | object hkeys' hmembers' =>
      obtain ⟨hperm, heq⟩ := (equal_object_iff hkeys hkeys').1 h
      refine (equal_object_iff hkeys' hkeys).2 ⟨hperm.symm, fun k b a hb ha => ?_⟩
      exact ih k a ha (hmembers' k b hb) (heq k a b ha hb)
    | _ => simp [equal] at h
  | _ =>
    obtain rfl := eq_of_equal (by simp [kind]) h
    exact h

/-- Equal values meet in no integers that are blurred. -/
theorem not_blurred_of_meet (hmeet : Meet u w m n) (hu : Sound u) (hw : Sound w)
    (h : u.equal w = true) : ¬Blurred m n := by
  induction hmeet with
  | number m n =>
    cases hu with
    | number hm =>
      cases hw with
      | number hn => exact ((equal_iff hm hn).1 h).2
  | item ha hb _ ih =>
    cases hu with
    | array hitems =>
      cases hw with
      | array hitems' =>
        exact ih (hitems _ (List.mem_of_getElem? ha)) (hitems' _ (List.mem_of_getElem? hb))
          ((equal_array_iff.1 h).2 _ _ _ ha hb)
  | member ha hb _ ih =>
    cases hu with
    | object hkeys hmembers =>
      cases hw with
      | object hkeys' hmembers' =>
        exact ih (hmembers _ _ ha) (hmembers' _ _ hb)
          (((equal_object_iff hkeys hkeys').1 h).2 _ _ _ ha hb)

/-- Values that are equal to a third are equal unless they meet in integers that are blurred. -/
theorem equal_trans (hu : Sound u) (hv : Sound v) (hw : Sound w) (huv : u.equal v = true)
    (hvw : v.equal w = true) (hmeet : ∀ m n, Meet u w m n → ¬Blurred m n) :
    u.equal w = true := by
  induction hu generalizing v w with
  | @number m hm =>
    cases hv with
    | @number n hn =>
      cases hw with
      | @number p hp =>
        have hmn := ((equal_iff hm hn).1 huv).1
        have hnp := ((equal_iff hn hp).1 hvw).1
        exact (equal_iff hm hp).2 ⟨hmn.trans hnp, hmeet _ _ (.number m p)⟩
      | _ => simp [equal] at hvw
    | _ => simp [equal] at huv
  | @array as hitems ih =>
    cases hv with
    | @array bs hitems' =>
      cases hw with
      | @array cs hitems'' =>
        obtain ⟨hlen, heq⟩ := equal_array_iff.1 huv
        obtain ⟨hlen', heq'⟩ := equal_array_iff.1 hvw
        refine equal_array_iff.2 ⟨hlen.trans hlen', fun i a c ha hc => ?_⟩
        -- the middle array is as long, so it has an item there
        have hi : i < bs.length := hlen ▸ (List.getElem?_eq_some_iff.1 ha).1
        have hb : bs[i]? = some bs[i] := List.getElem?_eq_getElem hi
        exact ih a (List.mem_of_getElem? ha) (hitems' _ (List.mem_of_getElem? hb))
          (hitems'' c (List.mem_of_getElem? hc)) (heq i a _ ha hb) (heq' i _ c hb hc)
          fun m n hin => hmeet m n (.item ha hc hin)
      | _ => simp [equal] at hvw
    | _ => simp [equal] at huv
  | @object as hkeys hmembers ih =>
    cases hv with
    | @object bs hkeys' hmembers' =>
      cases hw with
      | @object cs hkeys'' hmembers'' =>
        obtain ⟨hperm, heq⟩ := (equal_object_iff hkeys hkeys').1 huv
        obtain ⟨hperm', heq'⟩ := (equal_object_iff hkeys' hkeys'').1 hvw
        refine (equal_object_iff hkeys hkeys'').2 ⟨hperm.trans hperm', fun k a c ha hc => ?_⟩
        obtain ⟨b, hb⟩ := (mem_keys_iff hkeys').1 (hperm.subset (Table.mem_keys_of_get? ha))
        exact ih k a ha (hmembers' k b hb) (hmembers'' k c hc) (heq k a b ha hb) (heq' k b c hb hc)
          fun m n hin => hmeet m n (.member ha hc hin)
      | _ => simp [equal] at hvw
    | _ => simp [equal] at huv
  | _ => exact eq_of_equal (by simp [kind]) huv ▸ hvw

/-- The order of members makes no difference. -/
theorem equal_of_perm {as bs : Table Value} (hperm : as.Perm bs) (h : Sound (.object as)) :
    (Value.object as).equal (.object bs) = true := by
  cases h with
  | object hkeys hmembers =>
    have hperm' : (Table.keys as).Perm (Table.keys bs) := hperm.map _
    have hkeys' := hperm'.nodup_iff.1 hkeys
    refine (equal_object_iff hkeys hkeys').2 ⟨hperm', fun k a b ha hb => ?_⟩
    -- what is under a key is what stands beside it
    have hmem := hperm.mem_iff.2 (Table.mem_of_get? hb)
    rw [← Table.get?_eq_some hkeys, ha] at hmem
    cases hmem
    exact equal_refl (hmembers k a ha)

/-- **Equality is an equivalence, but for integers that are blurred.** On values in which every
number is one and no key stands twice, equality is reflexive and symmetric, and two values that are
equal to a third are equal to each other exactly where no two numbers in the same place of them are
different integers that are the same floating-point number. Objects are equal in any order of their
members, and functions only to themselves. -/
theorem equal_equivalence (hu : Sound u) (hv : Sound v) (hw : Sound w) :
    u.equal u = true ∧ u.equal v = v.equal u ∧
    (u.equal v = true → v.equal w = true →
      (u.equal w = true ↔ ∀ m n, Meet u w m n → ¬Blurred m n)) ∧
    (∀ as bs : Table Value, u = .object as → as.Perm bs → u.equal (.object bs) = true) ∧
    ∀ f g, u = .function f → v = .function g → (u.equal v = true ↔ f = g) := by
  refine ⟨equal_refl hu, ?_, fun huv hvw => ?_, ?_, ?_⟩
  · exact Bool.eq_iff_iff.2 ⟨equal_symm hu hv, equal_symm hv hu⟩
  · exact ⟨fun h m n hmeet => not_blurred_of_meet hmeet hu hw h, equal_trans hu hv hw huv hvw⟩
  · rintro as bs rfl hperm
    exact equal_of_perm hperm hu
  · rintro f g rfl rfl
    rw [equal, beq_iff_eq]

/-- Two objects with their members in either order, the one with an integer where the other has a
floating-point number. -/
theorem equal_equivalence_nested :
    let one : Value := .object [("list", .array [.null, .number (.int 1)]), ("name", .string "x")]
    let other : Value :=
      .object [("name", .string "x"), ("list", .array [.null, .number (.float 1)])]
    Sound one ∧ Sound other ∧ one.equal one = true ∧ other.equal one = true := by
  intro one other
  have hlist : ∀ x : Number, x.isNaN = false → Sound (.array [.null, .number x]) :=
    fun x hx => .array (by simp [Sound.null, Sound.number hx])
  have hone : Sound one :=
    sound_object (by decide) (by simp [hlist _ (rfl : (int 1).isNaN = false), Sound.string])
  have hother : Sound other :=
    sound_object (by decide)
      (by simp [hlist _ (by decide +kernel : (float 1).isNaN = false), Sound.string])
  have hequal : one.equal other = true := by decide +kernel
  obtain ⟨hrefl, hsymm, -⟩ := equal_equivalence hone hother hone
  exact ⟨hone, hother, hrefl, hsymm ▸ hequal⟩

/-- Two integers next to each other, equal to the same floating-point number and not to each
other. -/
theorem equal_not_transitive :
    ¬∀ u v w : Value, Sound u → Sound v → Sound w →
      u.equal v = true → v.equal w = true → u.equal w = true := by
  intro h
  have hequal := h (.number (.int 9007199254740992)) (.number (.float 9007199254740992))
    (.number (.int 9007199254740993)) (.number rfl) (.number (by decide +kernel)) (.number rfl)
    (by decide +kernel) (by decide +kernel)
  exact absurd hequal (by decide +kernel)

end Value

end Stencil
