import Stencil.Proofs.Access
import Stencil.Proofs.Calculating
import Stencil.Proofs.Literals
/-!
# Access by key

What is behind a point, and what is in brackets. A path asks an array for a position without blanks
and without a minus sign, and fails where there is nothing; a key may be any integer, with blanks
around it, and leads to `null` there. Where both of them reach a part, it is the same one.
-/

namespace Stencil

/-! ## Positions in texts -/

namespace Number

variable {cs ds : List Char} {i : Nat} {n : Int64}

/-- Digits are read if there are any and there is nothing else. -/
theorem digits?_eq_some_iff :
    digits? ds = some i ↔ ds ≠ [] ∧ (∀ c ∈ ds, c.isDigit = true) ∧ digitsValue ds = i := by
  simp [digits?, and_assoc]

theorem not_isDigit_plus : ¬('+').isDigit = true := by
  decide

/-- A position is digits with at most a plus sign in front of them. -/
theorem natural?_eq_some_iff :
    natural? cs = some i ↔ ∃ ds, (cs = ds ∨ cs = '+' :: ds) ∧ digits? ds = some i := by
  have hplus : ∀ ds, digits? ('+' :: ds) ≠ some i := fun ds h =>
    not_isDigit_plus ((digits?_eq_some_iff.1 h).2.1 '+' List.mem_cons_self)
  unfold natural?
  split
  · next ds =>
    constructor
    · exact fun h => ⟨ds, .inr rfl, h⟩
    · rintro ⟨_, rfl | hcons, h⟩
      · exact absurd h (hplus ds)
      · exact (List.cons.inj hcons).2 ▸ h
  · next hnot =>
    constructor
    · exact fun h => ⟨_, .inl rfl, h⟩
    · rintro ⟨_, rfl | hcons, h⟩
      · exact h
      · exact absurd hcons (hnot _)

/-- An integer is digits behind at most one sign, of a value that fits. -/
theorem integer?_eq_some_iff : integer? cs = some n ↔
    ∃ i, digits? (signed cs).2 = some i ∧ n.toInt = if (signed cs).1 then -(i : Int) else i := by
  simp [integer?, Option.bind_eq_some_iff, fit?_eq_some_iff]

/-- A position in a text has no blanks, and is the same integer if that has 64 bits. -/
theorem integer?_of_natural? (h : natural? cs = some i) (hi : i < 2 ^ 63) :
    integer? (Text.trim cs) = some (Int64.ofNat i) := by
  obtain ⟨ds, hcs, hds⟩ := natural?_eq_some_iff.1 h
  obtain ⟨-, hdigits, -⟩ := digits?_eq_some_iff.1 hds
  have hblank : ∀ c ∈ ds, Text.isBlank c = false :=
    fun c hc => Text.isBlank_of_isDigit (hdigits c hc)
  have hsigned : Text.trim cs = cs ∧ signed cs = (false, ds) := by
    rcases hcs with rfl | rfl
    · exact ⟨Text.trim_of_forall hblank, signed_of_isDigit hdigits⟩
    · exact ⟨Text.trim_of_forall (List.forall_mem_cons.2 ⟨by decide, hblank⟩), rfl⟩
  rw [hsigned.1, integer?_eq_some_iff, hsigned.2]
  exact ⟨i, hds, Int64.toInt_ofNat_of_lt hi⟩

/-- An integer without a minus sign is a position. -/
theorem natural?_of_integer? (h : integer? cs = some n) (hminus : cs.head? ≠ some '-') :
    0 ≤ n.toInt ∧ natural? cs = some n.toInt.toNat := by
  obtain ⟨i, hdigits, hn⟩ := integer?_eq_some_iff.1 h
  have hsigned : (signed cs).1 = false ∧ (cs = (signed cs).2 ∨ cs = '+' :: (signed cs).2) := by
    unfold signed
    split
    · exact absurd rfl hminus
    · exact ⟨rfl, .inr rfl⟩
    · exact ⟨rfl, .inl rfl⟩
  rw [hsigned.1] at hn
  have hi : n.toInt.toNat = i := by
    rw [hn]
    rfl
  refine ⟨?_, natural?_eq_some_iff.2 ⟨_, hsigned.2, hi ▸ hdigits⟩⟩
  rw [hn]
  exact Int.natCast_nonneg i

theorem natural?_digitsOf (i : Nat) : natural? (Decimal.digitsOf i) = some i :=
  natural?_eq_some_iff.2 ⟨_, .inl rfl, digits?_eq_some_iff.2
    ⟨digitsOf_ne_nil, fun _ => isDigit_of_mem_digitsOf, digitsValue_digitsOf i⟩⟩

theorem natural?_display (hn : 0 ≤ n.toInt) :
    natural? (int n).display.toList = some n.toInt.toNat := by
  rw [display, Decimal.ofInt, if_neg (Int.not_lt.2 hn), String.toList_ofList, natural?_digitsOf]

end Number

/-! ## Parts under a text -/

namespace Value

variable {t v : Value} {s trail : String} {items : List Value} {n : Int64}

/-- A path of one segment succeeds where the part exists. -/
theorem follow_singleton_eq_ok_iff : t.follow trail [s] = .ok v ↔ t.part? s = some v := by
  rw [follow_eq_ok_iff, leads_cons_iff]
  simp only [leads_nil_iff, exists_eq_right, step_iff]

/-- An index that is not negative counts from the front; beyond the end there is null. -/
theorem itemAt_natCast (items : List Value) (i : Nat) :
    itemAt items i = items[i]?.getD .null := by
  rw [itemAt, if_pos (Int.natCast_nonneg i)]
  rfl

/-- A part that a path reaches is there under its key too. -/
theorem atKey_of_part? (h : t.part? s = some v)
    (hsize : ∀ items, t = .array items → items.length ≤ 2 ^ 63) :
    t.atKey (.string s) = .ok v := by
  cases t with
  | object members =>
    change Table.get? members s = some v at h
    rw [atKey, display, h]
    rfl
  | array items =>
    obtain ⟨i, hi, hitem⟩ := Option.bind_eq_some_iff.1 h
    obtain ⟨hlt, -⟩ := List.getElem?_eq_some_iff.1 hitem
    have hfits : i < 2 ^ 63 := Nat.lt_of_lt_of_le hlt (hsize items rfl)
    have hposition : (Value.string s).position? = some (i : Int) := by
      rw [position?, Number.integer?_of_natural? hi hfits, Option.map_some,
        Int64.toInt_ofNat_of_lt hfits]
    rw [atKey]
    simp only [hposition]
    rw [itemAt_natCast, hitem]
    rfl
  | _ => cases h

theorem eq_some_of_getD_null {o : Option Value} (h : o.getD .null = v) (hv : v ≠ .null) :
    o = some v := by
  cases o with
  | none => exact absurd h.symm hv
  | some w => exact congrArg some h

/-- A part under a key is reached by a path too, if the key is written as a segment would be. -/
theorem part?_of_atKey (h : t.atKey (.string s) = .ok v) (hv : v ≠ .null)
    (htrim : Text.trim s.toList = s.toList) (hminus : s.toList.head? ≠ some '-') :
    t.part? s = some v := by
  cases t with
  | object members => exact eq_some_of_getD_null (Except.ok.inj h) hv
  | array items =>
    rw [atKey, position?, htrim] at h
    cases hinteger : Number.integer? s.toList with
    | none =>
      rw [hinteger] at h
      cases h
    | some n =>
      obtain ⟨hpos, hnatural⟩ := Number.natural?_of_integer? hinteger hminus
      rw [hinteger] at h
      have hitem := eq_some_of_getD_null ((if_pos hpos).symm.trans (Except.ok.inj h)) hv
      rw [part?, hnatural]
      exact hitem
  | _ => cases h

/-- An item of an array is reached by its position as a segment, as an integer and as a text. -/
theorem item_reached (hpos : 0 ≤ n.toInt) (hitem : items[n.toInt.toNat]? = some v) :
    (array items).part? (Number.int n).display = some v ∧
      (array items).atKey (.number (.int n)) = .ok v ∧
      (array items).atKey (.string (Number.int n).display) = .ok v := by
  have hpart : (array items).part? (Number.int n).display = some v := by
    rw [part?, Number.natural?_display hpos]
    exact hitem
  have hvalue : itemAt items n.toInt = v := by
    rw [itemAt, if_pos hpos, hitem]
    rfl
  have hlt : n.toInt.toNat < 2 ^ 63 := by
    have hbound := n.toInt_lt
    omega
  have hposition : (Value.string (Number.int n).display).position? = some n.toInt := by
    rw [position?, Number.integer?_of_natural? (Number.natural?_display hpos) hlt, Option.map_some,
      Int64.toInt_ofNat_of_lt hlt, Int.toNat_of_nonneg hpos]
  refine ⟨hpart, congrArg Except.ok hvalue, ?_⟩
  rw [atKey]
  simp only [hposition]
  exact congrArg Except.ok hvalue

end Value

open Rendering Value

theorem Rendering.ofResult_eq_ok {α : Type} {x : Except RenderError α} {a : α} {r s : Run} :
    ofResult x r = .ok a s ↔ s = r ∧ x = .ok a := by
  constructor
  · intro h
    cases x with
    | ok b =>
      obtain ⟨rfl, rfl⟩ := EStateM.Result.ok.inj h
      exact ⟨rfl, rfl⟩
    | error err => cases h
  · rintro ⟨rfl, rfl⟩
    rfl

namespace Engine

variable {e : Engine} {target key : Node} {container : NodeId} {levels : Nat} {r r₁ r₂ : Run}
  {t v : Value}

/-- An index is evaluated behind its target, in the state that this has left. -/
theorem eval_index_eq {k : Value} (ht : e.eval levels target container r = .ok t r₁)
    (hk : e.eval levels key container r₁ = .ok k r₂) :
    e.eval (levels + 1) (.index target key) container r = ofResult (t.atKey k) r₂ :=
  (bind_of_ok ht).trans (bind_of_ok hk)

/-- A leaf that is no name takes one level of nesting, which is there wherever any node could be
evaluated. -/
theorem eval_literal (ht : e.eval levels target container r = .ok t r₁) {lf : Leaf} {k : Value}
    (hk : e.evalLeaf lf = pure k) : e.eval levels (.leaf lf) container r₁ = .ok k r₁ := by
  cases levels with
  | zero => cases ht
  | succ levels => exact congrFun hk r₁

/-- **Access behind a point and in brackets agree.** What a segment behind a point reaches, its text
in brackets reaches, however the text is computed; a text that is written in the template needs no
further level of nesting. What a text in brackets reaches, other than `null`, it reaches as a
segment behind a point, if there are no blanks around it and no minus sign in front of it. An item
of an array is reached by its position behind a point, and in brackets by its position and by the
text of that. No array holds more than `2 ^ 63` items, as there are no further positions. -/
theorem eval_dotted_bracket (ht : e.eval levels target container r = .ok t r₁)
    (hsize : ∀ items, t = .array items → items.length ≤ 2 ^ 63) :
    (∀ s key r₂, e.eval levels key container r₁ = .ok (.string s) r₂ →
      (∀ v r', e.eval (levels + 1) (.path target [s]) container r = .ok v r' →
        r' = r₁ ∧ e.eval (levels + 1) (.index target key) container r = .ok v r₂) ∧
      ∀ v r', e.eval (levels + 1) (.index target key) container r = .ok v r' → v ≠ .null →
        Text.trim s.toList = s.toList → s.toList.head? ≠ some '-' →
        r' = r₂ ∧ e.eval (levels + 1) (.path target [s]) container r = .ok v r₁) ∧
    (∀ s, e.eval levels (.leaf (.string s)) container r₁ = .ok (.string s) r₁) ∧
    ∀ items (n : Int64) v, t = .array items → 0 ≤ n.toInt → items[n.toInt.toNat]? = some v →
      ∀ access ∈ [Node.path target [(Number.int n).display],
          .index target (.leaf (.number (.number (.int n)))),
          .index target (.leaf (.string (Number.int n).display))],
        e.eval (levels + 1) access container r = .ok v r₁ := by
  have hpath : ∀ s v r', e.eval (levels + 1) (.path target [s]) container r = .ok v r' ↔
      r' = r₁ ∧ t.part? s = some v := by
    intro s v r'
    rw [eval_path_eq [s] ht, ofResult_eq_ok, follow_singleton_eq_ok_iff]
  refine ⟨fun s key r₂ hk => ⟨fun v r' h => ?_, fun v r' h hv htrim hminus => ?_⟩,
    fun s => eval_literal ht rfl, ?_⟩
  · obtain ⟨hr, hpart⟩ := (hpath s v r').1 h
    refine ⟨hr, ?_⟩
    rw [eval_index_eq ht hk, atKey_of_part? hpart hsize]
    rfl
  · rw [eval_index_eq ht hk, ofResult_eq_ok] at h
    exact ⟨h.1, (hpath s v r₁).2 ⟨rfl, part?_of_atKey h.2 hv htrim hminus⟩⟩
  · rintro items n v rfl hpos hitem access haccess
    obtain ⟨hpart, hnumber, hstring⟩ := item_reached hpos hitem
    simp only [List.mem_cons, List.not_mem_nil, or_false] at haccess
    rcases haccess with rfl | rfl | rfl
    · exact (hpath _ v r₁).2 ⟨rfl, hpart⟩
    · rw [eval_index_eq ht (eval_literal ht rfl), hnumber]
      rfl
    · rw [eval_index_eq ht (eval_literal ht rfl), hstring]
      rfl

/-- The second item of a list by `+1`, once as a segment and once as a key that is put together. -/
theorem eval_dotted_bracket_computed :
    let e : Engine := ⟨.standard, [], [], .empty, [], [], .standard⟩
    let list : Value := .array [.null, .string "b"]
    let target : Node := .leaf (.name "list")
    let key : Node := .binary .add (.leaf (.string "+")) (.leaf (.number (.number (.int 1))))
    let r := Run.start [("list", list)] 0
    e.eval 2 target 0 r = .ok list r ∧ e.eval 2 key 0 r = .ok (.string "+1") r ∧
      e.eval 3 (.index target key) 0 r = .ok (.string "b") r ∧
      e.eval 3 (.path target ["+1"]) 0 r = .ok (.string "b") r ∧
      e.eval 3 (.index target (.leaf (.number (.number (.int 1))))) 0 r = .ok (.string "b") r := by
  intro e list target key r
  have htarget : e.eval 2 target 0 r = .ok list r := rfl
  have hkey : e.eval 2 key 0 r = .ok (.string "+1") r := rfl
  have hindex : e.eval 3 (.index target key) 0 r = .ok (.string "b") r := rfl
  have hsize : ∀ items, list = .array items → items.length ≤ 2 ^ 63 := by
    intro items hitems
    rw [← Value.array.inj hitems]
    decide
  obtain ⟨htexts, -, hitems⟩ := eval_dotted_bracket htarget hsize
  obtain ⟨-, hback⟩ := htexts "+1" key r hkey
  exact ⟨htarget, hkey, hindex, (hback _ _ hindex nofun (by decide) (by decide)).2,
    hitems _ 1 _ rfl (by decide) rfl _ (by simp)⟩

end Engine

end Stencil
