import Stencil.Proofs.Reading
/-!
# Following a reading

What a reading leaves where it succeeds, and at the same time what a stricter reading makes of the
same tokens. The stricter one refuses some blocks with the message that they have no end; these
are counted as cuts. It gives the same result as long as their number stands still, and fails once
it has grown. The relation is established step by step, along the steps of the two readings.
-/

namespace Stencil

/-- Whether an error says that a block has no end of its own. -/
def SyntaxError.IsUnclosed (e : SyntaxError) : Prop :=
  e.fault = .unclosedBlock

/-- What is counted of the blocks and branches that a reading passes. -/
structure Tally where
  /-- Elements in whose block the statement around the element finds its end. -/
  cuts : Nat
  /-- Elements whose block has no end of its own. -/
  shorts : Nat
  /-- Branches whose block has an end of its own though their statement has found its end. -/
  extras : Nat

namespace Tally

instance : Zero Tally := ⟨⟨0, 0, 0⟩⟩

instance : Add Tally := ⟨fun x y => ⟨x.cuts + y.cuts, x.shorts + y.shorts, x.extras + y.extras⟩⟩

variable (x y : Tally)

@[simp] theorem cuts_zero : (0 : Tally).cuts = 0 := rfl

@[simp] theorem shorts_zero : (0 : Tally).shorts = 0 := rfl

@[simp] theorem extras_zero : (0 : Tally).extras = 0 := rfl

@[simp] theorem cuts_add : (x + y).cuts = x.cuts + y.cuts := rfl

@[simp] theorem shorts_add : (x + y).shorts = x.shorts + y.shorts := rfl

@[simp] theorem extras_add : (x + y).extras = x.extras + y.extras := rfl

theorem zero_add : 0 + x = x := by
  obtain ⟨a, b, c⟩ := x
  change Tally.mk (0 + a) (0 + b) (0 + c) = _
  rw [Nat.zero_add, Nat.zero_add, Nat.zero_add]

end Tally

namespace Reading

variable {α β σ : Type} {c : Cursor} {k : Tally}

/-- What holds where `r` succeeds: `post` of the new tally, and of the result. The stricter `s`
gives the same result unless there are more cuts. -/
def Follows (k : Tally) (post : Tally → α → Cursor → Prop) (r s : Reading α) (c : Cursor) : Prop :=
  ∀ a c', r c = .ok (a, c') → ∃ k', post k' a c' ∧
    (k'.cuts = k.cuts ∧ s c = .ok (a, c') ∨
      k.cuts < k'.cuts ∧ ∃ e : SyntaxError, e.IsUnclosed ∧ s c = .error e)

namespace Follows

variable {P : Tally → α → Cursor → Prop} {Q : Tally → β → Cursor → Prop} {r s : Reading α}

/-- A step that the readings have in common. -/
theorem same (h : ∀ a c', r c = .ok (a, c') → P k a c') : Follows k P r r c :=
  fun a c' hr => ⟨k, h a c' hr, Or.inl ⟨rfl, hr⟩⟩

theorem pure {a : α} (h : P k a c) : Follows k P (pure a) (pure a) c :=
  same fun _ _ hr => by
    obtain ⟨rfl, rfl⟩ := pure_eq_ok.1 hr
    exact h

theorem failAt {line : Nat} {fault : SyntaxFault} :
    Follows k P (Reading.failAt line fault) s c :=
  fun _ _ hr => absurd hr failAt_ne_ok

theorem fail {fault : SyntaxFault} : Follows k P (Reading.fail fault) s c :=
  fun _ _ hr => absurd hr fail_ne_ok

theorem expected {what : String} : Follows k P (Reading.expected what) s c :=
  fun _ _ hr => absurd hr expected_ne_ok

theorem mono {P' : Tally → α → Cursor → Prop} (h : Follows k P r s c)
    (hP : ∀ k a c', P k a c' → P' k a c') : Follows k P' r s c := by
  intro a c' hr
  obtain ⟨k', hp, hs⟩ := h a c' hr
  exact ⟨k', hP k' a c' hp, hs⟩

/-- Only the cuts of the tally before a reading matter. -/
theorem of_cuts {j : Tally} (hj : j.cuts = k.cuts) (h : Follows j P r s c) : Follows k P r s c := by
  intro a c' hr
  rw [← hj]
  exact h a c' hr

/-- A tally that starts anew goes on from the one before it. -/
theorem from_zero {P' : Tally → α → Cursor → Prop} (h : Follows 0 P r s c)
    (hP : ∀ i a c', P i a c' → P' (k + i) a c') : Follows k P' r s c := by
  intro a c' hr
  obtain ⟨i, hp, ⟨hi, hs⟩ | ⟨hi, hs⟩⟩ := h a c' hr
  · exact ⟨k + i, hP i a c' hp, Or.inl ⟨by simp [hi], hs⟩⟩
  · exact ⟨k + i, hP i a c' hp, Or.inr ⟨by simpa using hi, hs⟩⟩

/-- The second step goes on with the tally of the first one. If that has grown, the stricter reading
has failed already, whatever comes. -/
theorem bind {f g : α → Reading β} (h : Follows k P r s c)
    (hf : ∀ k' a c₁, r c = .ok (a, c₁) → P k' a c₁ → Follows k' Q (f a) (g a) c₁) :
    Follows k Q (r >>= f) (s >>= g) c := by
  intro b c' hb
  obtain ⟨a, c₁, hr, hb⟩ := bind_eq_ok.1 hb
  obtain ⟨k₁, hp, ⟨hk, hs⟩ | ⟨hlt, e, he, hs⟩⟩ := h a c₁ hr
  · obtain ⟨k', hq, hs'⟩ := hf k₁ a c₁ hr hp b c' hb
    refine ⟨k', hq, ?_⟩
    rw [bind_of_ok hs, ← hk]
    exact hs'
  -- the stricter reading has failed here, whatever comes after it
  · obtain ⟨k', hq, ⟨hk', -⟩ | ⟨hlt', -⟩⟩ := hf k₁ a c₁ hr hp b c' hb
    · exact ⟨k', hq, Or.inr ⟨hk' ▸ hlt, e, he, bind_of_error hs⟩⟩
    · exact ⟨k', hq, Or.inr ⟨Nat.lt_trans hlt hlt', e, he, bind_of_error hs⟩⟩

/-- What follows a common step whose only result is known. -/
theorem after {f g : α → Reading β} {a : α} {c₁ : Cursor} (hr : r c = .ok (a, c₁))
    (h : Follows k Q (f a) (g a) c₁) : Follows k Q (r >>= f) (r >>= g) c := by
  intro b c' hb
  rw [bind_of_ok hr] at hb ⊢
  exact h b c' hb

/-- What follows a common step that may fail. -/
theorem step {f g : α → Reading β}
    (h : ∀ a c₁, r c = .ok (a, c₁) → Follows k Q (f a) (g a) c₁) :
    Follows k Q (r >>= f) (r >>= g) c :=
  .bind (P := fun k' a c₁ => k' = k ∧ r c = .ok (a, c₁)) (.same fun _ _ hr => ⟨rfl, hr⟩)
    fun _ a c₁ hr hp => hp.1 ▸ h a c₁ hr

theorem get {f g : Cursor → Reading β} (h : Follows k Q (f c) (g c) c) :
    Follows k Q (get >>= f) (get >>= g) c :=
  .after get_apply h

theorem ite {p : Prop} [Decidable p] {r' s' : Reading α} (h : p → Follows k P r s c)
    (h' : ¬p → Follows k P r' s' c) :
    Follows k P (if p then r else r') (if p then s else s') c := by
  by_cases hp : p
  · rw [if_pos hp, if_pos hp]
    exact h hp
  · rw [if_neg hp, if_neg hp]
    exact h' hp

/-- A check that fails, in front of what follows. -/
theorem check {p : Prop} [Decidable p] {line : Nat} {fault : SyntaxFault} {f g : Unit → Reading β}
    (h : ¬p → Follows k Q (f ()) (g ()) c) :
    Follows k Q (if p then Reading.failAt line fault >>= f else f ())
      (if p then Reading.failAt line fault >>= g else g ()) c :=
  .ite (fun _ => .step fun _ _ hr => absurd hr failAt_ne_ok) h

/-- A loop keeps what each of its turns keeps, for any number of turns. -/
theorem turns {turn turn' : σ → Reading (σ ⊕ β)} {I : Tally → σ → Cursor → Prop}
    (next : ∀ k s c, I k s c →
      Follows k (fun k x c' => Sum.elim (I k · c') (Q k · c') x) (turn s) (turn' s) c)
    (n : Nat) {s : σ} (start : I k s c) :
    Follows k Q (Reading.turns turn n s) (Reading.turns turn' n s) c := by
  induction n generalizing k s c with
  | zero => exact .fail
  | succ n ih =>
    refine .bind (next k s c start) fun k₁ x c₁ _ hx => ?_
    cases x with
    | inl s' => exact ih hx
    | inr b => exact .pure hx

/-- The same for a loop, whose turns are as many as there are tokens left. -/
theorem loop {turn turn' : σ → Reading (σ ⊕ β)} {I : Tally → σ → Cursor → Prop}
    (next : ∀ k s c, I k s c →
      Follows k (fun k x c' => Sum.elim (I k · c') (Q k · c') x) (turn s) (turn' s) c)
    {s : σ} (start : I k s c) : Follows k Q (Reading.loop turn s) (Reading.loop turn' s) c :=
  turns next _ start

end Follows

end Reading

end Stencil
