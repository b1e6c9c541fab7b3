import Mathlib.Data.String.Basic
import Stencil.Text.Blank
/-!
# Texts as bytes

The bytes of a text in UTF-8. Texts stand in the order of their bytes as they stand in the order of
their characters. A text can be cut at the positions between its characters and at no other ones;
behind digits at its head there is such a position, and it is found by looking at bytes alone.
-/

namespace Stencil

namespace Text

/-- The bytes of a text. -/
def bytes (cs : List Char) : List UInt8 :=
  cs.flatMap String.utf8EncodeChar

variable {c d : Char} {cs ds front back : List Char}

theorem bytes_cons : bytes (c :: cs) = String.utf8EncodeChar c ++ bytes cs :=
  List.flatMap_cons

theorem bytes_append : bytes (cs ++ ds) = bytes cs ++ bytes ds :=
  List.flatMap_append

/-! ## Order -/

theorem toNat_byte {n : Nat} (h : n < 256) : (UInt8.ofNat n).toNat = n := by
  rw [UInt8.toNat_ofNat', Nat.mod_eq_of_lt h]

theorem cons_byte_lt_iff {m n : Nat} {x y : List UInt8} (hm : m < 256) (hn : n < 256) :
    UInt8.ofNat m :: x < UInt8.ofNat n :: y ↔ m < n ∨ m = n ∧ x < y := by
  rw [List.cons_lt_cons_iff, UInt8.lt_iff_toNat_lt, ← UInt8.toNat_inj, toNat_byte hm,
    toNat_byte hn]

theorem toNat_val_lt (c : Char) : c.val.toNat < 0x110000 := by
  have hvalid : c.val.toNat < 0xd800 ∨ 0xdfff < c.val.toNat ∧ c.val.toNat < 0x110000 := c.valid
  omega

/-- Of two characters the smaller one has the smaller bytes, whatever follows. -/
theorem utf8EncodeChar_append_lt (h : c < d) (x y : List UInt8) :
    String.utf8EncodeChar c ++ x < String.utf8EncodeChar d ++ y := by
  have hlt : c.val.toNat < d.val.toNat := h
  have hc := toNat_val_lt c
  have hd := toNat_val_lt d
  -- the digits of a code point to the base 64 are found one from the other
  have hsecond : ∀ n : Nat, n / 4096 = n / 64 / 64 :=
    fun n => (Nat.div_div_eq_div_mul n 64 64).symm
  have hthird : ∀ n : Nat, n / 262144 = n / 64 / 64 / 64 := fun n => by
    rw [Nat.div_div_eq_div_mul, Nat.div_div_eq_div_mul]
  simp only [String.utf8EncodeChar, hsecond, hthird]
  generalize c.val.toNat = m at *
  generalize d.val.toNat = n at *
  -- a character with more bytes has the greater first byte
  split_ifs
  all_goals try omega
  all_goals
    simp (disch := omega) only [List.cons_append, List.nil_append, cons_byte_lt_iff]
    omega

theorem bytes_lt (h : cs < ds) : bytes cs < bytes ds := by
  induction cs generalizing ds with
  | nil =>
    cases ds with
    | nil => exact absurd h (List.not_lt_nil _)
    | cons d ds =>
      obtain ⟨b, bs, hb⟩ := List.exists_cons_of_ne_nil (String.utf8EncodeChar_ne_nil (c := d))
      rw [bytes_cons, hb]
      exact List.nil_lt_cons _ _
  | cons c cs ih =>
    cases ds with
    | nil => exact absurd h (List.not_lt_nil _)
    | cons d ds =>
      rw [bytes_cons, bytes_cons]
      rcases List.cons_lt_cons_iff.1 h with hlt | ⟨rfl, hlt⟩
      · exact utf8EncodeChar_append_lt hlt _ _
      · exact List.append_left_lt (ih hlt)

/-- **The order of texts is the order of their bytes.** -/
theorem bytes_lt_iff : bytes cs < bytes ds ↔ cs < ds := by
  refine ⟨fun h => ?_, bytes_lt⟩
  rcases lt_trichotomy cs ds with hlt | rfl | hlt
  · exact hlt
  · exact absurd h (List.lt_irrefl _)
  · exact absurd (List.lt_trans h (bytes_lt hlt)) (List.lt_irrefl _)

/-! ## Cuts -/

/-- A text cut at a position in its bytes; none inside a character and behind the end. -/
def cut? : List Char → Nat → Option (List Char × List Char)
  | cs, 0 => some ([], cs)
  | [], _ + 1 => none
  | c :: cs, n + 1 =>
    if c.utf8Size ≤ n + 1 then (cut? cs (n + 1 - c.utf8Size)).map fun p => (c :: p.1, p.2)
    else none

theorem length_bytes_cons : (bytes (c :: cs)).length = c.utf8Size + (bytes cs).length := by
  rw [bytes_cons, List.length_append, String.length_utf8EncodeChar]

/-- Cuts are made between characters. -/
theorem cut?_eq_some_iff {n : Nat} :
    cut? cs n = some (front, back) ↔ cs = front ++ back ∧ (bytes front).length = n := by
  fun_induction cut? cs n generalizing front with
  | case1 cs =>
    constructor
    · intro h
      obtain ⟨rfl, rfl⟩ := Prod.mk.inj (Option.some.inj h)
      exact ⟨rfl, rfl⟩
    · rintro ⟨rfl, hlen⟩
      cases front with
      | nil => rfl
      | cons c front =>
        rw [length_bytes_cons] at hlen
        have hpos := c.utf8Size_pos
        omega
  | case2 n =>
    refine ⟨nofun, fun ⟨hnil, hlen⟩ => ?_⟩
    rw [(List.append_eq_nil_iff.1 hnil.symm).1] at hlen
    cases hlen
  | case3 c cs n hle ih =>
    rw [Option.map_eq_some_iff]
    constructor
    · rintro ⟨⟨rest, _⟩, hrest, heq⟩
      cases heq
      obtain ⟨rfl, hlen⟩ := ih.1 hrest
      refine ⟨rfl, ?_⟩
      simp only [length_bytes_cons, hlen]
      omega
    · rintro ⟨hcons, hlen⟩
      cases front with
      | nil => cases hlen
      | cons d front =>
        obtain ⟨rfl, rfl⟩ := List.cons.inj hcons
        rw [length_bytes_cons] at hlen
        exact ⟨(front, back), ih.2 ⟨rfl, by omega⟩, rfl⟩
  -- a position inside of a character cuts nothing, and no front has such a length
  | case4 c cs n hlt =>
    refine ⟨nofun, fun ⟨hcons, hlen⟩ => ?_⟩
    cases front with
    | nil => cases hlen
    | cons d front =>
      obtain ⟨rfl, -⟩ := List.cons.inj hcons
      rw [length_bytes_cons] at hlen
      omega

/-! ## Digits -/

/-- Whether a byte is a digit. -/
def isDigitByte (b : UInt8) : Bool :=
  48 ≤ b.toNat && b.toNat ≤ 57

theorem utf8EncodeChar_digit (c : Char) : ∃ b bs, String.utf8EncodeChar c = b :: bs ∧
    isDigitByte b = c.isDigit ∧ (c.isDigit = true → bs = []) := by
  have hdigit : c.isDigit = (48 ≤ c.val.toNat && c.val.toNat ≤ 57) := by
    rw [Char.isDigit]
    rfl
  have hc := toNat_val_lt c
  rw [hdigit]
  simp only [String.utf8EncodeChar]
  generalize c.val.toNat = n at *
  split_ifs
  · exact ⟨_, _, rfl, by rw [isDigitByte, toNat_byte (by omega)], fun _ => rfl⟩
  -- the first of several bytes is none of a digit
  all_goals
    refine ⟨_, _, rfl, ?_, ?_⟩
    · rw [isDigitByte, toNat_byte (by omega)]
      grind
    · grind

/-- The digits at the head of a text are the digits at the head of its bytes. -/
theorem takeWhile_isDigitByte (cs : List Char) :
    (bytes cs).takeWhile isDigitByte = bytes (cs.takeWhile Char.isDigit) := by
  induction cs with
  | nil => rfl
  | cons c cs ih =>
    obtain ⟨b, bs, hencode, hb, hbs⟩ := utf8EncodeChar_digit c
    rw [bytes_cons, hencode, List.cons_append, List.takeWhile_cons, List.takeWhile_cons, hb]
    cases hc : c.isDigit with
    | true =>
      rw [hbs hc] at hencode ⊢
      simp only [if_true, List.nil_append, ih, bytes_cons, hencode, List.cons_append]
    | false => rfl

/-- The number of bytes that the digits at the head of a text take. -/
def digitBytes (cs : List Char) : Nat :=
  ((bytes cs).takeWhile isDigitByte).length

theorem digitBytes_eq (cs : List Char) :
    digitBytes cs = (bytes (cs.takeWhile Char.isDigit)).length := by
  rw [digitBytes, takeWhile_isDigitByte]

theorem cut?_append (front back : List Char) :
    cut? (front ++ back) (bytes front).length = some (front, back) :=
  cut?_eq_some_iff.2 ⟨rfl, rfl⟩

end Text

end Stencil
