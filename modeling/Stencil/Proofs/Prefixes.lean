import Stencil.Proofs.Bytes
import Stencil.Proofs.Calculating
import Stencil.Value.Collection
/-!
# Numbers at the head of a text

Which texts are read as numbers, and as which ones. What counts is the sign, the digits behind it,
and the digits behind a point that follows these at once; what comes after them is ignored, except
that a point anywhere makes the number a floating-point number. The number can also be cut out by
positions in the bytes of the text, since none of these positions is inside a character.
-/

namespace Stencil

namespace Number

variable {t cs sign ds fs rest r : List Char} {text : String}

/-! ## The head of a text -/

/-- Digits that go as far as they can before the rest of a text. -/
structure IsRun (ds rest : List Char) : Prop where
  digits : ∀ c ∈ ds, c.isDigit = true
  stops : ∀ c ∈ rest.head?, c.isDigit = false

/-- How a text begins: with one sign, if there is any, then digits as far as they go, and then,
behind a point that follows at once, again digits as far as they go. -/
structure Begins (t sign ds fs : List Char) : Prop where
  oneSign : sign = ['-'] ∨ sign = ['+'] ∨ sign = [] ∧ t.head? ≠ some '-' ∧ t.head? ≠ some '+'
  digits : ∃ rest, t = sign ++ (ds ++ rest) ∧ IsRun ds rest ∧
    ((∃ r, rest = '.' :: (fs ++ r) ∧ IsRun fs r) ∨ rest.head? ≠ some '.' ∧ fs = [])

theorem isRun_leadingDigits (cs : List Char) :
    IsRun (leadingDigits cs) (cs.dropWhile Char.isDigit) := by
  refine ⟨fun c hc => List.mem_takeWhile_imp hc, fun c hc => ?_⟩
  have hne : cs.dropWhile Char.isDigit ≠ [] := fun hnil => by rw [hnil] at hc; cases hc
  rw [List.head?_eq_some_head hne, Option.mem_some_iff] at hc
  exact hc ▸ Bool.not_eq_true _ ▸ List.head_dropWhile_not _ hne

theorem leadingDigits_append_dropWhile (cs : List Char) :
    leadingDigits cs ++ cs.dropWhile Char.isDigit = cs :=
  List.takeWhile_append_dropWhile

namespace IsRun

/-- A run of digits before a rest that begins with none is what is read. -/
theorem leadingDigits_append (h : IsRun ds rest) : leadingDigits (ds ++ rest) = ds := by
  rw [leadingDigits, List.takeWhile_append_of_pos h.digits]
  cases rest with
  | nil => rw [List.takeWhile_nil, List.append_nil]
  | cons c rest =>
    rw [List.takeWhile_cons_of_neg (by rw [h.stops c rfl]; exact Bool.false_ne_true),
      List.append_nil]

theorem dropWhile_append (h : IsRun ds rest) : (ds ++ rest).dropWhile Char.isDigit = rest := by
  rw [List.dropWhile_append_of_pos h.digits]
  cases rest with
  | nil => rfl
  | cons c rest =>
    exact List.dropWhile_cons_of_neg (by rw [h.stops c rfl]; exact Bool.false_ne_true)

/-- Behind a point that follows the run at once, digits are read again. -/
theorem fractionDigits_point (h : IsRun ds ('.' :: r)) :
    fractionDigits (ds ++ '.' :: r) = leadingDigits r := by
  rw [fractionDigits, h.dropWhile_append]
  rfl

/-- Without such a point there are no digits of a fraction. -/
theorem fractionDigits_of_ne (h : IsRun ds rest) (hpoint : rest.head? ≠ some '.') :
    fractionDigits (ds ++ rest) = [] := by
  rw [fractionDigits, h.dropWhile_append]
  split
  · exact absurd rfl hpoint
  · rfl

end IsRun

/-- A text that begins with neither sign counts as positive. -/
theorem signed_of_ne (hminus : cs.head? ≠ some '-') (hplus : cs.head? ≠ some '+') :
    signed cs = (false, cs) := by
  unfold signed
  split
  · exact absurd rfl hminus
  · exact absurd rfl hplus
  · rfl

/-- What is read of a text is how it begins. -/
theorem Begins.reads (h : Begins t sign ds fs) : ∃ body,
    signed t = (decide (sign = ['-']), body) ∧ leadingDigits body = ds ∧
      fractionDigits body = fs := by
  obtain ⟨rest, rfl, hrun, hfraction⟩ := h.digits
  refine ⟨ds ++ rest, ?_, hrun.leadingDigits_append, ?_⟩
  · rcases h.oneSign with rfl | rfl | ⟨rfl, hminus, hplus⟩
    · rfl
    · rfl
    · exact signed_of_ne hminus hplus
  · rcases hfraction with ⟨r, rfl, hfs⟩ | ⟨hpoint, rfl⟩
    · rw [hrun.fractionDigits_point, hfs.leadingDigits_append]
    · exact hrun.fractionDigits_of_ne hpoint

/-- Every text begins in some way. -/
theorem exists_begins (t : List Char) : ∃ sign ds fs, Begins t sign ds fs := by
  obtain ⟨sign, body, rfl, hsign⟩ : ∃ sign body, t = sign ++ body ∧
      (sign = ['-'] ∨ sign = ['+'] ∨
        sign = [] ∧ t.head? ≠ some '-' ∧ t.head? ≠ some '+') := by
    by_cases hminus : t.head? = some '-'
    · obtain ⟨body, rfl⟩ := List.head?_eq_some_iff.1 hminus
      exact ⟨['-'], body, rfl, .inl rfl⟩
    by_cases hplus : t.head? = some '+'
    · obtain ⟨body, rfl⟩ := List.head?_eq_some_iff.1 hplus
      exact ⟨['+'], body, rfl, .inr (.inl rfl)⟩
    exact ⟨[], t, rfl, .inr (.inr ⟨rfl, hminus, hplus⟩)⟩
  have hbody := leadingDigits_append_dropWhile body
  have hrun := isRun_leadingDigits body
  generalize leadingDigits body = ds at *
  generalize body.dropWhile Char.isDigit = rest at *
  subst hbody
  by_cases hpoint : rest.head? = some '.'
  · obtain ⟨r, rfl⟩ := List.head?_eq_some_iff.1 hpoint
    refine ⟨sign, ds, leadingDigits r, hsign, _, rfl, hrun, .inl ⟨_, ?_, isRun_leadingDigits r⟩⟩
    rw [leadingDigits_append_dropWhile]
  · exact ⟨sign, ds, [], hsign, rest, rfl, hrun, .inr ⟨hpoint, rfl⟩⟩

/-! ## Cutting by bytes -/

/-- Where the number at the head of a text without a sign ends in the bytes of the text, with a
point in it or without; `none` if a position were inside a character. -/
def endOf? (point : Bool) (body : List Char) : Option Nat := do
  let stop := Text.digitBytes body
  if point then
    let (_, behind) ← Text.cut? body stop
    if behind.head? = some '.' then
      let (_, fraction) ← Text.cut? body (stop + 1)
      return stop + 1 + Text.digitBytes fraction
    else return stop
  else return stop

/-- The number at the head of a text, cut out by positions in its bytes. -/
def cutOut? (text : List Char) : Option (Option Number) := do
  let trimmed := Text.trim text
  let (negative, body) := signed trimmed
  let point := decide ('.' ∈ trimmed)
  let (number, _) ← Text.cut? body (← endOf? point body)
  return if point then floatOfDigits? negative (leadingDigits number) (fractionDigits number)
    else intOfDigits? negative (leadingDigits number)

/-- The end of the number is between two characters, and what stands before it has all of its
digits. -/
theorem endOf?_eq (point : Bool) (body : List Char) : ∃ number behind, body = number ++ behind ∧
    endOf? point body = some (Text.bytes number).length ∧
    leadingDigits number = leadingDigits body ∧
    (point = true → fractionDigits number = fractionDigits body) := by
  have hbody := leadingDigits_append_dropWhile body
  have hrun := isRun_leadingDigits body
  have hstop : Text.digitBytes body = (Text.bytes (leadingDigits body)).length :=
    Text.digitBytes_eq body
  generalize leadingDigits body = ds at *
  generalize body.dropWhile Char.isDigit = rest at *
  subst hbody
  have hds : IsRun ds [] := ⟨hrun.digits, nofun⟩
  have hwhole : leadingDigits ds = ds := by simpa using hds.leadingDigits_append
  have hnone : fractionDigits ds = [] := by simpa using hds.fractionDigits_of_ne nofun
  simp only [endOf?, hstop, Text.cut?_append]
  cases point with
  | false => exact ⟨ds, rest, rfl, rfl, hwhole, nofun⟩
  | true =>
    by_cases hpoint : rest.head? = some '.'
    · obtain ⟨r, rfl⟩ := List.head?_eq_some_iff.1 hpoint
      -- the point is one byte
      have hcut : Text.cut? (ds ++ '.' :: r) ((Text.bytes ds).length + 1) =
          some (ds ++ ['.'], r) := by
        refine Text.cut?_eq_some_iff.2 ⟨by simp, ?_⟩
        rw [Text.bytes_append, List.length_append]
        rfl
      have hr := leadingDigits_append_dropWhile r
      have hnumber : IsRun ds ('.' :: leadingDigits r) := ⟨hrun.digits, hrun.stops⟩
      have hfraction : IsRun (leadingDigits r) [] := ⟨(isRun_leadingDigits r).digits, nofun⟩
      refine ⟨ds ++ '.' :: leadingDigits r, r.dropWhile Char.isDigit, ?_, ?_,
        hnumber.leadingDigits_append, fun _ => ?_⟩
      · rw [List.append_assoc, List.cons_append, hr]
      · have hlength : (Text.bytes (ds ++ '.' :: leadingDigits r)).length =
            (Text.bytes ds).length + 1 + Text.digitBytes r := by
          rw [Text.bytes_append, List.length_append, Text.length_bytes_cons, Text.digitBytes_eq,
            Nat.add_assoc]
          rfl
        rw [hlength]
        simp [hcut]
      · rw [hnumber.fractionDigits_point, hrun.fractionDigits_point]
        simpa using hfraction.leadingDigits_append
    · refine ⟨ds, rest, rfl, ?_, hwhole, fun _ => ?_⟩
      · simp [hpoint]
      · rw [hnone, hrun.fractionDigits_of_ne hpoint]

/-- **No cut is inside a character**, and the number that is cut out is the number that is read. -/
theorem cutOut?_eq (text : List Char) : cutOut? text = some (ofText? text) := by
  obtain ⟨number, behind, hbody, hend, hdigits, hfraction⟩ :=
    endOf?_eq (decide ('.' ∈ Text.trim text)) (signed (Text.trim text)).2
  have hcut : Text.cut? (signed (Text.trim text)).2 (Text.bytes number).length =
      some (number, behind) := hbody ▸ Text.cut?_append number behind
  rw [cutOut?, ofText?]
  simp only [hend, Option.bind_eq_bind, Option.bind_some, hcut, hdigits]
  by_cases hpoint : '.' ∈ Text.trim text
  · simp [hpoint, hfraction]
  · simp [hpoint]

/-! ## The number that is read -/

/-- The integer with these digits behind this sign. -/
def signedValue (sign ds : List Char) : Int :=
  if sign = ['-'] then -Nat.ofDigitChars 10 ds 0 else Nat.ofDigitChars 10 ds 0

/-- The floating-point number with these digits before and behind its point, behind this sign. -/
def signedFloat (sign ds fs : List Char) : Float :=
  let x := Float.ofScientific (Nat.ofDigitChars 10 (ds ++ fs) 0) true fs.length
  if sign = ['-'] then -x else x

/-- A point anywhere in the text decides for a floating-point number; otherwise only the head of the
text counts. -/
theorem ofText?_of_begins (h : Begins (Text.trim t) sign ds fs) :
    ofText? t =
      if '.' ∈ Text.trim t then floatOfDigits? (decide (sign = ['-'])) ds fs
      else intOfDigits? (decide (sign = ['-'])) ds := by
  obtain ⟨body, hsigned, hdigits, hfraction⟩ := h.reads
  simp only [ofText?, hsigned, hdigits, hfraction]

/-- There must be a digit, and the value must fit. -/
theorem intOfDigits?_eq : intOfDigits? (decide (sign = ['-'])) ds =
    if ds = [] then none else (fit? (signedValue sign ds)).map int := by
  simp only [intOfDigits?, List.isEmpty_iff, decide_eq_true_eq, signedValue, digitsValue,
    Nat.ofDigitChars_eq_foldl]

/-- There must be a digit on one side of the point. -/
theorem floatOfDigits?_eq : floatOfDigits? (decide (sign = ['-'])) ds fs =
    if ds = [] ∧ fs = [] then none else some (float (signedFloat sign ds fs)) := by
  simp only [floatOfDigits?, Bool.and_eq_true, List.isEmpty_iff, decide_eq_true_eq, signedFloat,
    digitsValue, Nat.ofDigitChars_eq_foldl]

theorem fit?_eq_none_iff {i : Int} : fit? i = none ↔ ¬(-2 ^ 63 ≤ i ∧ i < 2 ^ 63) := by
  have hrange : Int64.minValue.toInt = -2 ^ 63 ∧ Int64.maxValue.toInt = 2 ^ 63 - 1 := by decide
  rw [fit?, hrange.1, hrange.2]
  split
  · simp only [reduceCtorEq, false_iff]
    omega
  · simp only [true_iff]
    omega

end Number

namespace Value

open Number

/-- **The number of a text is what its head is.** Every text begins with a sign, digits, and digits
behind a point, each of them perhaps missing. A text without a point anywhere is an integer if it
has digits and these are in range, and a text with a point is a floating-point number if there are
digits on one side of the point in its place; any other text is an error. Positions in the bytes of
the text are enough to find the number, for none of them is inside a character. An integer is read
from the text that shows it. -/
theorem numberOfText_reads_head (text : String) :
    (∃ sign ds fs, Begins (Text.trim text.toList) sign ds fs) ∧
    (∀ sign ds fs, Begins (Text.trim text.toList) sign ds fs →
      ('.' ∉ Text.trim text.toList →
        (ds ≠ [] ∧ -2 ^ 63 ≤ signedValue sign ds ∧ signedValue sign ds < 2 ^ 63 →
          ∃ n : Int64, n.toInt = signedValue sign ds ∧ numberOfText text = .ok (.int n)) ∧
        (¬(ds ≠ [] ∧ -2 ^ 63 ≤ signedValue sign ds ∧ signedValue sign ds < 2 ^ 63) →
          numberOfText text = .error (.invalidNumber text))) ∧
      ('.' ∈ Text.trim text.toList →
        (ds ≠ [] ∨ fs ≠ [] → numberOfText text = .ok (.float (signedFloat sign ds fs))) ∧
        (ds = [] ∧ fs = [] → numberOfText text = .error (.invalidNumber text)))) ∧
    cutOut? text.toList = some (ofText? text.toList) ∧
    ∀ n : Int64, numberOfText (Number.int n).display = .ok (.int n) := by
  refine ⟨exists_begins _, fun sign ds fs h => ?_, cutOut?_eq _, fun n => ?_⟩
  · have hread := ofText?_of_begins h
    refine ⟨fun hpoint => ?_, fun hpoint => ?_⟩
    · rw [if_neg hpoint, intOfDigits?_eq] at hread
      refine ⟨fun ⟨hds, hrange⟩ => ?_, fun hnot => ?_⟩
      · obtain ⟨n, hn⟩ := Option.ne_none_iff_exists'.1 fun hnone => fit?_eq_none_iff.1 hnone hrange
        rw [if_neg hds, hn] at hread
        refine ⟨n, fit?_eq_some_iff.1 hn, ?_⟩
        rw [numberOfText, hread]
        rfl
      · have hnone : ofText? text.toList = none := by
          by_cases hds : ds = []
          · rw [hread, if_pos hds]
          · rw [hread, if_neg hds, fit?_eq_none_iff.2 fun hrange => hnot ⟨hds, hrange⟩]
            rfl
        rw [numberOfText, hnone]
    · rw [if_pos hpoint, floatOfDigits?_eq] at hread
      refine ⟨fun hsome => ?_, fun hnone => ?_⟩
      · rw [if_neg fun hnil => hsome.elim (· hnil.1) (· hnil.2)] at hread
        rw [numberOfText, hread]
      · rw [if_pos hnone] at hread
        rw [numberOfText, hread]
  · rw [numberOfText, ofText?_display]

/-- An integer behind blanks and a sign, with more than a number behind it, and a number whose only
digits stand behind its point. -/
theorem numberOfText_reads_head_pixels :
    Begins (Text.trim " -12px".toList) ['-'] ['1', '2'] [] ∧
      numberOfText " -12px" = .ok (.int (-12)) ∧
      Begins (Text.trim "+.5é".toList) ['+'] [] ['5'] ∧
      numberOfText "+.5é" = .ok (.float 0.5) := by
  have hpixels : Begins (Text.trim " -12px".toList) ['-'] ['1', '2'] [] := by
    have hrun : IsRun ['1', '2'] ['p', 'x'] :=
      ⟨List.all_eq_true.1 rfl, fun c hc => Option.mem_some_iff.1 hc ▸ rfl⟩
    exact ⟨.inl rfl, ['p', 'x'], by decide +kernel, hrun, .inr (by decide)⟩
  have hhalf : Begins (Text.trim "+.5é".toList) ['+'] [] ['5'] := by
    have hfront : IsRun [] ['.', '5', 'é'] :=
      ⟨fun c hc => absurd hc List.not_mem_nil, fun c hc => Option.mem_some_iff.1 hc ▸ rfl⟩
    have hbehind : IsRun ['5'] ['é'] :=
      ⟨List.all_eq_true.1 rfl, fun c hc => Option.mem_some_iff.1 hc ▸ rfl⟩
    exact ⟨.inr (.inl rfl), ['.', '5', 'é'], by decide +kernel, hfront, .inl ⟨['é'], rfl, hbehind⟩⟩
  obtain ⟨hint, -⟩ := (numberOfText_reads_head " -12px").2.1 _ _ _ hpixels
  obtain ⟨-, hfloat⟩ := (numberOfText_reads_head "+.5é").2.1 _ _ _ hhalf
  obtain ⟨n, hn, hread⟩ := (hint (by decide +kernel)).1 (by decide)
  refine ⟨hpixels, ?_, hhalf, ?_⟩
  · have heq : n = -12 := Int64.toInt_inj.1 (hn.trans (by decide))
    rw [hread, heq]
  · have hvalue : signedFloat ['+'] [] ['5'] = 0.5 := by decide +kernel
    rw [(hfloat (by decide +kernel)).1 (by decide), hvalue]

end Value

end Stencil
