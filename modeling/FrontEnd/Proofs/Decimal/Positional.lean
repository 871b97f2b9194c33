import FrontEnd.Proofs.Token.Spelled
import Mathlib.Data.Nat.Digits.Defs

set_option autoImplicit false

/-! # The numbers that digits stand for

The digits of a whole number are read as the number they stand for to their base (`positional`), which
is a value if it fits into 64 bits (`HasValue`). Digits with a fraction or an exponent
(`IsFloatText`) are always read as a floating-point number.

The digits are read from the left, one after the other, with what was read so far multiplied by the
base; `positional` is the sum over the places of the digits from the right. The two meet in one
induction over the digits, for any base (`appendDigits?_eq`).
-/

namespace FrontEnd

/-- The place of a digit among the digits to base sixteen, in upper or lower case. -/
def digitPlace (c : Char) : Nat := "0123456789abcdef".toList.idxOf c.toLower

/-- The number that digits stand for, the first of them the most significant. -/
def positional (base : Nat) (digits : List Char) : Nat :=
  Nat.ofDigits base (digits.reverse.map digitPlace)

/-- The value of a number: the number itself if it fits into 64 bits, and none otherwise. There is
no third possibility, so the digits decide which of the two it is. -/
def HasValue (n : Nat) (value : Option Numeral) : Prop :=
  (∃ v : UInt64, v.toNat = n ∧ value = some (.int v)) ∨ 2 ^ 64 ≤ n ∧ value = none

/-! ## Whole numbers

Three tests of a character have to agree: that it belongs to the class of digits, that it has a
value, and that its place among all digits is this value. -/

/-- A character is read as a digit to a base. The scanner tests characters by their class, the reader
asks for their value, and `positional` for their place; here the last two agree. -/
def IsDigitTo (base : Nat) (c : Char) : Prop :=
  digitValue? c = some (digitPlace c) ∧ digitPlace c < base

theorem isDigitTo_of_isHexDigit {c : Char} (hc : isHexDigit c = true) : IsDigitTo 16 c := by
  have hascii : ∀ n < 128, isHexDigit (Char.ofNat n) = true →
      digitValue? (Char.ofNat n) = some (digitPlace (Char.ofNat n)) ∧
        digitPlace (Char.ofNat n) < 16 := by decide +kernel
  have hlt : c.toNat < 128 := by
    have hnine : '9'.toNat < 128 ∧ 'f'.toNat < 128 ∧ 'F'.toNat < 128 := by decide
    have hle {d : Char} (h : c ≤ d) : c.toNat ≤ d.toNat := h
    simp only [isHexDigit, Char.isDigit, Bool.or_eq_true, Bool.and_eq_true, decide_eq_true_eq,
      ge_iff_le] at hc
    rcases hc with (⟨-, h⟩ | ⟨-, h⟩) | ⟨-, h⟩
    · have := hle (d := '9') h
      omega
    · have := hle h
      omega
    · have := hle h
      omega
  have hdigit := hascii c.toNat hlt
  rw [Char.ofNat_toNat] at hdigit
  exact hdigit hc

theorem isHexDigit_of_isDigit {c : Char} (hc : c.isDigit = true) : isHexDigit c = true := by
  rw [isHexDigit, hc]
  rfl

theorem isDigit_of_isOctalDigit {c : Char} (hc : isOctalDigit c = true) : c.isDigit = true := by
  simp only [isOctalDigit, Bool.and_eq_true, decide_eq_true_eq] at hc
  have hseven : c.toNat ≤ '7'.toNat := hc.2
  exact Char.isDigit_iff_toNat.mpr ⟨hc.1, Nat.le_trans hseven (by decide)⟩

/-- The place of a digit is counted from zero. -/
theorem digitPlace_of_isDigit {c : Char} (hc : c.isDigit = true) :
    digitPlace c = c.toNat - '0'.toNat := by
  have hplace := (isDigitTo_of_isHexDigit (isHexDigit_of_isDigit hc)).1
  rw [(digitValue?_of_isDigit hc).1] at hplace
  exact (Option.some.inj hplace).symm

theorem isDigitTo_of_isDigit {c : Char} (hc : c.isDigit = true) : IsDigitTo 10 c := by
  refine ⟨(isDigitTo_of_isHexDigit (isHexDigit_of_isDigit hc)).1, ?_⟩
  rw [digitPlace_of_isDigit hc]
  exact (digitValue?_of_isDigit hc).2

theorem isDigitTo_of_isOctalDigit {c : Char} (hc : isOctalDigit c = true) : IsDigitTo 8 c := by
  have hdigit := isDigit_of_isOctalDigit hc
  have hseven : '7'.toNat = 55 ∧ '0'.toNat = 48 := ⟨rfl, rfl⟩
  simp only [isOctalDigit, Bool.and_eq_true, decide_eq_true_eq] at hc
  have hle : c.toNat ≤ '7'.toNat := hc.2
  refine ⟨(isDigitTo_of_isDigit hdigit).1, ?_⟩
  rw [digitPlace_of_isDigit hdigit]
  omega

section

variable {base : Nat} {digits : List Char}

/-- Digits behind the digits of `n` move it to the left. -/
theorem appendDigits?_eq (h : ∀ c ∈ digits, IsDigitTo base c) (n : Nat) :
    appendDigits? base n digits = some (base ^ digits.length * n + positional base digits) := by
  induction digits generalizing n with
  | nil => simp [appendDigits?, positional]
  | cons c digits ih =>
      obtain ⟨hvalue, hlt⟩ := h c List.mem_cons_self
      have hrest := ih (fun d hd => h d (List.mem_cons_of_mem _ hd)) (n * base + digitPlace c)
      have hpositional : positional base (c :: digits) =
          positional base digits + base ^ digits.length * digitPlace c := by
        rw [positional, List.reverse_cons, List.map_append, Nat.ofDigits_append]
        simp [positional]
      rw [appendDigits?, hvalue]
      dsimp only
      rw [if_pos hlt, hrest, hpositional, List.length_cons]
      congr 1
      ring

/-- Digits are read as the number they stand for. -/
theorem readNatural?_eq (hne : digits ≠ []) (h : ∀ c ∈ digits, IsDigitTo base c) :
    readNatural? base digits = some (positional base digits) := by
  have hvalue := appendDigits?_eq h 0
  rw [Nat.mul_zero, Nat.zero_add] at hvalue
  unfold readNatural?
  split
  · exact absurd rfl hne
  · exact absurd (h '+' List.mem_cons_self).1 (by decide)
  · exact hvalue

/-- A number that is read has its value. -/
theorem hasValue_readNatural? (hne : digits ≠ []) (h : ∀ c ∈ digits, IsDigitTo base c) :
    HasValue (positional base digits) ((readNatural? base digits).bind Numeral.ofNat?) := by
  rw [readNatural?_eq hne h, Option.bind_some, Numeral.ofNat?]
  split
  · next hlt => exact .inl ⟨_, UInt64.toNat_ofNat_of_lt' hlt, rfl⟩
  · next hge => exact .inr ⟨Nat.le_of_not_lt hge, rfl⟩

end

/-! ## Numbers with a fraction or an exponent

Which floating-point number such a text stands for is settled by its definition, with correct
rounding. What is shown is that the text is always well-formed, so that reading it does not fail. -/

/-- A text of decimal digits, of at least one. -/
def IsDigits (text : List Char) : Prop := text ≠ [] ∧ ∀ c ∈ text, c.isDigit = true

/-- A point and digits, or nothing. -/
inductive IsFraction : List Char → Prop where
  | none : IsFraction []
  | digits {text : List Char} (h : IsDigits text) : IsFraction ('.' :: text)

/-- The letter of an exponent, perhaps a sign, and digits, or nothing. -/
inductive IsExponent : List Char → Prop where
  | none : IsExponent []
  | digits {letter : Char} {sign text : List Char} (hletter : letter = 'e' ∨ letter = 'E')
      (hsign : sign ∈ [[], ['+'], ['-']]) (h : IsDigits text) :
      IsExponent (letter :: (sign ++ text))

/-- Digits with a fraction, an exponent, or both. Digits alone are a whole number, which is read in
another way. -/
def IsFloatText (text : List Char) : Prop :=
  ∃ whole fraction exponent, text = whole ++ (fraction ++ exponent) ∧ IsDigits whole ∧
    IsFraction fraction ∧ IsExponent exponent ∧ (fraction ≠ [] ∨ exponent ≠ [])

namespace IsDigits

variable {text : List Char}

theorem appendDigits? (h : ∀ c ∈ text, c.isDigit = true) :
    FrontEnd.appendDigits? 10 0 text = some (positional 10 text) := by
  have hvalue := appendDigits?_eq (fun c hc => isDigitTo_of_isDigit (h c hc)) 0
  rwa [Nat.mul_zero, Nat.zero_add] at hvalue

/-- Digits start with no sign. -/
theorem splitSign (h : IsDigits text) (rest : List Char) :
    FrontEnd.splitSign (text ++ rest) = (false, text ++ rest) := by
  obtain ⟨hne, hdigits⟩ := h
  cases text with
  | nil => exact absurd rfl hne
  | cons c text =>
      have hc := hdigits c List.mem_cons_self
      rw [List.cons_append, FrontEnd.splitSign]
      · rintro rest' heq
        cases heq
        cases hc
      · rintro rest' heq
        cases heq
        cases hc

end IsDigits

/-- An exponent has a value. -/
theorem IsExponent.readExponent? {text : List Char} (h : IsExponent text) :
    ∃ n, FrontEnd.readExponent? text = some n := by
  cases h with
  | none => exact ⟨0, rfl⟩
  | @digits letter sign text hletter hsign h =>
      have hempty : text.isEmpty = false := List.isEmpty_eq_false_iff.mpr h.1
      have hsplit : ∃ negative, FrontEnd.splitSign (sign ++ text) = (negative, text) := by
        have hplain := h.splitSign []
        rw [List.append_nil] at hplain
        simp only [List.mem_cons, List.not_mem_nil, or_false] at hsign
        obtain rfl | rfl | rfl := hsign
        · exact ⟨false, hplain⟩
        · exact ⟨false, rfl⟩
        · exact ⟨true, rfl⟩
      obtain ⟨negative, hsplit⟩ := hsplit
      rw [FrontEnd.readExponent?, if_pos hletter, hsplit]
      dsimp only
      rw [hempty, if_neg Bool.false_ne_true, IsDigits.appendDigits? h.2]
      exact ⟨_, rfl⟩

/-- An exponent does not start with a digit. -/
theorem IsExponent.takeWhile_append {text : List Char} (h : IsExponent text) {digits : List Char}
    (hdigits : ∀ c ∈ digits, c.isDigit = true) :
    (digits ++ text).takeWhile Char.isDigit = digits ∧
      (digits ++ text).dropWhile Char.isDigit = text := by
  have hstop : ∀ c ∈ text.head?, c.isDigit = false := by
    cases h with
    | none => exact nofun
    | digits hletter =>
        rintro c ⟨⟩
        rcases hletter with rfl | rfl <;> rfl
  rw [List.takeWhile_append_of_pos hdigits, List.dropWhile_append_of_pos hdigits]
  cases text with
  | nil => exact ⟨List.append_nil _, rfl⟩
  | cons c text =>
      have hc := hstop c rfl
      rw [List.takeWhile_cons_of_neg (by rw [hc]; exact Bool.false_ne_true),
        List.dropWhile_cons_of_neg (by rw [hc]; exact Bool.false_ne_true), List.append_nil]
      exact ⟨rfl, rfl⟩

/-- The digits in front of the exponent make a decimal number. -/
theorem IsExponent.readDecimal? {exponent : List Char} (h : IsExponent exponent)
    {whole fraction : List Char} (hwhole : IsDigits whole) (hfraction : IsFraction fraction) :
    ∃ d, FrontEnd.readDecimal? (whole ++ (fraction ++ exponent)) = some d := by
  obtain ⟨n, hn⟩ := h.readExponent?
  have hempty : whole.isEmpty = false := List.isEmpty_eq_false_iff.mpr hwhole.1
  unfold FrontEnd.readDecimal?
  dsimp only
  cases hfraction with
  | none =>
      -- no point is found, as an exponent starts with its letter
      have hpoint : ∀ rest, exponent ≠ '.' :: rest := by
        rintro rest rfl
        cases h with
        | digits hletter => rcases hletter with h | h <;> cases h
      obtain ⟨htake, hdrop⟩ := h.takeWhile_append hwhole.2
      rw [List.nil_append, htake, hdrop]
      split
      · next rest => exact absurd rfl (hpoint rest)
      · rw [hempty, Bool.false_and, if_neg Bool.false_ne_true, List.append_nil,
          IsDigits.appendDigits? hwhole.2, hn]
        exact ⟨_, rfl⟩
  | @digits more hmore =>
      have hboth : ∀ c ∈ whole ++ more, c.isDigit = true :=
        List.forall_mem_append.mpr ⟨hwhole.2, hmore.2⟩
      obtain ⟨htake, hdrop⟩ := h.takeWhile_append hmore.2
      have htake' : (whole ++ '.' :: (more ++ exponent)).takeWhile Char.isDigit = whole := by
        rw [List.takeWhile_append_of_pos hwhole.2, List.takeWhile_cons_of_neg (by decide),
          List.append_nil]
      have hdrop' : (whole ++ '.' :: (more ++ exponent)).dropWhile Char.isDigit =
          '.' :: (more ++ exponent) := by
        rw [List.dropWhile_append_of_pos hwhole.2, List.dropWhile_cons_of_neg (by decide)]
      -- the first run of digits ends at the point, the second one at the exponent
      rw [List.cons_append, htake', hdrop']
      split
      · next heq =>
        cases heq
        rw [htake, hdrop, hempty, Bool.false_and, if_neg Bool.false_ne_true,
          IsDigits.appendDigits? hboth, hn]
        exact ⟨_, rfl⟩
      · next hpoint => exact absurd rfl (hpoint _)

/-- Digits with a fraction or an exponent are read as a floating-point number. -/
theorem IsFloatText.readFloat? {text : List Char} (h : IsFloatText text) :
    ∃ x, FrontEnd.readFloat? text = some x := by
  obtain ⟨whole, fraction, exponent, rfl, hwhole, hfraction, hexponent, -⟩ := h
  obtain ⟨d, hd⟩ := hexponent.readDecimal? hwhole hfraction
  refine ⟨d.toFloat, ?_⟩
  rw [FrontEnd.readFloat?, hwhole.splitSign]
  dsimp only
  rw [hd]
  rfl

/-! ## The values of texts

A text with a sign of a base is read to this base, one with a point or an exponent as a
floating-point number, and any other as a decimal number. -/

/-- Digits that follow the sign of their base have their value. -/
theorem hasValue_base {base : Nat} {text digits : List Char}
    (hbase : Numeral.splitBase text = some (base, digits)) (hne : digits ≠ [])
    (h : ∀ c ∈ digits, IsDigitTo base c) :
    HasValue (positional base digits) (Numeral.ofChars? text) := by
  rw [Numeral.ofChars?, hbase]
  exact hasValue_readNatural? hne h

/-- Decimal digits alone have their value. -/
theorem IsDigits.hasValue {text : List Char} (h : IsDigits text) :
    HasValue (positional 10 text) (Numeral.ofChars? text) := by
  rw [Numeral.ofChars?, splitBase_digits h.2]
  dsimp only
  rw [not_any_isFloatSign h.2, if_neg Bool.false_ne_true]
  exact hasValue_readNatural? h.1 fun c hc => isDigitTo_of_isDigit (h.2 c hc)

namespace IsFloatText

variable {text : List Char}

/-- A number with a fraction or an exponent announces no other base. It has no letter of a base behind
a leading zero, as the only letter in it is that of the exponent. -/
theorem splitBase (h : IsFloatText text) : Numeral.splitBase text = none := by
  obtain ⟨whole, fraction, exponent, rfl, hwhole, hfraction, hexponent, -⟩ := h
  cases whole with
  | nil => exact absurd rfl hwhole.1
  | cons c whole =>
      -- what follows the first digit is another one, a point or the letter of an exponent
      have hsecond : ∀ d ∈ (whole ++ (fraction ++ exponent)).head?,
          d.isDigit = true ∨ d ∈ ['.', 'e', 'E'] := by
        intro d hd
        cases whole with
        | cons d' whole =>
            cases hd
            exact .inl (hwhole.2 d (by simp))
        | nil =>
            cases hfraction with
            | digits =>
                cases hd
                simp
            | none =>
                cases hexponent with
                | none => cases hd
                | digits hletter =>
                    cases hd
                    rcases hletter with rfl | rfl <;> simp
      rw [List.cons_append]
      generalize whole ++ (fraction ++ exponent) = rest at hsecond
      unfold Numeral.splitBase
      split
      · next d rest heq =>
        cases heq
        have hne {e : Char} (he : e.isDigit = false) (hmem : e ∉ ['.', 'e', 'E']) : d ≠ e := by
          rintro rfl
          rcases hsecond d rfl with hd | hd
          · rw [he] at hd
            cases hd
          · exact hmem hd
        rw [if_neg (by simp [hne]), if_neg (by simp [hne])]
      · rfl

theorem any_isFloatSign (h : IsFloatText text) : text.any Numeral.isFloatSign = true := by
  obtain ⟨whole, fraction, exponent, rfl, -, hfraction, hexponent, hne⟩ := h
  have hsign : (fraction ++ exponent).any Numeral.isFloatSign = true := by
    cases hfraction with
    | digits => rfl
    | none =>
        cases hexponent with
        | none => exact absurd hne (by simp)
        | digits hletter => rcases hletter with rfl | rfl <;> rfl
  rw [List.any_append, hsign, Bool.or_true]

/-- A number with a fraction or an exponent always has a value. -/
theorem ofChars? (h : IsFloatText text) :
    ∃ x, FrontEnd.readFloat? text = some x ∧ Numeral.ofChars? text = some (.float x) := by
  obtain ⟨x, hx⟩ := h.readFloat?
  refine ⟨x, hx, ?_⟩
  rw [Numeral.ofChars?, h.splitBase]
  dsimp only
  rw [h.any_isFloatSign, if_pos rfl, hx]
  rfl

end IsFloatText

end FrontEnd
