import FrontEnd.Proofs.Decimal.Positional
import FrontEnd.Proofs.Token.Spacing
import FrontEnd.Proofs.Token.Spelled

set_option autoImplicit false

/-! # The values of the numbers of a text

The scanner decides where a number ends and whether it has the digits that it needs; the value is
read again from the text of the token, without its underscores. Both see the same number
(`IsNumber`): a text that announces a base has digits to this base, a text of digits alone is a
decimal number, and every other text has a fraction or an exponent. A text that announces digits
and has none (`LacksDigit`) is faulty.

Underscores may stand anywhere among the digits and are passed by the scanner as if they were
digits, so a run may consist of underscores alone. That is where the two could come apart, and why a
run is asked for a digit in every place where one is needed.
-/

namespace FrontEnd

/-! ## Digits and underscores

Underscores are left out before a number is read. A run is what the scanner takes, with the
underscores; its digits are what is left of it. -/

/-- A text without its underscores. -/
def withoutUnderscores (text : List Char) : List Char := text.filter (· != '_')

theorem withoutUnderscores_append (text text' : List Char) :
    withoutUnderscores (text ++ text') = withoutUnderscores text ++ withoutUnderscores text' :=
  List.filter_append text text'

theorem withoutUnderscores_cons {c : Char} (hc : c ≠ '_') (text : List Char) :
    withoutUnderscores (c :: text) = c :: withoutUnderscores text :=
  List.filter_cons_of_pos (bne_iff_ne.mpr hc)

theorem withoutUnderscores_ne_nil {c : Char} {text : List Char} (hmem : c ∈ text) (hc : c ≠ '_') :
    withoutUnderscores text ≠ [] :=
  List.ne_nil_of_mem (List.mem_filter.mpr ⟨hmem, bne_iff_ne.mpr hc⟩)

/-- A text of digits and underscores. -/
def IsRun (isDigit : Char → Bool) (text : List Char) : Prop :=
  ∀ c ∈ text, (isDigit c || c == '_') = true

namespace IsRun

variable {isDigit : Char → Bool} {text : List Char}

theorem digitRun (isDigit : Char → Bool) (text : List Char) :
    IsRun isDigit (FrontEnd.digitRun isDigit text) :=
  fun _ hc => List.mem_takeWhile_imp (p := fun c => isDigit c || c == '_') hc

theorem underscores (h : ∀ c ∈ text, c = '_') : IsRun isDigit text := by
  intro c hc
  rw [h c hc, beq_self_eq_true, Bool.or_true]

/-- In front of another character a run is found as it is. -/
theorem digitRun_append (h : IsRun isDigit text) {rest : List Char}
    (hrest : StopsAt (fun c => isDigit c || c == '_') rest) :
    FrontEnd.digitRun isDigit (text ++ rest) = text := by
  rw [FrontEnd.digitRun, hrest.takeWhile_append, List.takeWhile_eq_self_iff]
  exact h

theorem digits (h : IsRun isDigit text) : ∀ c ∈ withoutUnderscores text, isDigit c = true := by
  intro c hc
  obtain ⟨hmem, hne⟩ := List.mem_filter.mp hc
  have hrun := h c hmem
  rw [beq_false_of_ne (bne_iff_ne.mp hne), Bool.or_false] at hrun
  exact hrun

theorem append {text' : List Char} (h : IsRun isDigit text) (h' : IsRun isDigit text') :
    IsRun isDigit (text ++ text') := List.forall_mem_append.mpr ⟨h, h'⟩

theorem isDigits {text : List Char} (h : IsRun Char.isDigit text)
    (hany : text.any Char.isDigit = true) : IsDigits (withoutUnderscores text) := by
  obtain ⟨c, hmem, hc⟩ := List.any_eq_true.mp hany
  exact ⟨withoutUnderscores_ne_nil hmem (ne_of_isDigit hc rfl), h.digits⟩

end IsRun

/-! ## The texts of numbers

What the text of a number may look like is said without the scanner, by what is in it once the
underscores are left out. The three bases exclude each other. -/

/-- Digits to a base, underscores among them, and the value that they have. Underscores may stand
anywhere among the digits, but they cannot stand alone. -/
structure IsWhole (base : Nat) (isDigit : Char → Bool) (text : List Char)
    (value : Option Numeral) : Prop where
  ne_nil : withoutUnderscores text ≠ []
  digits : ∀ c ∈ withoutUnderscores text, isDigit c = true
  value : HasValue (positional base (withoutUnderscores text)) value

/-- A text announces a base of its own. Its digits are then those of this base, and it has neither a
fraction nor an exponent. -/
def AnnouncesBase (text : List Char) : Prop :=
  ∃ sign digits, text = '0' :: sign :: digits ∧ (isHexSign sign = true ∨ isOctalSign sign = true)

/-- A text is that of a number, with its value. -/
structure IsNumber (text : List Char) (value : Option Numeral) : Prop where
  hex : ∀ sign digits, text = '0' :: sign :: digits → isHexSign sign = true →
    IsWhole 16 isHexDigit digits value
  octal : ∀ sign digits, text = '0' :: sign :: digits → isOctalSign sign = true →
    IsWhole 8 isOctalDigit digits value
  decimal : IsRun Char.isDigit text → IsWhole 10 Char.isDigit text value
  float : ¬ AnnouncesBase text → ¬ IsRun Char.isDigit text →
    IsFloatText (withoutUnderscores text) ∧
      ∃ x, readFloat? (withoutUnderscores text) = some x ∧ value = some (.float x)

/-! ## The letters of numbers -/

theorem eq_of_isHexSign {c : Char} (h : isHexSign c = true) : c = 'x' ∨ c = 'X' := by
  simpa [isHexSign] using h

theorem eq_of_isOctalSign {c : Char} (h : isOctalSign c = true) :
    c = 'o' ∨ c = 'O' ∨ c = 'q' ∨ c = 'Q' := by
  simpa [isOctalSign, or_assoc] using h

theorem eq_of_isExponentSign {c : Char} (h : isExponentSign c = true) : c = 'e' ∨ c = 'E' := by
  simpa [isExponentSign] using h

theorem not_isHexSign_of_isOctalSign {c : Char} (h : isOctalSign c = true) :
    isHexSign c = false := by
  rcases eq_of_isOctalSign h with rfl | rfl | rfl | rfl <;> rfl

/-! ## What the scanner has found

From a number that was found to its form: where the scan ends with the text, each of its parts is
there as the form has it. -/

/-- A number starts with a digit. -/
theorem scan_number {c : Char} {rest : List Char} (h : (scan c rest).outcome = .ok .number) :
    c.isDigit = true ∧ scan c rest = scanNumber (c :: rest) := by
  unfold scan at h ⊢
  split at h
  · have hword := wordKind_isWord ((c :: rest).takeWhile isWordChar)
    rw [scanWord] at h
    rw [Except.ok.inj h] at hword
    cases hword
  next hword =>
  split at h
  · next hdigit =>
    rw [if_neg hword, if_pos hdigit]
    exact ⟨hdigit, rfl⟩
  · exfalso
    split at h
    · cases scanQuoted_kind h
    · split at h
      · cases scanQuoted_kind h
      · exact absurd (scanSymbol_kind h) (by decide)

theorem scanNumber_decimal {c : Char} {rest : List Char}
    (h : ∀ d ∈ rest.head?, isHexSign d = false ∧ isOctalSign d = false) :
    scanNumber (c :: rest) = scanDecimal (c :: rest) := by
  by_cases hc : c = '0'
  · cases rest with
    | nil => exact scanNumber_singleton c
    | cons d rest =>
        obtain ⟨hhex, hoctal⟩ := h d rfl
        rw [hc, scanNumber, hhex, hoctal, if_neg Bool.false_ne_true, if_neg Bool.false_ne_true]
  · exact scanNumber_of_ne hc rest

/-- A number to a base of its own that takes a whole text. -/
theorem scanRadix_whole {isDigit : Char → Bool} {missing : LexicalFault} {text : List Char}
    (h : scanRadix isDigit missing text = .token .number (text.length + 2)) :
    IsRun isDigit text ∧ text.any isDigit = true := by
  rw [scanRadix] at h
  split at h
  · next hany =>
    have hlength := congrArg Scan.length h
    rw [Scan.token, Scan.token, Nat.add_comm] at hlength
    have hrun : digitRun isDigit text = text :=
      (List.takeWhile_prefix _).eq_of_length (Nat.add_right_cancel hlength)
    have hdigits := IsRun.digitRun isDigit text
    rw [hrun] at hany hdigits
    exact ⟨hdigits, hany⟩
  · cases h

/-- What is read as a fraction is a fraction. -/
theorem isFraction_take (text : List Char) :
    IsFraction (withoutUnderscores (text.take (fractionLength text))) := by
  unfold fractionLength
  split
  · next d rest =>
    split
    · next hd =>
      have hprefix : (d :: rest).take (digitRun Char.isDigit (d :: rest)).length =
          digitRun Char.isDigit (d :: rest) :=
        (List.prefix_iff_eq_take.mp (List.takeWhile_prefix _)).symm
      have hmem : d ∈ digitRun Char.isDigit (d :: rest) := by
        rw [digitRun, List.takeWhile_cons_of_pos (by rw [hd]; rfl)]
        exact List.mem_cons_self
      rw [Nat.add_comm, List.take_succ_cons, hprefix, withoutUnderscores_cons (by decide)]
      exact .digits ((IsRun.digitRun _ _).isDigits (List.any_eq_true.mpr ⟨d, hmem, hd⟩))
    · exact .none
  · exact .none

/-- The sign of an exponent. -/
theorem take_signLength (text : List Char) :
    text.take (signLength text) ∈ [[], ['+'], ['-']] := by
  unfold signLength
  split
  · split
    · next hc => rcases hc with rfl | rfl <;> simp
    · simp
  · simp

/-- Where a number ends with the text, its exponent does. -/
theorem isExponent_of_scanExponent {n : Nat} {text : List Char}
    (h : scanExponent n text = .token .number (n + text.length)) :
    IsExponent (withoutUnderscores text) := by
  cases text with
  | nil => exact .none
  | cons c rest =>
      rw [scanExponent] at h
      split at h
      · next hc =>
        dsimp only at h
        split at h
        · next hany =>
          have hlength := congrArg Scan.length h
          rw [Scan.token, Scan.token, List.length_cons] at hlength
          dsimp only at hlength
          have hsign := signLength_le rest
          -- the run of digits reaches the end, as the length of what was scanned says
          have hrun : digitRun Char.isDigit (rest.drop (signLength rest)) =
              rest.drop (signLength rest) := by
            refine (List.takeWhile_prefix _).eq_of_length ?_
            rw [← digitRun, List.length_drop]
            omega
          have hdigits := IsRun.digitRun Char.isDigit (rest.drop (signLength rest))
          rw [hrun] at hany hdigits
          have hletter := eq_of_isExponentSign hc
          have hplain : withoutUnderscores (rest.take (signLength rest)) =
              rest.take (signLength rest) := by
            have hmem := take_signLength rest
            generalize rest.take (signLength rest) = sign at hmem
            revert sign
            decide
          rw [withoutUnderscores_cons (by rcases hletter with rfl | rfl <;> decide),
            ← List.take_append_drop (signLength rest) rest, withoutUnderscores_append, hplain]
          exact .digits hletter (take_signLength rest) (hdigits.isDigits hany)
        · cases h
      · -- without the letter nothing is scanned, although something is left
        have hlength := congrArg Scan.length h
        rw [Scan.token, Scan.token, List.length_cons] at hlength
        dsimp only at hlength
        omega

/-- The parts of a decimal number that takes a whole text. -/
theorem exists_parts {c : Char} (hc : c.isDigit = true) {rest : List Char}
    (h : scanDecimal (c :: rest) = .token .number (rest.length + 1)) :
    ∃ whole fraction exponent, c :: rest = whole ++ (fraction ++ exponent) ∧
      IsRun Char.isDigit whole ∧ IsDigits (withoutUnderscores whole) ∧
      IsFraction (withoutUnderscores fraction) ∧ IsExponent (withoutUnderscores exponent) := by
  obtain ⟨behind, hbehind⟩ :=
    List.takeWhile_prefix (l := c :: rest) fun c => c.isDigit || c == '_'
  rw [← digitRun] at hbehind
  have hmem : c ∈ digitRun Char.isDigit (c :: rest) := by
    rw [digitRun, List.takeWhile_cons_of_pos (by rw [hc]; rfl)]
    exact List.mem_cons_self
  have hrun := IsRun.digitRun Char.isDigit (c :: rest)
  have hfraction := fractionLength_le behind
  have hlength := congrArg List.length hbehind
  rw [List.length_append, List.length_cons] at hlength
  refine ⟨_, behind.take (fractionLength behind), behind.drop (fractionLength behind),
    ?_, hrun, hrun.isDigits (List.any_eq_true.mpr ⟨c, hmem, hc⟩), isFraction_take behind, ?_⟩
  · rw [List.take_append_drop, hbehind]
  · rw [scanDecimal] at h
    generalize digitRun Char.isDigit (c :: rest) = whole at h hbehind hlength
    rw [← hbehind, List.drop_left, List.drop_length_add_append] at h
    refine isExponent_of_scanExponent (h.trans ?_)
    rw [List.length_drop]
    congr 1
    omega

/-! ## The values -/

section

variable {sign : Char} {digits : List Char}

/-- Digits to a base of their own, behind the sign that announces it. -/
theorem isWhole_of_base {base : Nat} {isDigit : Char → Bool}
    (hbase : ∀ digits, Numeral.splitBase ('0' :: sign :: digits) = some (base, digits))
    (hsign : sign ≠ '_') (hdigit : ∀ c, isDigit c = true → IsDigitTo base c)
    (hunderscore : isDigit '_' = false) {missing : LexicalFault}
    (h : scanRadix isDigit missing digits = .token .number (digits.length + 2)) :
    IsWhole base isDigit digits (Numeral.ofText? (String.ofList ('0' :: sign :: digits))) := by
  obtain ⟨hrun, hany⟩ := scanRadix_whole h
  obtain ⟨c, hmem, hc⟩ := List.any_eq_true.mp hany
  have hne : withoutUnderscores digits ≠ [] := by
    refine withoutUnderscores_ne_nil hmem ?_
    rintro rfl
    rw [hunderscore] at hc
    cases hc
  refine ⟨hne, hrun.digits, ?_⟩
  rw [Numeral.ofText?, String.toList_ofList, ← withoutUnderscores,
    withoutUnderscores_cons (by decide), withoutUnderscores_cons hsign]
  exact hasValue_base (hbase _) hne fun c hc => hdigit c (hrun.digits c hc)

theorem isWhole_of_hexSign (hsign : isHexSign sign = true)
    (h : scanNumber ('0' :: sign :: digits) = .token .number (digits.length + 2)) :
    IsWhole 16 isHexDigit digits (Numeral.ofText? (String.ofList ('0' :: sign :: digits))) := by
  rw [scanNumber, if_pos hsign] at h
  have hletter := eq_of_isHexSign hsign
  refine isWhole_of_base (fun digits => ?_) ?_ (fun c hc => isDigitTo_of_isHexDigit hc) rfl h
  · rw [Numeral.splitBase, if_pos hletter]
  · rcases hletter with rfl | rfl <;> decide

theorem isWhole_of_octalSign (hsign : isOctalSign sign = true)
    (h : scanNumber ('0' :: sign :: digits) = .token .number (digits.length + 2)) :
    IsWhole 8 isOctalDigit digits (Numeral.ofText? (String.ofList ('0' :: sign :: digits))) := by
  have hletter := eq_of_isOctalSign hsign
  rw [scanNumber, not_isHexSign_of_isOctalSign hsign, if_neg Bool.false_ne_true, if_pos hsign] at h
  refine isWhole_of_base (fun digits => ?_) ?_ (fun c hc => isDigitTo_of_isOctalDigit hc) rfl h
  · rw [Numeral.splitBase, if_neg (by rcases hletter with rfl | rfl | rfl | rfl <;> decide),
      if_pos hletter]
  · rcases hletter with rfl | rfl | rfl | rfl <;> decide

end

/-- A text of a number that is not one of digits alone has a fraction or an exponent. -/
theorem isFloatText_of_scan {c : Char} (hc : c.isDigit = true) {rest : List Char}
    (h : scanDecimal (c :: rest) = .token .number (rest.length + 1))
    (hrun : ¬ IsRun Char.isDigit (c :: rest)) : IsFloatText (withoutUnderscores (c :: rest)) := by
  obtain ⟨whole, fraction, exponent, heq, hwhole, hdigits, hfraction, hexponent⟩ :=
    exists_parts hc h
  rw [heq] at hrun ⊢
  rw [withoutUnderscores_append, withoutUnderscores_append]
  refine ⟨_, _, _, rfl, hdigits, hfraction, hexponent, ?_⟩
  by_contra hnone
  rw [not_or, not_not, not_not] at hnone
  have hunderscores {part : List Char} (h : withoutUnderscores part = []) :
      IsRun Char.isDigit part := by
    refine .underscores fun c hc => ?_
    by_contra hne
    exact withoutUnderscores_ne_nil hc hne h
  exact hrun (hwhole.append ((hunderscores hnone.1).append (hunderscores hnone.2)))

/-- The text of a number has the form and the value of one. -/
theorem isNumber_of_scan {c : Char} (hc : c.isDigit = true) {rest : List Char}
    (h : scanNumber (c :: rest) = .token .number (rest.length + 1)) :
    IsNumber (c :: rest) (Numeral.ofText? (String.ofList (c :: rest))) where
  hex sign digits heq hsign := by
    rw [heq] at h ⊢
    cases heq
    exact isWhole_of_hexSign hsign h
  octal sign digits heq hsign := by
    rw [heq] at h ⊢
    cases heq
    exact isWhole_of_octalSign hsign h
  decimal hrun := by
    have hdigits := hrun.isDigits (List.any_eq_true.mpr ⟨c, List.mem_cons_self, hc⟩)
    refine ⟨hdigits.1, hdigits.2, ?_⟩
    rw [Numeral.ofText?, String.toList_ofList]
    exact hdigits.hasValue
  float hbase hrun := by
    have hdecimal : scanNumber (c :: rest) = scanDecimal (c :: rest) := by
      by_cases hzero : c = '0'
      · subst hzero
        refine scanNumber_decimal fun sign hsign => ?_
        obtain ⟨digits, rfl⟩ := List.head?_eq_some_iff.mp hsign
        constructor
        · exact eq_false_of_ne_true fun h => hbase ⟨sign, digits, rfl, .inl h⟩
        · exact eq_false_of_ne_true fun h => hbase ⟨sign, digits, rfl, .inr h⟩
      · exact scanNumber_of_ne hzero rest
    have hfloat := isFloatText_of_scan hc (hdecimal ▸ h) hrun
    rw [Numeral.ofText?, String.toList_ofList]
    exact ⟨hfloat, hfloat.ofChars?⟩

/-! ## Digits that are missing

The converse of the faults: a text that lacks a digit behind the sign of a base or behind an
exponent is scanned as faulty up to where the digit is missing. -/

/-- A text stops in front of the digits of a number. What is scanned as a run of digits then ends in
front of this text. -/
def StopsRun (isDigit : Char → Bool) (text : List Char) : Prop :=
  StopsAt (fun c => isDigit c || c == '_') text

/-- A fraction as it is written, or nothing. -/
def IsFractionText (text : List Char) : Prop :=
  text = [] ∨ ∃ d more, text = '.' :: d :: more ∧ d.isDigit = true ∧ IsRun Char.isDigit more

/-- A text, in front of another one, announces the digits of a number and has none: behind the sign
of a base or the letter of an exponent stand underscores alone, and no digit follows them. -/
inductive LacksDigit : List Char → List Char → LexicalFault → Prop where
  | hex {sign : Char} {run rest : List Char} (hsign : isHexSign sign = true)
      (hrun : ∀ c ∈ run, c = '_') (hrest : StopsRun isHexDigit rest) :
      LacksDigit ('0' :: sign :: run) rest .hexWithoutDigit
  | octal {sign : Char} {run rest : List Char} (hsign : isOctalSign sign = true)
      (hrun : ∀ c ∈ run, c = '_') (hrest : StopsRun isOctalDigit rest) :
      LacksDigit ('0' :: sign :: run) rest .octalWithoutDigit
  | exponent {first letter : Char} {whole fraction sign run rest : List Char}
      (hfirst : first.isDigit = true) (hwhole : IsRun Char.isDigit whole)
      (hfraction : IsFractionText fraction) (hletter : isExponentSign letter = true)
      (hsign : sign ∈ [['+'], ['-']] ∨ sign = [] ∧ ∀ c ∈ (run ++ rest).head?, c ≠ '+' ∧ c ≠ '-')
      (hrun : ∀ c ∈ run, c = '_') (hrest : StopsRun Char.isDigit rest) :
      LacksDigit (first :: (whole ++ (fraction ++ letter :: (sign ++ run)))) rest
        .exponentWithoutDigit

theorem scanRadix_underscores {isDigit : Char → Bool} {missing : LexicalFault}
    {run rest : List Char} (hunderscore : isDigit '_' = false) (hrun : ∀ c ∈ run, c = '_')
    (hrest : StopsRun isDigit rest) :
    scanRadix isDigit missing (run ++ rest) = .fault missing (2 + run.length) := by
  have hany : run.any isDigit = false := by
    refine List.any_eq_false.mpr fun c hc => ?_
    rw [hrun c hc, hunderscore]
    exact Bool.false_ne_true
  rw [scanRadix, (IsRun.underscores hrun).digitRun_append hrest, hany, if_neg Bool.false_ne_true]

/-- Behind the letter of an exponent stands no digit. -/
theorem scanExponent_underscores {letter : Char} {sign run rest : List Char} (n : Nat)
    (hletter : isExponentSign letter = true)
    (hsign : sign ∈ [['+'], ['-']] ∨ sign = [] ∧ ∀ c ∈ (run ++ rest).head?, c ≠ '+' ∧ c ≠ '-')
    (hrun : ∀ c ∈ run, c = '_') (hrest : StopsRun Char.isDigit rest) :
    scanExponent n (letter :: (sign ++ (run ++ rest))) =
      .fault .exponentWithoutDigit (n + 1 + sign.length + run.length) := by
  have hlength : signLength (sign ++ (run ++ rest)) = sign.length := by
    rcases hsign with hsign | ⟨rfl, hnone⟩
    · simp only [List.mem_cons, List.not_mem_nil, or_false] at hsign
      rcases hsign with rfl | rfl <;> rfl
    · cases hbehind : run ++ rest with
      | nil => rfl
      | cons c behind =>
          obtain ⟨hplus, hminus⟩ := hnone c (by rw [hbehind]; rfl)
          rw [List.nil_append, signLength, if_neg (by simp [hplus, hminus])]
          rfl
  have hany : run.any Char.isDigit = false := by
    refine List.any_eq_false.mpr fun c hc => ?_
    rw [hrun c hc]
    decide
  rw [scanExponent, if_pos hletter]
  dsimp only
  rw [hlength, List.drop_left, (IsRun.underscores hrun).digitRun_append hrest, hany,
    if_neg Bool.false_ne_true]

/-- In front of the letter of an exponent, digits and a fraction are read as they stand. -/
theorem scanDecimal_exponent {whole fraction behind : List Char} {letter : Char}
    (hwhole : IsRun Char.isDigit whole) (hfraction : IsFractionText fraction)
    (hletter : isExponentSign letter = true) :
    scanDecimal (whole ++ (fraction ++ letter :: behind)) =
      scanExponent (whole.length + fraction.length) (letter :: behind) := by
  have hplain : letter ≠ '.' ∧ (letter.isDigit || letter == '_') = false := by
    rcases eq_of_isExponentSign hletter with rfl | rfl <;> decide
  have hstop : StopsRun Char.isDigit (letter :: behind) := .cons hplain.2 behind
  have hlength : fractionLength (fraction ++ letter :: behind) = fraction.length := by
    rcases hfraction with rfl | ⟨d, more, rfl, hd, hmore⟩
    · exact fractionLength_of_ne hplain.1 behind
    · have hrun : IsRun Char.isDigit (d :: more) :=
        List.forall_mem_cons.mpr ⟨by rw [hd]; rfl, hmore⟩
      rw [List.cons_append, List.cons_append, fractionLength, if_pos hd, ← List.cons_append,
        hrun.digitRun_append hstop, Nat.add_comm]
      rfl
  have hstop' : StopsRun Char.isDigit (fraction ++ letter :: behind) := by
    rcases hfraction with rfl | ⟨d, more, rfl, -, -⟩
    · exact hstop
    · exact .cons rfl _
  rw [scanDecimal, hwhole.digitRun_append hstop', List.drop_left, hlength, ← List.append_assoc,
    ← List.length_append, List.drop_left]

/-- A text that lacks a digit is scanned as faulty, as a whole. -/
theorem LacksDigit.scan {own rest : List Char} {fault : LexicalFault}
    (h : LacksDigit own rest fault) :
    ∃ c more, own = c :: more ∧ c.isDigit = true ∧
      FrontEnd.scan c (more ++ rest) = .fault fault own.length := by
  have hdigit {c : Char} {text : List Char} (hc : c.isDigit = true) :
      FrontEnd.scan c text = scanNumber (c :: text) := by
    rw [FrontEnd.scan, not_isWordStart_of_isDigit hc, if_neg Bool.false_ne_true, if_pos hc]
  cases h with
  | @hex sign run rest hsign hrun hrest =>
      refine ⟨_, _, rfl, rfl, ?_⟩
      rw [hdigit rfl, List.cons_append, scanNumber, if_pos hsign,
        scanRadix_underscores rfl hrun hrest, Nat.add_comm]
      rfl
  | @octal sign run rest hsign hrun hrest =>
      refine ⟨_, _, rfl, rfl, ?_⟩
      rw [hdigit rfl, List.cons_append, scanNumber, not_isHexSign_of_isOctalSign hsign,
        if_neg Bool.false_ne_true, if_pos hsign, scanRadix_underscores rfl hrun hrest, Nat.add_comm]
      rfl
  | @exponent first letter whole fraction sign run rest hfirst hwhole hfraction hletter hsign hrun
      hrest =>
      refine ⟨_, _, rfl, hfirst, ?_⟩
      -- the second character announces no other base
      have hbase : ∀ d ∈ (whole ++ (fraction ++ letter :: (sign ++ (run ++ rest)))).head?,
          isHexSign d = false ∧ isOctalSign d = false := by
        intro d hd
        cases whole with
        | cons d' whole =>
            cases hd
            exact not_baseSign (hwhole d List.mem_cons_self)
        | nil =>
            rcases hfraction with rfl | ⟨d', more, rfl, -, -⟩
            · cases hd
              rcases eq_of_isExponentSign hletter with rfl | rfl <;> decide
            · cases hd
              decide
      have hrun' : IsRun Char.isDigit (first :: whole) :=
        List.forall_mem_cons.mpr ⟨by rw [hfirst]; rfl, hwhole⟩
      rw [hdigit hfirst]
      simp only [List.append_assoc, List.cons_append]
      rw [scanNumber_decimal hbase, ← List.cons_append,
        scanDecimal_exponent hrun' hfraction hletter,
        scanExponent_underscores _ hletter hsign hrun hrest]
      congr 1
      simp only [List.length_append, List.length_cons]
      omega

/-! ## The tokens of a text -/

/-- A number that is read has the form and the value of one. -/
theorem Cursor.isNumber_next {c : Cursor} (h : c.next.1.kind = .number) :
    IsNumber c.next.1.lexeme.toList c.next.1.numeral? := by
  obtain ⟨first, own, htext, -, hscan⟩ :=
    Lexeme.fills_bare_next (c := c) (by rw [h]; simp) (by rw [h]; simp)
  rw [Token.bare] at htext hscan
  dsimp only at htext hscan
  rw [h] at hscan
  obtain ⟨hdigit, hnumber⟩ := scan_number (by rw [hscan]; rfl)
  have hvalue := isNumber_of_scan hdigit (hnumber.symm.trans hscan)
  rw [← htext, String.ofList_toList] at hvalue
  rw [Token.numeral?, h]
  exact hvalue

/-- A text that lacks a digit is read as one faulty token. -/
theorem LacksDigit.next {own rest : List Char} {fault : LexicalFault}
    (h : LacksDigit own rest fault) (p : Position) :
    (Cursor.mk (own ++ rest) p).next = (.invalid fault p, ⟨rest, p.after own⟩) := by
  obtain ⟨c, more, rfl, hdigit, hscan⟩ := h.scan
  have hplain : startsGap (c :: (more ++ rest)) = false := by
    cases more ++ rest with
    | nil => simp [startsGap, Gap.isBlank, beq_of_isDigit hdigit]
    | cons d text => simp [startsGap, Gap.isBlank, beq_of_isDigit hdigit]
  rw [List.cons_append, Cursor.next_plain hplain, hscan, ← List.cons_append, Cursor.skip,
    Scan.fault]
  dsimp only
  rw [List.take_left, List.drop_left]
  rfl

/-- Every number of a text has the form and the value of one, and where the digits that a number
announces are missing, its text is faulty. -/
theorem number_tokens :
    (∀ text : List Char, ∀ t ∈ (Stream.ofText text).tokens, t.kind = .number →
      IsNumber t.lexeme.toList t.numeral?) ∧
      ∀ (own rest : List Char) (fault : LexicalFault) (p : Position), LacksDigit own rest fault →
        (Cursor.mk (own ++ rest) p).next = (.invalid fault p, ⟨rest, p.after own⟩) := by
  constructor
  · intro text t ht hkind
    obtain ⟨-, c, rfl⟩ := Stream.upTo_tokens ht
    exact Cursor.isNumber_next hkind
  · intro own rest fault p h
    exact h.next p

/-- Numbers to all three bases and with an exponent, and one whose exponent has no digit. -/
theorem number_tokens_sample :
    let numbers := (Stream.ofText "0x_Fe 0q17 18446744073709551616 1_0.5e-3".toList).tokens
    let own := "1.5e+_".toList
    numbers.map Token.kind = [.number, .number, .number, .number] ∧
      (∀ t ∈ numbers, IsNumber t.lexeme.toList t.numeral?) ∧
      LacksDigit own [';'] .exponentWithoutDigit ∧
      (Cursor.mk (own ++ [';']) .start).next =
        (.invalid .exponentWithoutDigit .start, ⟨[';'], Position.start.after own⟩) := by
  intro numbers own
  have hkinds : numbers.map Token.kind = [.number, .number, .number, .number] := by decide +kernel
  have hlacks : LacksDigit own [';'] .exponentWithoutDigit :=
    @LacksDigit.exponent '1' 'e' [] ['.', '5'] ['+'] ['_'] [';'] rfl nofun
      (.inr ⟨'5', [], rfl, rfl, nofun⟩) rfl (.inl (by decide))
      (List.forall_mem_singleton.mpr rfl) (.cons rfl [])
  refine ⟨hkinds, fun t ht => number_tokens.1 _ t ht ?_, hlacks, number_tokens.2 _ _ _ _ hlacks⟩
  have hmem : t.kind ∈ numbers.map Token.kind := List.mem_map_of_mem ht
  rw [hkinds] at hmem
  simpa using hmem

end FrontEnd
