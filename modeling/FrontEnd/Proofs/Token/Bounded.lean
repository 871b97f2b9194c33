import FrontEnd.Proofs.Token.Pieces
import Mathlib.Data.List.Find

set_option autoImplicit false

/-! # What ends a token

A word, a number, a mark or an operator is found by a look at characters of one class. It is the same
whatever stands behind the first character that is outside of this class (`StopsAt`), so a blank ends
it (`StartsBlank.scan_append`). Literals are not like that: they may hold any character.

Each scanner has a class that holds every character it can ask about, and one lemma says that the
scanner does not look beyond it. For numbers the class is the widest: a number may hold letters,
points and signs, although where they may stand is another matter.
-/

namespace FrontEnd

/-- The text is empty or starts with a character outside of a class. Either way a run of characters of
the class in front of it ends there. -/
def StopsAt (p : Char → Bool) (text : List Char) : Prop := ∀ c ∈ text.head?, p c = false

namespace StopsAt

variable {p q : Char → Bool} {text : List Char} {c : Char}

theorem nil (p : Char → Bool) : StopsAt p [] := nofun

theorem cons (h : p c = false) (text : List Char) : StopsAt p (c :: text) := by
  rintro d ⟨⟩
  exact h

/-- It is also outside of every smaller class. -/
theorem mono (h : StopsAt p text) (hle : ∀ c, q c = true → p c = true) : StopsAt q text := by
  intro c hc
  cases hq : q c with
  | false => rfl
  | true => rw [← h c hc, hle c hq]

/-- A run of the class ends there. -/
theorem takeWhile_append (h : StopsAt p text) (own : List Char) :
    (own ++ text).takeWhile p = own.takeWhile p := by
  induction own with
  | nil =>
      cases text with
      | nil => rfl
      | cons c text => exact List.takeWhile_cons_of_neg (by rw [h c rfl]; exact Bool.false_ne_true)
  | cons c own ih => rw [List.cons_append, List.takeWhile_cons, List.takeWhile_cons, ih]

end StopsAt

/-! ## Words and numbers -/

/-- The characters that a number may be made of. The scanner of numbers never reads on over any
other character. -/
def isNumberChar (c : Char) : Bool := isWordChar c || c == '.' || c == '+' || c == '-'

/-- A class of digits that numbers are made of. -/
def IsDigitClass (isDigit : Char → Bool) : Prop := ∀ c, isDigit c = true → isNumberChar c = true

theorem isDigitClass_isDigit : IsDigitClass Char.isDigit := by
  intro c hc
  simp [isNumberChar, isWordChar, Char.isAlphanum, hc]

theorem isDigitClass_isHexDigit : IsDigitClass isHexDigit := by
  intro c hc
  have hupper : c.isUpper = decide ('A'.val ≤ c.val ∧ c.val ≤ 'Z'.val) := rfl
  have hlower : c.isLower = (decide ('a'.val ≤ c.val) && decide (c.val ≤ 'z'.val)) := rfl
  have halpha : c.isAlpha = (c.isUpper || c.isLower) := rfl
  simp only [isHexDigit, isNumberChar, isWordChar, Char.isAlphanum, halpha, hupper, hlower,
    Bool.or_eq_true, Bool.and_eq_true, decide_eq_true_eq, Char.le_def] at hc ⊢
  grind

theorem isDigitClass_isOctalDigit : IsDigitClass isOctalDigit := by
  intro c hc
  refine isDigitClass_isDigit c ?_
  simp only [isOctalDigit, Char.isDigit, Bool.and_eq_true, decide_eq_true_eq, Char.le_def,
    ge_iff_le] at hc ⊢
  grind

theorem fractionLength_of_ne {c : Char} (hc : c ≠ '.') (rest : List Char) :
    fractionLength (c :: rest) = 0 := by
  unfold fractionLength
  split
  · next heq =>
    cases heq
    exact absurd rfl hc
  · rfl

theorem scanNumber_of_ne {c : Char} (hc : c ≠ '0') (text : List Char) :
    scanNumber (c :: text) = scanDecimal (c :: text) := by
  unfold scanNumber
  split
  · next heq =>
    cases heq
    exact absurd rfl hc
  · rfl

theorem scanNumber_singleton (c : Char) : scanNumber [c] = scanDecimal [c] := by
  unfold scanNumber
  split
  · next heq => cases heq
  · rfl

theorem scanWord_append_stop {text : List Char} (h : StopsAt isWordChar text) (own : List Char) :
    scanWord (own ++ text) = scanWord own := by
  rw [scanWord, scanWord, h.takeWhile_append]

namespace StopsAt

variable {text : List Char} (h : StopsAt isNumberChar text) (own : List Char)
include h

theorem digitRun_append {isDigit : Char → Bool} (hdigit : IsDigitClass isDigit) :
    digitRun isDigit (own ++ text) = digitRun isDigit own := by
  refine (h.mono fun c hc => ?_).takeWhile_append own
  rcases Bool.or_eq_true_iff.mp hc with hc | hc
  · exact hdigit c hc
  · simp [isNumberChar, isWordChar, hc]

theorem scanRadix_append {isDigit : Char → Bool} (hdigit : IsDigitClass isDigit)
    (missing : LexicalFault) :
    scanRadix isDigit missing (own ++ text) = scanRadix isDigit missing own := by
  rw [scanRadix, scanRadix, h.digitRun_append own hdigit]

/-- The first character is none that a number may hold. -/
theorem head_eq_false {p : Char → Bool} (hp : ∀ c, p c = true → isNumberChar c = true) {c : Char}
    {rest : List Char} (htext : text = c :: rest) : p c = false :=
  h.mono hp c (by rw [htext]; rfl)

theorem fractionLength_append : fractionLength (own ++ text) = fractionLength own := by
  have hpoint : ∀ c, (c == '.') = true → isNumberChar c = true := fun c hc => by
    simp [isNumberChar, hc]
  cases own with
  | nil =>
      cases htext : text with
      | nil => rfl
      | cons c rest =>
          exact fractionLength_of_ne (ne_of_beq_false (h.head_eq_false hpoint htext)) rest
  | cons c own =>
      by_cases hc : c = '.'
      · subst hc
        cases own with
        | nil =>
            cases htext : text with
            | nil => rfl
            | cons d rest =>
                -- a point at the end is followed by no digit, whatever `text` starts with
                have hdigit := h.head_eq_false isDigitClass_isDigit htext
                rw [List.singleton_append, fractionLength,
                  if_neg (by rw [hdigit]; exact Bool.false_ne_true)]
                rfl
        | cons d own =>
            have hrun := h.digitRun_append (d :: own) isDigitClass_isDigit
            rw [List.cons_append] at hrun
            rw [List.cons_append, List.cons_append, fractionLength, fractionLength, hrun]
      · rw [List.cons_append, fractionLength_of_ne hc, fractionLength_of_ne hc]

theorem signLength_append : signLength (own ++ text) = signLength own := by
  have hsign : ∀ c, (c == '+' || c == '-') = true → isNumberChar c = true := fun c hc => by
    rcases Bool.or_eq_true_iff.mp hc with hc | hc <;> simp [isNumberChar, hc]
  cases own with
  | cons c own => rfl
  | nil =>
      cases htext : text with
      | nil => rfl
      | cons c rest =>
          have hc := h.head_eq_false hsign htext
          rw [List.nil_append, signLength, if_neg (by simpa using hc)]
          rfl

theorem scanExponent_append (n : Nat) : scanExponent n (own ++ text) = scanExponent n own := by
  have hletter : ∀ c, isExponentSign c = true → isNumberChar c = true := fun c hc => by
    rcases Bool.or_eq_true_iff.mp hc with hc | hc <;> rw [beq_iff_eq.mp hc] <;> rfl
  cases own with
  | nil =>
      cases htext : text with
      | nil => rfl
      | cons c rest =>
          have hc := h.head_eq_false hletter htext
          simp [scanExponent, hc]
  | cons c own =>
      have hdrop : (own ++ text).drop (signLength own) = own.drop (signLength own) ++ text :=
        List.drop_append_of_le_length (signLength_le own)
      rw [List.cons_append, scanExponent, scanExponent, h.signLength_append]
      dsimp only
      rw [hdrop, h.digitRun_append _ isDigitClass_isDigit]

theorem scanDecimal_append : scanDecimal (own ++ text) = scanDecimal own := by
  have hwhole := digitRun_length_le Char.isDigit own
  have hdrop {n : Nat} (hn : n ≤ own.length) : (own ++ text).drop n = own.drop n ++ text :=
    List.drop_append_of_le_length hn
  have hfraction := fractionLength_le (own.drop (digitRun Char.isDigit own).length)
  rw [List.length_drop] at hfraction
  rw [scanDecimal, scanDecimal, h.digitRun_append own isDigitClass_isDigit, hdrop hwhole,
    h.fractionLength_append, hdrop (by omega), h.scanExponent_append]

theorem scanNumber_append : scanNumber (own ++ text) = scanNumber own := by
  -- the signs of the bases are characters of numbers, and `text` starts with none of these
  have hhex : ∀ c, isHexSign c = true → isNumberChar c = true := fun c hc => by
    rcases Bool.or_eq_true_iff.mp hc with hc | hc <;> rw [beq_iff_eq.mp hc] <;> rfl
  have hoctal : ∀ c, isOctalSign c = true → isNumberChar c = true := fun c hc => by
    simp only [isOctalSign, Bool.or_eq_true, beq_iff_eq] at hc
    obtain ((rfl | rfl) | rfl) | rfl := hc <;> rfl
  have hdecimal := h.scanDecimal_append own
  cases own with
  | nil =>
      cases htext : text with
      | nil => rfl
      | cons c rest =>
          have hc : (c == '0') = false :=
            h.head_eq_false (p := (· == '0')) (fun d hd => by rw [beq_iff_eq.mp hd]; rfl) htext
          rw [htext] at hdecimal
          rw [List.nil_append] at hdecimal ⊢
          rw [scanNumber_of_ne (ne_of_beq_false hc), hdecimal]
          rfl
  | cons c own =>
      rw [List.cons_append] at hdecimal ⊢
      by_cases hc : c = '0'
      case neg => rw [scanNumber_of_ne hc, scanNumber_of_ne hc, hdecimal]
      subst hc
      cases own with
      | cons d own =>
          rw [List.cons_append] at hdecimal ⊢
          rw [scanNumber, scanNumber, h.scanRadix_append own isDigitClass_isHexDigit,
            h.scanRadix_append own isDigitClass_isOctalDigit, hdecimal]
      | nil =>
          rw [List.nil_append] at hdecimal ⊢
          rw [scanNumber_singleton, ← hdecimal]
          cases htext : text with
          | nil => exact scanNumber_singleton '0'
          | cons d rest =>
              have hd := h.head_eq_false hhex htext
              have hd' := h.head_eq_false hoctal htext
              rw [scanNumber, if_neg (by rw [hd]; exact Bool.false_ne_true),
                if_neg (by rw [hd']; exact Bool.false_ne_true)]

end StopsAt

/-! ## Marks and operators -/

theorem isPrefixOf_append_stop {entry text : List Char} (hentry : ∀ c ∈ entry, isSymbolChar c = true)
    (h : StopsAt isSymbolChar text) (own : List Char) :
    entry.isPrefixOf (own ++ text) = entry.isPrefixOf own := by
  induction entry generalizing own with
  | nil => rfl
  | cons e entry ih =>
      cases own with
      | cons c own =>
          rw [List.cons_append, List.isPrefixOf, List.isPrefixOf,
            ih fun c hc => hentry c (List.mem_cons_of_mem e hc)]
      | nil =>
          cases text with
          | nil => rfl
          | cons c text =>
              have hne : e ≠ c := by
                rintro rfl
                have hc := h e rfl
                rw [hentry e List.mem_cons_self] at hc
                cases hc
              simp [List.isPrefixOf, hne]

theorem scanSymbol_append_stop {text : List Char} (h : StopsAt isSymbolChar text)
    (own : List Char) : scanSymbol (own ++ text) = scanSymbol own := by
  have hfind : symbolTable.find? (fun entry => entry.1.isPrefixOf (own ++ text)) =
      symbolTable.find? (fun entry => entry.1.isPrefixOf own) := by
    refine List.find?_congr fun entry hentry => isPrefixOf_append_stop (fun c hc => ?_) h own
    exact List.any_eq_true.mpr ⟨entry, hentry, List.contains_iff_mem.mpr hc⟩
  rw [scanSymbol_eq_longestSymbol, scanSymbol_eq_longestSymbol, longestSymbol, hfind,
    longestSymbol]

/-! ## Blanks -/

/-- The text is empty or starts with a blank. This is what stands behind a lexeme that is set apart
from the next one. -/
def StartsBlank (text : List Char) : Prop := ∀ c ∈ text.head?, Gap.isBlank c = true

namespace StartsBlank

variable {text : List Char}

theorem nil : StartsBlank [] := nofun

theorem cons {c : Char} (hc : Gap.isBlank c = true) (text : List Char) : StartsBlank (c :: text) := by
  rintro d ⟨⟩
  exact hc

theorem stopsAt (h : StartsBlank text) {p : Char → Bool}
    (hp : [' ', '\t', '\r', '\n'].all fun c => !p c) : StopsAt p text := by
  intro c hc
  have hblank := h c hc
  simp only [Gap.isBlank, Bool.or_eq_true, beq_iff_eq] at hblank
  have hmem : c ∈ [' ', '\t', '\r', '\n'] := by
    rcases hblank with ((rfl | rfl) | rfl) | rfl <;> simp
  simpa using List.all_eq_true.mp hp c hmem

/-- A token that is no literal ends at a blank. -/
theorem scan_append (h : StartsBlank text) {c : Char} (hc : c ≠ '"' ∧ c ≠ '\'') (own : List Char) :
    scan c (own ++ text) = scan c own := by
  have hnumber : StopsAt isNumberChar text := h.stopsAt (by decide)
  rw [scan, scan, if_neg hc.1, if_neg hc.2, if_neg hc.1, if_neg hc.2, ← List.cons_append,
    scanWord_append_stop (h.stopsAt (by decide)), hnumber.scanNumber_append,
    scanSymbol_append_stop (h.stopsAt (by decide))]

/-- What starts a token in front of a blank starts it without. -/
theorem startsGap_append (h : StartsBlank text) (c : Char) (own : List Char) :
    startsGap (c :: (own ++ text)) = startsGap (c :: own) := by
  cases own with
  | cons d own => rfl
  | nil =>
      cases text with
      | nil => rfl
      | cons d text =>
          have hd : (d == '/' || Gap.isCommentSign d) = false :=
            h.stopsAt (p := fun d => d == '/' || Gap.isCommentSign d) (by decide) d rfl
          rw [List.nil_append, startsGap, startsGap, hd, Bool.and_false, Bool.or_false]

end StartsBlank

end FrontEnd
