import FrontEnd.Proofs.Text.Bytes
import FrontEnd.Proofs.Token.Places

set_option autoImplicit false

/-! # Places in the bytes of a text

A lexer stands between two bytes of a text. Most of its steps start and end between two characters,
at a `spot`: behind some characters of the text, with all their bytes read, and at the position that
those characters lead to.

From spot to spot a lexer moves in one of two ways. An ASCII character is a single byte, so one step
is enough (`advance_spot`). Any other character takes a step for each of its bytes, and in the
meantime the lexer stands within the character. No part of the lexer looks for such bytes, so a loop
that meets one does nothing but advance, and it does so until the character has been passed
(`pass_spot`). What a loop makes of the bytes at a spot is therefore what it makes of the
characters; the first cases of this are runs of characters of one class (`advanceWhile_spot`,
`digitRun_spot`, `eatAll?_spot`).
-/

namespace FrontEnd

namespace Lexer

/-! ## Places between bytes -/

/-- The place behind the bytes `front` and in front of the bytes `back`, at a position. -/
def place (front back : List UInt8) (p : Position) : Lexer :=
  ⟨(front ++ back).toByteArray, front.length, p.line, p.column - 1⟩

theorem getElem?_toByteArray (bytes : List UInt8) (i : Nat) : bytes.toByteArray[i]? = bytes[i]? := by
  by_cases h : i < bytes.length
  · have hsize : i < bytes.toByteArray.size := by rwa [List.size_toByteArray]
    rw [getElem?_pos bytes.toByteArray i hsize, List.getElem_toByteArray, getElem?_pos bytes i h]
  · have hsize : ¬ i < bytes.toByteArray.size := by rwa [List.size_toByteArray]
    rw [getElem?_neg bytes.toByteArray i hsize, getElem?_neg bytes i h]

section

variable {front back : List UInt8} {p : Position} {b : UInt8}

theorem peek?_place : (place front back p).peek? = back[0]? := by
  rw [peek?, place, getElem?_toByteArray, List.getElem?_append_right (Nat.le_refl _), Nat.sub_self]

theorem peekNext?_place : (place front back p).peekNext? = back[1]? := by
  rw [peekNext?, place, getElem?_toByteArray, List.getElem?_append_right (Nat.le_add_right _ 1),
    Nat.add_sub_cancel_left]

theorem advance_place_lineFeed :
    (place front ('\n'.toUInt8 :: back) p).advance =
      place (front ++ ['\n'.toUInt8]) back ⟨p.line + 1, 1⟩ := by
  rw [advance, peek?_place]
  simp [place]

theorem advance_place_continuation (hb : isContinuation b = true) :
    (place front (b :: back) p).advance = place (front ++ [b]) back p := by
  have hne : b ≠ '\n'.toUInt8 := by
    rintro rfl
    cases hb
  rw [advance, peek?_place]
  simp [hb, hne, place]

theorem advance_place_first (hne : b ≠ '\n'.toUInt8) (hb : isContinuation b = false)
    (hp : 1 ≤ p.column) :
    (place front (b :: back) p).advance = place (front ++ [b]) back ⟨p.line, p.column + 1⟩ := by
  have hcolumn : p.column - 1 + 1 = p.column := Nat.sub_add_cancel hp
  rw [advance, peek?_place]
  simp [hb, hne, place, hcolumn]

/-- A function that makes nothing of continuations but advances over them passes the rest of a
character. -/
theorem pass_continuations {α : Type} {f : Lexer → α} {tail : List UInt8}
    (hf : ∀ l b, l.peek? = some b → isContinuation b = true → f l = f l.advance)
    (htail : ∀ b ∈ tail, isContinuation b = true) :
    f (place front (tail ++ back) p) = f (place (front ++ tail) back p) := by
  induction tail generalizing front with
  | nil => rw [List.nil_append, List.append_nil]
  | cons b tail ih =>
      obtain ⟨hb, htail⟩ := List.forall_mem_cons.mp htail
      have hpeek : (place front (b :: tail ++ back) p).peek? = some b := peek?_place
      rw [hf _ b hpeek hb, List.cons_append,
        advance_place_continuation hb, ih htail, List.append_assoc, List.singleton_append]

end

/-! ## Places between characters -/

/-- The place behind the first `n` characters of a text that stands behind the characters `read`.
Between two characters a lexer is always at such a place. -/
def spot (read text : List Char) (n : Nat) : Lexer :=
  place (utf8 (read ++ text.take n)) (utf8 (text.drop n)) (Position.start.after (read ++ text.take n))

variable {read text rest : List Char} {n : Nat} {c : Char}

theorem drop_succ_of_drop (h : text.drop n = c :: rest) : text.drop (n + 1) = rest := by
  rw [← List.drop_drop, h]
  rfl

theorem one_le_column (text : List Char) : 1 ≤ (Position.start.after text).column := by
  rw [Position.after_start]
  exact Nat.le_add_right 1 _

theorem position_spot : (spot read text n).position = Position.start.after (read ++ text.take n) := by
  have hcolumn := one_le_column (read ++ text.take n)
  rw [position, spot, place, Nat.sub_add_cancel hcolumn]

theorem spot_eq (h : text.drop n = c :: rest) :
    spot read text n =
      place (utf8 (read ++ text.take n)) (String.utf8EncodeChar c ++ utf8 rest)
        (Position.start.after (read ++ text.take n)) := by
  rw [spot, h, utf8_cons]

/-- The place behind the next character. -/
theorem spot_succ (h : text.drop n = c :: rest) :
    spot read text (n + 1) =
      place (utf8 (read ++ text.take n) ++ String.utf8EncodeChar c) (utf8 rest)
        ((Position.start.after (read ++ text.take n)).step c) := by
  have htake : text.take (n + 1) = text.take n ++ [c] := by
    rw [List.take_add, h]
    rfl
  have hdrop : text.drop (n + 1) = rest := drop_succ_of_drop h
  have hfront : utf8 ((read ++ text.take n) ++ [c]) =
      utf8 (read ++ text.take n) ++ String.utf8EncodeChar c := by
    rw [utf8_append, utf8_cons, utf8_nil, List.append_nil]
  rw [spot, htake, hdrop, ← List.append_assoc, hfront, Position.after_append _ (read ++ _)]
  rfl

/-- An ASCII character is read with one byte. -/
theorem advance_spot (h : text.drop n = c :: rest) (hc : isAscii c = true) :
    (spot read text n).advance = spot read text (n + 1) := by
  rw [spot_eq h, spot_succ h, utf8EncodeChar_of_isAscii hc, List.singleton_append, Position.step]
  by_cases hline : c = '\n'
  · subst hline
    rw [if_pos rfl, advance_place_lineFeed]
  · have hne : c.toUInt8 ≠ '\n'.toUInt8 := by
      intro he
      have hchars := congrArg Char.ofUInt8 he
      rw [ofUInt8_toUInt8 hc] at hchars
      exact hline hchars
    have hlt := (toNat_toUInt8 hc).2
    have hfirst : isContinuation c.toUInt8 = false := by
      rw [Bool.eq_false_iff, ne_eq, isContinuation_iff]
      omega
    rw [if_neg hline, advance_place_first hne hfirst (one_le_column _)]

/-- Behind the first byte of another character there are the other bytes of it. -/
theorem advance_spot_other (read : List Char) (h : text.drop n = c :: rest) (hc : isAscii c = false) :
    ∃ b front tail p, (spot read text n).peek? = some b ∧ 192 ≤ b.toNat ∧
      (∀ x ∈ tail, isContinuation x = true) ∧
      (spot read text n).advance = place front (tail ++ utf8 rest) p ∧
      place (front ++ tail) (utf8 rest) p = spot read text (n + 1) := by
  obtain ⟨b, tail, hbytes, hb, htail⟩ := utf8EncodeChar_of_not_isAscii hc
  have hne : b ≠ '\n'.toUInt8 := by
    rintro rfl
    exact absurd hb (by decide)
  have hfirst : isContinuation b = false := by
    rw [Bool.eq_false_iff, ne_eq, isContinuation_iff]
    omega
  have hline : c ≠ '\n' := by
    rintro rfl
    cases hc
  rw [spot_eq h, spot_succ h, hbytes, Position.step, if_neg hline, List.cons_append]
  refine ⟨b, _, tail, _, peek?_place, hb, htail, advance_place_first hne hfirst (one_le_column _), ?_⟩
  rw [List.append_assoc, List.singleton_append]

/-- Another character is passed by a function that only advances over its bytes. -/
theorem pass_spot {α : Type} {f : Lexer → α} (h : text.drop n = c :: rest)
    (hc : isAscii c = false)
    (hf : ∀ l b, l.peek? = some b → 128 ≤ b.toNat → f l = f l.advance) :
    f (spot read text n) = f (spot read text (n + 1)) := by
  obtain ⟨b, front, tail, p, hpeek, hb, htail, hadvance, hbehind⟩ := advance_spot_other read h hc
  have hcontinues : ∀ l b, l.peek? = some b → isContinuation b = true → f l = f l.advance :=
    fun l b hb hcontinues => hf l b hb ((isContinuation_iff b).mp hcontinues).1
  rw [hf _ b hpeek (by omega), hadvance, pass_continuations hcontinues htail, hbehind]

theorem peek?_spot_nil (h : text.drop n = []) : (spot read text n).peek? = none := by
  rw [spot, h, peek?_place]
  rfl

/-- The next byte between characters starts a character, and is the whole of an ASCII character. -/
theorem peek?_spot_cons (read : List Char) (h : text.drop n = c :: rest) :
    ∃ b, (spot read text n).peek? = some b ∧ isContinuation b = false ∧
      (isAscii c = true → Char.ofUInt8 b = c) ∧ (isAscii c = false → 128 ≤ b.toNat) := by
  cases hc : isAscii c with
  | true =>
      have hlt := (toNat_toUInt8 hc).2
      have hfirst : isContinuation c.toUInt8 = false := by
        rw [Bool.eq_false_iff, ne_eq, isContinuation_iff]
        omega
      rw [spot_eq h, peek?_place, utf8EncodeChar_of_isAscii hc]
      exact ⟨_, rfl, hfirst, fun _ => ofUInt8_toUInt8 hc, nofun⟩
  | false =>
      obtain ⟨b, _, _, _, hpeek, hb, _⟩ := advance_spot_other read h hc
      have hfirst : isContinuation b = false := by
        rw [Bool.eq_false_iff, ne_eq, isContinuation_iff]
        omega
      exact ⟨b, hpeek, hfirst, nofun, fun _ => by omega⟩

/-- A byte shows a character of a class of ASCII characters if this character is next. -/
theorem sees_spot {p : Char → Bool} (hp : OnlyAscii p) :
    (spot read text n).sees p = (text.drop n).head?.any p := by
  rw [sees]
  cases h : text.drop n with
  | nil => rw [peek?_spot_nil h]; rfl
  | cons c rest =>
      obtain ⟨b, hb, -, hascii, hother⟩ := peek?_spot_cons read h
      rw [hb]
      show p (Char.ofUInt8 b) = p c
      cases hc : isAscii c with
      | true => rw [hascii hc]
      | false => rw [hp.ofUInt8 (hother hc), hp.eq_false hc]

theorem sees_spot_cons {p : Char → Bool} (hp : OnlyAscii p) (h : text.drop n = c :: rest) :
    (spot read text n).sees p = p c := by
  rw [sees_spot hp, h]
  rfl

theorem sees_spot_nil {p : Char → Bool} (h : text.drop n = []) :
    (spot read text n).sees p = false := by
  rw [sees, peek?_spot_nil h]
  rfl

theorem seesNext_spot {p : Char → Bool} (hp : OnlyAscii p) (h : text.drop n = c :: rest)
    (hc : isAscii c = true) : (spot read text n).seesNext p = rest.head?.any p := by
  have hnext : (spot read text n).peekNext? = (spot read text (n + 1)).peek? := by
    rw [spot_eq h, spot_succ h, utf8EncodeChar_of_isAscii hc, peekNext?_place, peek?_place]
    rfl
  rw [seesNext, hnext, ← drop_succ_of_drop h]
  exact sees_spot hp

theorem sees_of_le {p : Char → Bool} (hp : OnlyAscii p) {l : Lexer} {b : UInt8}
    (h : l.peek? = some b) (hb : 128 ≤ b.toNat) : l.sees p = false := by
  rw [sees, h]
  exact hp.ofUInt8 hb

/-- One step for any next character: a function that only advances at it goes on behind it. -/
theorem step_spot {α : Type} {f : Lexer → α} (h : text.drop n = c :: rest)
    (hf : ∀ l b, l.peek? = some b → 128 ≤ b.toNat → f l = f l.advance)
    (hascii : isAscii c = true → f (spot read text n) = f (spot read text n).advance) :
    f (spot read text n) = f (spot read text (n + 1)) := by
  cases hc : isAscii c with
  | true => rw [hascii hc, advance_spot h hc]
  | false => exact pass_spot h hc hf

/-- Behind the end of a text there is only one place. -/
theorem spot_of_drop_nil (h : text.drop n = []) : spot read text n = spot read text text.length := by
  have hle : text.length ≤ n := List.drop_eq_nil_iff.mp h
  rw [spot, spot, h, List.drop_length, List.take_of_length_le hle, List.take_length]

/-! ## Runs of characters -/

theorem advanceWhile_of_peek {p : UInt8 → Bool} {l : Lexer} {b : UInt8} (h : l.peek? = some b)
    (hb : p b = true) : l.advanceWhile p = l.advance.advanceWhile p := by
  rw [advanceWhile, h]
  exact dif_pos hb

theorem advanceWhile_stop {p : UInt8 → Bool} {l : Lexer} (h : l.peek?.any p = false) :
    l.advanceWhile p = l := by
  rw [advanceWhile]
  exact dif_neg (by rw [h]; exact Bool.false_ne_true)

/-- A run of characters, where one answer holds for all that are no ASCII characters. -/
theorem advanceWhile_spot {q : Char → Bool} {answer : Bool}
    (hq : ∀ c, isAscii c = false → q c = answer) (n : Nat) :
    (spot read text n).advanceWhile (fun b => q (Char.ofUInt8 b)) =
      spot read text (n + ((text.drop n).takeWhile q).length) := by
  generalize hl : text.drop n = l
  induction l generalizing n with
  | nil =>
      refine advanceWhile_stop ?_
      rw [peek?_spot_nil hl]
      rfl
  | cons c rest ih =>
      have hrest := drop_succ_of_drop hl
      obtain ⟨b, hb, -, hascii, hother⟩ := peek?_spot_cons read hl
      -- the first byte of a character is answered as the character is
      have hsame : q (Char.ofUInt8 b) = q c := by
        cases hc : isAscii c with
        | true => rw [hascii hc]
        | false => rw [hq c hc, hq _ (isAscii_ofUInt8 (hother hc))]
      cases hqc : q c with
      | false =>
          rw [List.takeWhile_cons_of_neg (by rw [hqc]; exact Bool.false_ne_true)]
          refine advanceWhile_stop ?_
          rw [hb]
          exact hsame.trans hqc
      | true =>
          have hstep : (spot read text n).advanceWhile (fun b => q (Char.ofUInt8 b)) =
              (spot read text (n + 1)).advanceWhile (fun b => q (Char.ofUInt8 b)) := by
            cases hc : isAscii c with
            | true => rw [advanceWhile_of_peek hb (hsame.trans hqc), advance_spot hl hc]
            | false =>
                -- the other bytes of a character are answered alike, so they are passed over with
                -- the first
                refine pass_spot hl hc fun l b hb hle => advanceWhile_of_peek hb ?_
                rw [hq _ (isAscii_ofUInt8 hle), ← hq c hc, hqc]
          rw [hstep, ih _ hrest, List.takeWhile_cons_of_pos hqc, List.length_cons,
            Nat.add_assoc, Nat.add_comm 1]

/-- Between characters there is nothing left of a character. -/
theorem advanceWhile_isContinuation_spot (n : Nat) :
    (spot read text n).advanceWhile isContinuation = spot read text n := by
  refine advanceWhile_stop ?_
  cases hl : text.drop n with
  | nil =>
      rw [peek?_spot_nil hl]
      rfl
  | cons c rest =>
      obtain ⟨b, hb, hfirst, -⟩ := peek?_spot_cons read hl
      rw [hb]
      exact hfirst

/-- The first byte of a character and the continuations behind it are the character. -/
theorem advanceWhile_isContinuation_advance (h : text.drop n = c :: rest) :
    (spot read text n).advance.advanceWhile isContinuation = spot read text (n + 1) := by
  cases hc : isAscii c with
  | true => rw [advance_spot h hc, advanceWhile_isContinuation_spot]
  | false =>
      obtain ⟨b, front, tail, p, -, -, htail, hadvance, hbehind⟩ := advance_spot_other read h hc
      have hpass : (place front (tail ++ utf8 rest) p).advanceWhile isContinuation =
          (place (front ++ tail) (utf8 rest) p).advanceWhile isContinuation :=
        pass_continuations (fun _ _ hb => advanceWhile_of_peek hb) htail
      rw [hadvance, hpass, hbehind, advanceWhile_isContinuation_spot]

/-- A run of characters of a class of ASCII characters. -/
theorem advanceWhile_class {q : Char → Bool} (hq : OnlyAscii q) (n : Nat) :
    (spot read text n).advanceWhile (fun b => q (Char.ofUInt8 b)) =
      spot read text (n + ((text.drop n).takeWhile q).length) :=
  advanceWhile_spot (fun _ hc => hq.eq_false hc) n

/-- A run of digits and underscores, with the number of digits in it. -/
theorem digitRun_spot {isDigit : Char → Bool} (hdigit : OnlyAscii isDigit) (n : Nat) :
    (spot read text n).digitRun isDigit =
      ((FrontEnd.digitRun isDigit (text.drop n)).countP isDigit,
        spot read text (n + (FrontEnd.digitRun isDigit (text.drop n)).length)) := by
  generalize hl : text.drop n = l
  induction l generalizing n with
  | nil =>
      rw [digitRun, dif_neg (by rw [sees_spot_nil hl]; exact Bool.false_ne_true),
        dif_neg (by rw [sees_spot_nil hl]; exact Bool.false_ne_true)]
      rfl
  | cons c rest ih =>
      have hrest := drop_succ_of_drop hl
      have hsees (p : Char → Bool) (hp : OnlyAscii p) : (spot read text n).sees p = p c := by
        rw [sees_spot hp, hl]
        rfl
      rw [digitRun, hsees _ hdigit, hsees _ (onlyAscii_beq rfl), FrontEnd.digitRun]
      by_cases hc : isDigit c = true
      · rw [dif_pos hc, advance_spot hl (hdigit c hc), ih _ hrest,
          List.takeWhile_cons_of_pos (by rw [hc]; rfl), List.countP_cons_of_pos hc,
          List.length_cons, Nat.add_assoc, Nat.add_comm 1]
        rfl
      · rw [dif_neg hc]
        by_cases hunderscore : (c == '_') = true
        · rw [dif_pos hunderscore, advance_spot hl (onlyAscii_beq rfl c hunderscore), ih _ hrest,
            List.takeWhile_cons_of_pos (by rw [hunderscore, Bool.or_true]),
            List.countP_cons_of_neg hc, List.length_cons, Nat.add_assoc, Nat.add_comm 1]
          rfl
        · rw [dif_neg hunderscore, List.takeWhile_cons_of_neg (by simp [hc, hunderscore])]
          rfl

/-- Some ASCII characters are read if they are next. -/
theorem eatAll?_spot {expected : List Char} (hexpected : ∀ c ∈ expected, isAscii c = true)
    (n : Nat) :
    (spot read text n).eatAll? expected =
      if expected.isPrefixOf (text.drop n) then some (spot read text (n + expected.length))
      else none := by
  induction expected generalizing n with
  | nil => simp [eatAll?]
  | cons d expected ih =>
      obtain ⟨hd, hothers⟩ := List.forall_mem_cons.mp hexpected
      rw [eatAll?, sees_spot (onlyAscii_beq hd)]
      cases hl : text.drop n with
      | nil => rfl
      | cons c rest =>
          rw [List.head?_cons, Option.any_some, List.isPrefixOf_cons_cons]
          by_cases hcd : c = d
          · subst hcd
            have hrest := drop_succ_of_drop hl
            rw [beq_self_eq_true, if_pos rfl, Bool.true_and, advance_spot hl hd, ih hothers,
              hrest, List.length_cons, Nat.add_assoc, Nat.add_comm 1]
          · have hne : (c == d) = false := beq_false_of_ne hcd
            have hne' : (d == c) = false := beq_false_of_ne (Ne.symm hcd)
            rw [hne, hne', Bool.false_and]
            rfl

end Lexer

end FrontEnd
