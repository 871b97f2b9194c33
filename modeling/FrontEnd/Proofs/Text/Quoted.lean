import FrontEnd.Grammar.Expression
import FrontEnd.Proofs.Decimal.Positional
import FrontEnd.Proofs.Token.Bounded
import FrontEnd.Text.Quoted

set_option autoImplicit false

/-! # Quoted texts can be read back

What stands between the delimiters of a quoted text may hold spaces, parentheses and delimiters.
Even so the quoted text tells where it ends, and which text was quoted (`quote_append_inj`): a
backslash only stands at the start of what one character is written as, and the delimiter never
does.

What a character is written as has one of four forms (`EscapesTo`), and their first two characters
tell which. In the longest form a code point stands in braces; there the digits end at the brace,
and the number that they stand for is the code point.
-/

namespace FrontEnd

open Grammar

/-- Texts of a class of characters are told from what follows them. -/
theorem StopsAt.append_inj {p : Char → Bool} {text text' rest rest' : List Char}
    (htext : ∀ c ∈ text, p c = true) (htext' : ∀ c ∈ text', p c = true) (hrest : StopsAt p rest)
    (hrest' : StopsAt p rest') (h : text ++ rest = text' ++ rest') : text = text' ∧ rest = rest' := by
  have hrun {text rest : List Char} (htext : ∀ c ∈ text, p c = true) (hrest : StopsAt p rest) :
      (text ++ rest).takeWhile p = text := by
    rw [hrest.takeWhile_append, List.takeWhile_eq_self_iff]
    exact htext
  have heq : text = text' := by rw [← hrun htext hrest, h, hrun htext' hrest']
  subst heq
  exact ⟨rfl, List.append_cancel_left h⟩

/-! ## Code points -/

/-- A code point to base sixteen is made of digits, and the number that they stand for is the code
point. -/
theorem toDigits_sixteen (n : Nat) :
    (∀ c ∈ Nat.toDigits 16 n, isHexDigit c = true) ∧ positional 16 (Nat.toDigits 16 n) = n := by
  have hdigit : ∀ n < 16, isHexDigit n.digitChar = true ∧ digitPlace n.digitChar = n := by decide
  induction n using Nat.strongRecOn with
  | _ n ih =>
      by_cases hn : n < 16
      · obtain ⟨hhex, hplace⟩ := hdigit n hn
        rw [Nat.toDigits_of_lt_base hn]
        refine ⟨List.forall_mem_singleton.mpr hhex, ?_⟩
        simp [positional, hplace]
      · obtain ⟨hhex, hplace⟩ := hdigit (n % 16) (Nat.mod_lt _ (by decide))
        obtain ⟨hdigits, hvalue⟩ := ih (n / 16) (by omega)
        rw [Nat.toDigits_of_base_le (by decide) (Nat.le_of_not_lt hn)]
        refine ⟨List.forall_mem_append.mpr ⟨hdigits, List.forall_mem_singleton.mpr hhex⟩, ?_⟩
        rw [positional, List.reverse_append, List.reverse_singleton, List.singleton_append,
          List.map_cons, Nat.ofDigits_cons, ← positional, hplace, hvalue]
        exact Nat.mod_add_div n 16

theorem escapeCode_append_inj {c c' : Char} {rest rest' : List Char}
    (h : escapeCode c ++ rest = escapeCode c' ++ rest') : c = c' ∧ rest = rest' := by
  simp only [escapeCode, List.cons_append, List.append_assoc, List.cons.injEq, true_and] at h
  have hstop (rest : List Char) : StopsAt isHexDigit ('\x7d' :: rest) := .cons (by decide) rest
  obtain ⟨hdigits, hrest⟩ :=
    (hstop rest).append_inj (toDigits_sixteen _).1 (toDigits_sixteen _).1 (hstop rest') h
  have hcode := congrArg (positional 16) hdigits
  rw [(toDigits_sixteen _).2, (toDigits_sixteen _).2] at hcode
  exact ⟨Char.toNat_inj.mp hcode, (List.cons.inj hrest).2⟩

/-! ## Characters -/

/-- The two delimiters. -/
def IsDelimiter (c : Char) : Prop := c = '"' ∨ c = '\''

/-- How a character is written: by a letter behind a backslash, as it is, or by its code point. -/
inductive EscapesTo (delimiter c : Char) : List Char → Prop where
  | letter {l : Char} (h : unescapeLetter? l = some c) : EscapesTo delimiter c ['\\', l]
  | plain (hc : c ≠ '\\') (hdelimiter : c ≠ delimiter) : EscapesTo delimiter c [c]
  | code : EscapesTo delimiter c (escapeCode c)

/-- The letters behind a backslash are those that are read back. -/
theorem unescapeLetter?_escapeLetter? {c l : Char} (h : escapeLetter? c = some l) :
    unescapeLetter? l = some c := by
  unfold escapeLetter? at h
  repeat'
    split at h
    next hc =>
      cases h
      rw [hc]
      rfl
  cases h

section

variable {delimiter : Char} (hdelimiter : IsDelimiter delimiter)
include hdelimiter

theorem escapesTo_escape (c : Char) : EscapesTo delimiter c (escape delimiter c) := by
  unfold escape
  split
  · next l hl => exact .letter (unescapeLetter?_escapeLetter? hl)
  · next hnone =>
    split
    · next hc =>
      subst hc
      refine .letter ?_
      rcases hdelimiter with rfl | rfl <;> rfl
    · next hc =>
      split
      · refine .plain ?_ hc
        rintro rfl
        cases hnone
      · exact .code

/-- What a character is written as tells where it ends and which character it is. -/
theorem escape_append_inj {c c' : Char} {rest rest' : List Char}
    (h : escape delimiter c ++ rest = escape delimiter c' ++ rest') : c = c' ∧ rest = rest' := by
  have hwritten := escapesTo_escape hdelimiter c
  have hwritten' := escapesTo_escape hdelimiter c'
  generalize escape delimiter c = own at h hwritten
  generalize escape delimiter c' = own' at h hwritten'
  have hcode : unescapeLetter? 'u' = none := rfl
  -- a character stands for itself, or a backslash starts its escape; the code has a letter of its
  -- own, so the three ways to write a character exclude each other
  cases hwritten with
  | letter hl =>
      cases hwritten' with
      | letter hl' =>
          cases h
          exact ⟨Option.some.inj (hl.symm.trans hl'), rfl⟩
      | plain hc =>
          cases h
          exact absurd rfl hc
      | code =>
          cases h
          rw [hcode] at hl
          cases hl
  | plain hc =>
      cases hwritten' with
      | letter =>
          cases h
          exact absurd rfl hc
      | plain => exact List.cons.inj h
      | code =>
          cases h
          exact absurd rfl hc
  | code =>
      cases hwritten' with
      | letter hl =>
          cases h
          rw [hcode] at hl
          cases hl
      | plain hc =>
          cases h
          exact absurd rfl hc
      | code => exact escapeCode_append_inj h

/-- No character is written as a text that starts with the delimiter. -/
theorem escape_append_ne (c : Char) (rest rest' : List Char) :
    escape delimiter c ++ rest ≠ delimiter :: rest' := by
  have hne : '\\' ≠ delimiter := by rcases hdelimiter with rfl | rfl <;> decide
  have hwritten := escapesTo_escape hdelimiter c
  generalize escape delimiter c = own at hwritten
  intro h
  cases hwritten with
  | letter | code => exact hne (List.cons.inj h).1
  | plain _ hc => exact hc (List.cons.inj h).1

/-- A quoted text tells where it ends and what was quoted. -/
theorem quote_append_inj {text text' rest rest' : List Char}
    (h : quote delimiter text ++ rest = quote delimiter text' ++ rest') :
    text = text' ∧ rest = rest' := by
  simp only [quote, List.cons_append, List.append_assoc, List.cons.injEq, true_and] at h
  induction text generalizing text' with
  | nil =>
      cases text' with
      | nil => exact ⟨rfl, (List.cons.inj h).2⟩
      | cons c' text' =>
          rw [List.flatMap_cons, List.append_assoc] at h
          exact absurd h.symm (escape_append_ne hdelimiter _ _ _)
  | cons c text ih =>
      rw [List.flatMap_cons, List.append_assoc] at h
      cases text' with
      | nil => exact absurd h (escape_append_ne hdelimiter _ _ _)
      | cons c' text' =>
          rw [List.flatMap_cons, List.append_assoc] at h
          obtain ⟨rfl, hrest⟩ := escape_append_inj hdelimiter h
          obtain ⟨rfl, rfl⟩ := ih hrest
          exact ⟨rfl, rfl⟩

end

end FrontEnd
