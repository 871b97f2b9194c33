import FrontEnd.Proofs.Token.Fading

set_option autoImplicit false

/-! # Where literals end

A literal is closed by the first delimiter behind the one that opens it that does not stand directly
behind a backslash (`ClosesFirst`). This says nothing about how a literal is read: a backslash and a
delimiter behind it are read as a pair, and a backslash in front of anything else alone, which comes
to the same, since a delimiter that is read as part of a pair is no backslash.

Line feeds and all other characters belong to the literal. Without a delimiter that closes it the
whole text is faulty.

Whether a character can close depends on the one in front of it, so an induction over the text has
to carry that character along (`closingLength_cases`). Behind a pair that was read as one the
character in front is the delimiter, which is no backslash.
-/

namespace FrontEnd

/-! ## The delimiter that closes a literal -/

/-- The character at index `n` of a text, whose first one opens a literal, can close it. Only the
character directly in front of it counts, even if that one is escaped itself. -/
def ClosesAt (delimiter : Char) (text : List Char) (n : Nat) : Prop :=
  0 < n ∧ text[n]? = some delimiter ∧ text[n - 1]? ≠ some '\\'

instance (delimiter : Char) (text : List Char) (n : Nat) : Decidable (ClosesAt delimiter text n) :=
  inferInstanceAs (Decidable (0 < n ∧ text[n]? = some delimiter ∧ text[n - 1]? ≠ some '\\'))

/-- The character at index `n` closes the literal that the text starts with, and none in front of it
can. There is at most one such index (`ClosesFirst.unique`). -/
structure ClosesFirst (delimiter : Char) (text : List Char) (n : Nat) : Prop where
  closes : ClosesAt delimiter text n
  first : ∀ m < n, ¬ ClosesAt delimiter text m

section

variable {delimiter p c : Char} {text : List Char} {n m : Nat}

theorem not_closesAt_zero : ¬ ClosesAt delimiter text 0 := by
  rintro ⟨hpos, -, -⟩
  omega

theorem not_closesAt_singleton : ¬ ClosesAt delimiter [p] n := by
  rintro ⟨hpos, hn, -⟩
  rw [List.getElem?_eq_none (by rw [List.length_singleton]; omega)] at hn
  cases hn

/-- The character behind the first one can close a literal, or one behind it. -/
theorem closesAt_cons_cons :
    ClosesAt delimiter (p :: c :: text) (n + 1) ↔
      n = 0 ∧ c = delimiter ∧ p ≠ '\\' ∨ ClosesAt delimiter (c :: text) n := by
  cases n with
  | zero => simp [ClosesAt]
  | succ n => simp [ClosesAt]

/-- One more character in front, unless it lets the one behind it close, only moves what closes. -/
theorem closesAt_cons (hc : c = delimiter → p = '\\') :
    ClosesAt delimiter (p :: c :: text) m ↔ ∃ n, m = n + 1 ∧ ClosesAt delimiter (c :: text) n := by
  constructor
  · intro h
    cases m with
    | zero => exact absurd h not_closesAt_zero
    | succ n =>
        rcases closesAt_cons_cons.mp h with ⟨-, hdelimiter, hp⟩ | hbehind
        · exact absurd (hc hdelimiter) hp
        · exact ⟨n, rfl, hbehind⟩
  · rintro ⟨n, rfl, hn⟩
    exact closesAt_cons_cons.mpr (.inr hn)

/-- Characters without a delimiter among them, in front of a character that is none, only move what
closes. -/
theorem closesAt_append (hc : c ≠ delimiter) {own : List Char} (hown : delimiter ∉ own) :
    ClosesAt delimiter (own ++ c :: text) m ↔
      ∃ n, m = own.length + n ∧ ClosesAt delimiter (c :: text) n := by
  induction own generalizing m with
  | nil => simp
  | cons p own ih =>
      rw [List.mem_cons, not_or] at hown
      have hcons : ClosesAt delimiter (p :: (own ++ c :: text)) m ↔
          ∃ n, m = n + 1 ∧ ClosesAt delimiter (own ++ c :: text) n := by
        cases own with
        | nil => exact closesAt_cons fun he => absurd he hc
        | cons d own =>
            refine closesAt_cons fun he => ?_
            rw [he] at hown
            exact absurd List.mem_cons_self hown.2
      rw [List.cons_append, hcons, List.length_cons]
      constructor
      · rintro ⟨_, rfl, hbehind⟩
        obtain ⟨n, rfl, hn⟩ := (ih hown.2).mp hbehind
        exact ⟨n, by omega, hn⟩
      · rintro ⟨n, rfl, hn⟩
        exact ⟨own.length + n, by omega, (ih hown.2).mpr ⟨n, rfl, hn⟩⟩

theorem ClosesFirst.unique (hn : ClosesFirst delimiter text n) (hm : ClosesFirst delimiter text m) :
    n = m := by
  rcases Nat.lt_trichotomy n m with hlt | heq | hgt
  · exact absurd hn.closes (hm.first n hlt)
  · exact heq
  · exact absurd hm.closes (hn.first m hgt)

theorem ClosesFirst.cons (h : ClosesFirst delimiter (c :: text) n) (hc : c = delimiter → p = '\\') :
    ClosesFirst delimiter (p :: c :: text) (n + 1) where
  closes := (closesAt_cons hc).mpr ⟨n, rfl, h.closes⟩
  first := by
    intro m hm hcloses
    obtain ⟨k, rfl, hk⟩ := (closesAt_cons hc).mp hcloses
    exact h.first k (by omega) hk

theorem not_closesAt_cons (h : ∀ n, ¬ ClosesAt delimiter (c :: text) n)
    (hc : c = delimiter → p = '\\') (n : Nat) : ¬ ClosesAt delimiter (p :: c :: text) n := by
  intro hcloses
  obtain ⟨k, -, hk⟩ := (closesAt_cons hc).mp hcloses
  exact h k hk

theorem ClosesFirst.append (h : ClosesFirst delimiter (c :: text) n) (hc : c ≠ delimiter)
    {own : List Char} (hown : delimiter ∉ own) :
    ClosesFirst delimiter (own ++ c :: text) (own.length + n) where
  closes := (closesAt_append hc hown).mpr ⟨n, rfl, h.closes⟩
  first := by
    intro m hm hcloses
    obtain ⟨k, rfl, hk⟩ := (closesAt_append hc hown).mp hcloses
    exact h.first k (by omega) hk

theorem not_closesAt_append (h : ∀ n, ¬ ClosesAt delimiter (c :: text) n) (hc : c ≠ delimiter)
    {own : List Char} (hown : delimiter ∉ own) (n : Nat) :
    ¬ ClosesAt delimiter (own ++ c :: text) n := by
  intro hcloses
  obtain ⟨k, -, hk⟩ := (closesAt_append hc hown).mp hcloses
  exact h k hk

/-- The delimiter that follows closes, if no backslash stands in front of it. -/
theorem closesFirst_one (hp : p ≠ '\\') (text : List Char) :
    ClosesFirst delimiter (p :: delimiter :: text) 1 where
  closes := closesAt_cons_cons.mpr (.inl ⟨rfl, rfl, hp⟩)
  first := by
    intro k hk
    obtain rfl : k = 0 := by omega
    exact not_closesAt_zero

/-- Behind a character `p`, unless that is a backslash in front of a delimiter, what is found is the
first delimiter that closes, and if nothing is found none closes. -/
theorem closingLength_cases (hdelimiter : delimiter ≠ '\\')
    (hp : p = '\\' → text.head? ≠ some delimiter) :
    (∃ k, closingLength delimiter n text = some (n + k) ∧ ClosesFirst delimiter (p :: text) k) ∨
      closingLength delimiter n text = none ∧ ∀ k, ¬ ClosesAt delimiter (p :: text) k := by
  fun_induction closingLength delimiter n text generalizing p with
  | case1 => exact .inr ⟨rfl, fun k => not_closesAt_singleton⟩
  | case2 n | case4 n d rest =>
      have hplain : p ≠ '\\' := fun hslash => hp hslash rfl
      exact .inl ⟨1, rfl, closesFirst_one hplain _⟩
  | case3 n c hc =>
      exact .inr ⟨rfl, not_closesAt_cons (fun k => not_closesAt_singleton) fun he => absurd he hc⟩
  | case5 n c d rest hc hpair ih =>
      -- the delimiter of the pair takes the place of the character in front
      obtain ⟨rfl, rfl⟩ := hpair
      rcases ih fun hslash => absurd hslash hdelimiter with ⟨k, hfound, hk⟩ | ⟨hfound, hnone⟩
      · refine .inl ⟨k + 1 + 1, ?_, (hk.cons fun _ => rfl).cons fun he => absurd he hc⟩
        rw [hfound, Nat.add_assoc, Nat.add_comm 2]
      · exact .inr ⟨hfound, not_closesAt_cons (not_closesAt_cons hnone fun _ => rfl) fun he =>
          absurd he hc⟩
  | case6 n c d rest hc hpair ih =>
      have hnext : c = '\\' → (d :: rest).head? ≠ some delimiter := by
        intro hslash hd
        exact hpair ⟨hslash, Option.some.inj hd⟩
      rcases ih hnext with ⟨k, hfound, hk⟩ | ⟨hfound, hnone⟩
      · refine .inl ⟨k + 1, ?_, hk.cons fun he => absurd he hc⟩
        rw [hfound, Nat.add_assoc, Nat.add_comm 1]
      · exact .inr ⟨hfound, not_closesAt_cons hnone fun he => absurd he hc⟩

/-- If nothing is found, no delimiter closes. -/
theorem not_closesAt_of_closingLength (hdelimiter : delimiter ≠ '\\')
    (hp : p = '\\' → text.head? ≠ some delimiter)
    (h : closingLength delimiter n text = none) (k : Nat) : ¬ ClosesAt delimiter (p :: text) k := by
  rcases closingLength_cases (n := n) hdelimiter hp with ⟨j, hfound, -⟩ | ⟨-, hnone⟩
  · rw [h] at hfound
    cases hfound
  · exact hnone k

end

/-! ## Literals of both kinds -/

/-- The kinds of literals. -/
inductive LiteralKind where
  | string
  | character
deriving DecidableEq, Repr

namespace LiteralKind

/-- The character on either side of a literal. -/
def delimiter : LiteralKind → Char
  | string => '"'
  | character => '\''

/-- The kind of the tokens. -/
def kind : LiteralKind → Kind
  | string => .stringLiteral
  | character => .charLiteral

/-- What is wrong with a literal that nothing closes. -/
def unterminated : LiteralKind → LexicalFault
  | string => .unterminatedString
  | character => .unterminatedCharacter

variable (l : LiteralKind)

theorem delimiter_ne_backslash : l.delimiter ≠ '\\' := by
  cases l <;> decide

theorem scan_delimiter (rest : List Char) :
    scan l.delimiter rest = scanQuoted l.delimiter l.kind l.unterminated rest := by
  cases l with
  | string => rw [delimiter, scan, if_neg (by decide), if_neg (by decide), if_pos rfl]; rfl
  | character =>
      rw [delimiter, scan, if_neg (by decide), if_neg (by decide), if_neg (by decide), if_pos rfl]
      rfl

theorem startsGap_delimiter (rest : List Char) : startsGap (l.delimiter :: rest) = false := by
  cases l <;> cases rest <;> rfl

/-- A literal goes up to the first delimiter that closes it. Without one all of the text is faulty. -/
theorem scan_cases (rest : List Char) :
    (∃ n, ClosesFirst l.delimiter (l.delimiter :: rest) n ∧
        scan l.delimiter rest = .token l.kind (n + 1)) ∨
      (∀ n, ¬ ClosesAt l.delimiter (l.delimiter :: rest) n) ∧
        scan l.delimiter rest = .fault l.unterminated (rest.length + 1) := by
  have hslash : l.delimiter = '\\' → rest.head? ≠ some l.delimiter :=
    fun he => absurd he l.delimiter_ne_backslash
  rw [scan_delimiter, scanQuoted]
  rcases closingLength_cases (n := 1) l.delimiter_ne_backslash hslash with
    ⟨n, hfound, hn⟩ | ⟨hfound, hnone⟩
  · rw [hfound]
    exact .inl ⟨n, hn, by rw [Nat.add_comm]⟩
  · rw [hfound]
    exact .inr ⟨hnone, by rw [Nat.add_comm]⟩

theorem scan_of_closesFirst {rest : List Char} {n : Nat}
    (h : ClosesFirst l.delimiter (l.delimiter :: rest) n) :
    scan l.delimiter rest = .token l.kind (n + 1) := by
  rcases l.scan_cases rest with ⟨m, hm, hscan⟩ | ⟨hnone, -⟩
  · rw [hscan, hm.unique h]
  · exact absurd h.closes (hnone n)

theorem scan_of_not_closesAt {rest : List Char}
    (h : ∀ n, ¬ ClosesAt l.delimiter (l.delimiter :: rest) n) :
    scan l.delimiter rest = .fault l.unterminated (rest.length + 1) := by
  rcases l.scan_cases rest with ⟨n, hn, -⟩ | ⟨-, hscan⟩
  · exact absurd hn.closes (h n)
  · exact hscan

/-- What is scanned as a literal starts with its delimiter. -/
theorem eq_delimiter_of_scan {c : Char} {rest : List Char}
    (h : (scan c rest).outcome = .ok l.kind) : c = l.delimiter := by
  have hsymbol : l.kind ∉ symbolKinds := by cases l <;> decide
  unfold scan at h
  split at h
  · have hword := wordKind_isWord ((c :: rest).takeWhile isWordChar)
    rw [scanWord] at h
    rw [Except.ok.inj h] at hword
    cases l <;> cases hword
  · split at h
    · cases l <;> cases scanNumber_kind h
    · split at h
      · next hquote =>
        cases l with
        | string => exact hquote
        | character => cases scanQuoted_kind h
      · split at h
        · next hquote =>
          cases l with
          | string => cases scanQuoted_kind h
          | character => exact hquote
        · exact absurd (scanSymbol_kind h) hsymbol

/-- What is scanned as a literal is closed. -/
theorem exists_closesFirst {rest : List Char} (h : (scan l.delimiter rest).outcome = .ok l.kind) :
    ∃ n, ClosesFirst l.delimiter (l.delimiter :: rest) n := by
  rcases l.scan_cases rest with ⟨n, hn, -⟩ | ⟨-, hscan⟩
  · exact ⟨n, hn⟩
  · rw [hscan] at h
    cases h

end LiteralKind

/-! ## Literals as tokens -/

namespace Cursor

variable {l : LiteralKind} {c : Cursor} {n : Nat}

/-- Where a text goes on with a literal, the next token is the literal. -/
theorem next_of_closesFirst (hstart : c.rest.head? = some l.delimiter)
    (h : ClosesFirst l.delimiter c.rest n) :
    c.next = (⟨l.kind, String.ofList (c.rest.take (n + 1)), c.position⟩, c.skip (n + 1)) := by
  obtain ⟨text, p⟩ := c
  obtain ⟨rest, rfl⟩ : ∃ rest, text = l.delimiter :: rest := List.head?_eq_some_iff.mp hstart
  rw [next_plain (l.startsGap_delimiter rest), l.scan_of_closesFirst h]
  rfl

/-- A literal that nothing closes is one faulty token, and takes all of the text. -/
theorem next_of_not_closesAt (hstart : c.rest.head? = some l.delimiter)
    (h : ∀ n, ¬ ClosesAt l.delimiter c.rest n) :
    c.next = (.invalid l.unterminated c.position, c.skip c.rest.length) := by
  obtain ⟨text, p⟩ := c
  obtain ⟨rest, rfl⟩ : ∃ rest, text = l.delimiter :: rest := List.head?_eq_some_iff.mp hstart
  rw [next_plain (l.startsGap_delimiter rest), l.scan_of_not_closesAt h]
  rfl

end Cursor

end FrontEnd
