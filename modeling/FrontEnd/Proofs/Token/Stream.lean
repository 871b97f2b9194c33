import FrontEnd.Proofs.Token.Reserved
import FrontEnd.Proofs.Token.Signs
import FrontEnd.Token.Stream
import Mathlib.Data.List.TakeWhile

set_option autoImplicit false

/-! # What the tokens of a text are

Every token of a stream was found by `scan` at some place of the text. What `scan` finds there
depends on the first character alone: a word, a number, a literal, or a mark or operator. Words
are the only tokens of the kind `identifier` and of the kinds of reserved words, so these
tokens consist of the characters of words.

What holds of whatever `scan` may find thus holds of every token of a text. The kind of a token
leads back to the scanner that found it, and this to the characters that it is made of.
-/

namespace FrontEnd

/-! ## Scanning -/

/-- A token of a number is a number. -/
theorem scanNumber_kind {text : List Char} {kind : Kind} (h : (scanNumber text).outcome = .ok kind) :
    kind = .number := by
  have hexponent (n : Nat) (text : List Char) (h : (scanExponent n text).outcome = .ok kind) :
      kind = .number := by
    cases text with
    | nil => cases h; rfl
    | cons c rest =>
        rw [scanExponent] at h
        split at h
        · dsimp only at h
          split at h
          · cases h; rfl
          · cases h
        · cases h; rfl
  have hradix (isDigit : Char → Bool) (missing : LexicalFault) (text : List Char)
      (h : (scanRadix isDigit missing text).outcome = .ok kind) : kind = .number := by
    rw [scanRadix] at h
    split at h
    · cases h; rfl
    · cases h
  unfold scanNumber at h
  split at h
  · split at h
    · exact hradix _ _ _ h
    · split at h
      · exact hradix _ _ _ h
      · exact hexponent _ _ h
  · exact hexponent _ _ h

theorem scanQuoted_kind {delimiter : Char} {kind kind' : Kind} {unterminated : LexicalFault}
    {text : List Char} (h : (scanQuoted delimiter kind unterminated text).outcome = .ok kind') :
    kind' = kind := by
  unfold scanQuoted at h
  split at h
  · cases h; rfl
  · cases h

theorem scanSymbol_kind {text : List Char} {kind : Kind}
    (h : (scanSymbol text).outcome = .ok kind) : kind ∈ symbolKinds := by
  rw [scanSymbol_eq_longestSymbol] at h
  unfold longestSymbol at h
  split at h
  · next spelling k hfind =>
    cases h
    have hmem := List.mem_of_find?_eq_some hfind
    obtain ⟨k', hk', heq⟩ := List.mem_map.mp hmem
    cases heq
    exact hk'
  · cases h

/-- The kinds of words. -/
def Kind.isWord : Kind → Bool
  | .word _ | .builtin _ | .identifier => true
  | _ => false

theorem isWord_of_mem_symbolKinds {kind : Kind} (h : kind ∈ symbolKinds) :
    kind.isWord = false := by
  revert kind
  decide

/-- A token of the kind of a word is the longest word at its place. -/
theorem scan_word {c : Char} {rest : List Char} {kind : Kind}
    (h : (scan c rest).outcome = .ok kind) (hk : kind.isWord) :
    isWordStart c ∧ kind = wordKind ((c :: rest).takeWhile isWordChar) ∧
      (scan c rest).length = ((c :: rest).takeWhile isWordChar).length := by
  unfold scan at h ⊢
  split at h
  · next hstart =>
    rw [if_pos hstart]
    cases h
    exact ⟨hstart, rfl, rfl⟩
  · exfalso
    split at h
    · rw [scanNumber_kind h] at hk
      cases hk
    · split at h
      · rw [scanQuoted_kind h] at hk
        cases hk
      · split at h
        · rw [scanQuoted_kind h] at hk
          cases hk
        · rw [isWord_of_mem_symbolKinds (scanSymbol_kind h)] at hk
          cases hk

/-! ## The tokens of a stream -/

/-- The next token starts behind the gap. -/
theorem Cursor.next_token {c : Cursor} {n : Nat} {first : Char} {rest : List Char}
    (hgap : gap c.rest = .closed n) (hrest : (c.skip n).rest = first :: rest) :
    c.next = ((c.skip n).token (scan first rest), (c.skip n).skip (scan first rest).length) := by
  rw [Cursor.next, hgap]
  dsimp only
  rw [hrest]

/-- A valid token is the text that was scanned at its place. -/
theorem Cursor.next_valid {c : Cursor} (hinvalid : c.next.1.kind ≠ .invalid)
    (hend : c.next.1.kind ≠ .endOfFile) :
    ∃ first rest, (scan first rest).outcome = .ok c.next.1.kind ∧
      c.next.1.lexeme = String.ofList ((first :: rest).take (scan first rest).length) := by
  cases hgap : gap c.rest with
  | unclosed start =>
      rw [Cursor.next, hgap] at hinvalid
      exact absurd rfl hinvalid
  | closed n =>
      cases hrest : (c.skip n).rest with
      | nil =>
          rw [Cursor.next, hgap] at hend
          dsimp only at hend
          rw [hrest] at hend
          exact absurd rfl hend
      | cons first rest =>
          rw [Cursor.next_token hgap hrest] at hinvalid ⊢
          refine ⟨first, rest, ?_⟩
          dsimp only at hinvalid ⊢
          unfold Cursor.token at hinvalid ⊢
          split at hinvalid
          · next kind hkind =>
            rw [hkind, hrest]
            exact ⟨rfl, rfl⟩
          · exact absurd rfl hinvalid

theorem Stream.upTo_finish (fuel : Nat) (c : Cursor) :
    (upTo fuel c).finish.kind = .endOfFile := by
  induction fuel generalizing c with
  | zero => rfl
  | succ fuel ih =>
      rw [upTo]
      dsimp only
      split
      · next h => exact h
      · exact ih _

/-- Every token of a stream was read at some place, and none of them is the end of the file. -/
theorem Stream.upTo_tokens {fuel : Nat} {c : Cursor} {t : Token}
    (h : t ∈ (upTo fuel c).tokens) : t.kind ≠ .endOfFile ∧ ∃ c' : Cursor, c'.next.1 = t := by
  induction fuel generalizing c with
  | zero => cases h
  | succ fuel ih =>
      rw [upTo] at h
      dsimp only at h
      split at h
      · cases h
      · next hend =>
        rcases List.mem_cons.mp h with rfl | h
        · exact ⟨hend, c, rfl⟩
        · exact ih h

/-! ## Words -/

theorem isWordChar_of_isWordStart {c : Char} (h : isWordStart c) : isWordChar c := by
  unfold isWordStart at h
  unfold isWordChar Char.isAlphanum
  rw [Bool.or_eq_true] at h ⊢
  rw [Bool.or_eq_true]
  exact h.imp_left .inl

/-- A word of the kind of a reserved word or an identifier is the word that was scanned. -/
theorem Stream.exists_word {text : List Char} {t : Token} (h : t ∈ (ofText text).tokens)
    (hk : t.kind.isWord) :
    ∃ word, word ≠ [] ∧ (∀ c ∈ word, isWordChar c) ∧ t.lexeme = String.ofList word ∧
      t.kind = wordKind word := by
  obtain ⟨hend, c, rfl⟩ := upTo_tokens h
  have hinvalid : c.next.1.kind ≠ .invalid := by
    intro he
    rw [he] at hk
    cases hk
  obtain ⟨first, rest, hscan, hlexeme⟩ := Cursor.next_valid hinvalid hend
  obtain ⟨hstart, hkind, hlength⟩ := scan_word hscan hk
  refine ⟨(first :: rest).takeWhile isWordChar, ?_, fun c hc => List.mem_takeWhile_imp hc, ?_,
    hkind⟩
  · rw [List.takeWhile_cons_of_pos (isWordChar_of_isWordStart hstart)]
    simp
  · rw [hlexeme, hlength, ← List.prefix_iff_eq_take.mp (List.takeWhile_prefix _)]

/-- A text of word characters has no second line. -/
theorem firstLine_word {word : List Char} (h : ∀ c ∈ word, isWordChar c) :
    firstLine (String.ofList word) = String.ofList word := by
  have hall : word.takeWhile (· != '\n') = word := by
    refine List.takeWhile_eq_self_iff.mpr fun c hc => ?_
    rw [bne_iff_ne]
    rintro rfl
    exact absurd (h _ hc) (by decide)
  rw [firstLine, String.toList_ofList, hall]

/-- Words are as wide as they are long. In general a token is as wide as the first line of its text.
-/
theorem Stream.width_eq {text : List Char} {t : Token} (h : t ∈ (ofText text).tokens)
    (hk : t.kind.isWord) : t.width = t.lexeme.length := by
  obtain ⟨word, hne, hchars, hlexeme, -⟩ := exists_word h hk
  have hpos := List.length_pos_iff.mpr hne
  have hwidth : t.width = max (firstLine t.lexeme).length 1 := by
    unfold Token.width
    split
    · next hi => rw [hi] at hk; cases hk
    · next he => rw [he] at hk; cases hk
    · rfl
  rw [hwidth, hlexeme, firstLine_word hchars, String.length_ofList]
  omega

/-- The word `return` is six characters wide. -/
theorem Stream.width_return {text : List Char} {t : Token} (h : t ∈ (ofText text).tokens)
    (hk : t.kind = .word .returnWord) : t.width = 6 := by
  obtain ⟨word, -, -, hlexeme, hkind⟩ := exists_word h (by rw [hk]; rfl)
  rw [hk] at hkind
  rw [width_eq h (by rw [hk]; rfl), hlexeme, wordKind_spelling (by rw [← hkind]; rfl), ← hkind]
  rfl

end FrontEnd
