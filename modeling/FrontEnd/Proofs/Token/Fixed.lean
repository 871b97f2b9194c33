import FrontEnd.Proofs.Token.Stream
import Mathlib.Data.List.Basic

set_option autoImplicit false

/-! # Tokens with a spelling of their own

Reserved words, marks and operators have one spelling each (`Kind.isFixed`). A token of such a kind
was found in a table, of words or of signs, and the entry there is the text of the token.

So the spelling of such a token need not be asked for: its kind tells it. What is said of the text
of a node that is known by an operator or a keyword rests on this.
-/

namespace FrontEnd

variable {kind : Kind} {text : List Char}

/-- A mark or an operator is found where its spelling stands. -/
theorem scanSymbol_spelling (h : (scanSymbol text).outcome = .ok kind) :
    text.take (scanSymbol text).length = kind.spelling.toList := by
  rw [scanSymbol_eq_longestSymbol] at h ⊢
  unfold longestSymbol at h ⊢
  cases hfind : symbolTable.find? (fun entry => entry.1.isPrefixOf text) with
  | none => rw [hfind] at h; cases h
  | some entry =>
      obtain ⟨k, -, rfl⟩ := List.mem_map.mp (List.mem_of_find?_eq_some hfind)
      have hfits := List.find?_some hfind
      rw [hfind] at h
      cases h
      exact (List.prefix_iff_eq_take.mp (List.isPrefixOf_iff_prefix.mp hfits)).symm

/-- What is found with a spelling of its own is spelled so. -/
theorem scan_spelling {c : Char} {rest : List Char} (h : (scan c rest).outcome = .ok kind)
    (hk : kind.isFixed = true) :
    String.ofList ((c :: rest).take (scan c rest).length) = kind.spelling := by
  unfold scan at h ⊢
  split at h
  · next hword =>
    rw [if_pos hword]
    cases h
    rw [← wordKind_spelling hk, scanWord, Scan.token,
      ← List.prefix_iff_eq_take.mp (List.takeWhile_prefix _)]
  · next hword =>
    rw [if_neg hword]
    split at h
    · rw [scanNumber_kind h] at hk
      cases hk
    · next hdigit =>
      rw [if_neg hdigit]
      split at h
      · rw [scanQuoted_kind h] at hk
        cases hk
      · next hquote =>
        rw [if_neg hquote]
        split at h
        · rw [scanQuoted_kind h] at hk
          cases hk
        · next hquote =>
          rw [if_neg hquote, scanSymbol_spelling h, String.ofList_toList]

/-- Tokens with a spelling of their own are spelled so. -/
theorem Stream.lexeme_fixed {t : Token} (h : t ∈ (ofText text).tokens)
    (hk : t.kind.isFixed = true) : t.lexeme = t.kind.spelling := by
  obtain ⟨hend, c, rfl⟩ := upTo_tokens h
  have hvalid : c.next.1.kind ≠ .invalid := by
    intro hinvalid
    rw [hinvalid] at hk
    cases hk
  obtain ⟨first, rest, hscan, hlexeme⟩ := Cursor.next_valid hvalid hend
  rw [hlexeme, scan_spelling hscan hk]

end FrontEnd
