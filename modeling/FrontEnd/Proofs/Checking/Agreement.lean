import FrontEnd.Proofs.Parsing.Sound.File
import FrontEnd.Proofs.Parsing.Start

set_option autoImplicit false

/-! # What is found while reading is what a checker finds afterwards

The rules of names are checked while a file is read, token by token. For a file that follows the
grammar the outcome is that of `checkFile`, which sees the finished trees only: the same findings
in the same order.

The work was done along with the soundness of the parsers (`sound_declarations`): a run that finds
nothing grammatical is taken apart once, and each part of it shows both that its tokens have the
form of a phrase and that the checker keeps up. What is left is the start of a file.
-/

namespace FrontEnd

open Grammar

variable {b : Buffer}

/-- The tokens of a buffer are legible as soon as its numbers and character literals have
values. -/
theorem Buffer.legible (hnumber : ∀ t ∈ b.tokens, t.kind = .number → t.numeral?.isSome)
    (hchar : ∀ t ∈ b.tokens, t.kind = .charLiteral →
      (unescape? (withoutDelimiters t.lexeme)).isSome) {t : Token} (ht : t ∈ b.tokens) :
    t.Legible where
  number hk := Option.isSome_iff_exists.mp (hnumber t ht hk)
  char hk := Option.isSome_iff_exists.mp (hchar t ht hk)
  name hk := Stream.width_eq ht (by rw [hk]; rfl)
  ret hk := Stream.width_return ht hk

/-- At the start of a file a checker agrees with the parser. -/
theorem Buffer.startState_tracks (hlexical : ∀ t ∈ b.tokens, t.kind ≠ .invalid)
    (hnumber : ∀ t ∈ b.tokens, t.kind = .number → t.numeral?.isSome)
    (hchar : ∀ t ∈ b.tokens, t.kind = .charLiteral →
      (unescape? (withoutDelimiters t.lexeme)).isSome)
    (hnamespace : b.tokens.countP (·.kind == .word .namespaceWord) ≤ 1) :
    b.startState.Tracks .start := by
  rw [startState_eq hlexical]
  exact ⟨rfl, fun t ht => legible hnumber hchar ht, hnamespace, ScopeTable.valid_empty,
    ScopeTable.frames_empty, rfl, rfl⟩

/-- The findings on a file without mistakes in its tokens or its grammar, with at most one
namespace line, are those of the checker on its declarations. -/
theorem findings_eq_checkFile (b : Buffer) (hlexical : ∀ t ∈ b.tokens, t.kind ≠ .invalid)
    (hgrammar : ∀ f ∈ b.parse.findings, f.issue.isGrammatical = false)
    (hnamespace : b.tokens.countP (·.kind == .word .namespaceWord) ≤ 1)
    (hnumber : ∀ t ∈ b.tokens, t.kind = .number → t.numeral?.isSome)
    (hchar : ∀ t ∈ b.tokens, t.kind = .charLiteral →
      (unescape? (withoutDelimiters t.lexeme)).isSome) :
    b.parse.findings = checkFile b.parse.declarations := by
  have hsound := sound_declarations (c := .start) (Buffer.startState_sober hlexical)
    (Nat.le_refl _) hgrammar
  exact (hsound.2 (Buffer.startState_tracks hlexical hnumber hchar hnamespace)).findings

/-- Two arguments of one name, and a name that nothing declares. -/
theorem findings_eq_checkFile_arguments :
    let b := Buffer.ofText "arguments.tp" "fn f(x: s8, x: s8) \x7b y = x++; \x7d"
    b.parse.findings = checkFile b.parse.declarations ∧ b.parse.findings.length = 2 := by
  intro b
  have hvalid : (∀ t ∈ b.tokens, t.kind ≠ .invalid) ∧
      (∀ t ∈ b.tokens, t.kind = .number → t.numeral?.isSome) ∧
      (∀ t ∈ b.tokens, t.kind = .charLiteral → (unescape? (withoutDelimiters t.lexeme)).isSome) ∧
      b.tokens.countP (·.kind == .word .namespaceWord) ≤ 1 := by decide
  have hparse : (∀ f ∈ b.parse.findings, f.issue.isGrammatical = false) ∧
      b.parse.findings.length = 2 := by decide
  exact ⟨findings_eq_checkFile b hvalid.1 hparse.1 hvalid.2.2.2 hvalid.2.1 hvalid.2.2.1, hparse.2⟩

end FrontEnd
