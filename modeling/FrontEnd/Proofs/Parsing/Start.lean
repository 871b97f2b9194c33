import FrontEnd.Proofs.Parsing.Change
import FrontEnd.Proofs.Token.Stream
import FrontEnd.Report

set_option autoImplicit false

/-! # The start of a file

A file that consists of valid tokens is read from a state in which they all are unread, nothing
was found, and no scope but the root is open. The report on a file comes from the run from there.
-/

namespace FrontEnd

open Grammar

/-- The tokens of a buffer, without the end of the file. Invalid ones are among them: it is the parser
that reports and passes them. -/
def Buffer.tokens (b : Buffer) : List Token := (Stream.ofText b.chars).tokens

variable {b : Buffer}

/-- An invalid token at the start of a file is the only thing that changes the state there. -/
theorem Buffer.startState_of_head (h : ∀ t ∈ b.tokens.head?, t.kind ≠ .invalid) :
    b.startState =
      { file := b.name, unread := b.tokens, finish := (Stream.ofText b.chars).finish,
        findings := [], errors := 0, warnings := 0, panic := false, scopes := ScopeTable.empty,
        namespaceLine := none, inFunction := false, entryPoint := false } :=
  State.settle_valid h _

theorem Buffer.startState_eq (h : ∀ t ∈ b.tokens, t.kind ≠ .invalid) :
    b.startState =
      { file := b.name, unread := b.tokens, finish := (Stream.ofText b.chars).finish,
        findings := [], errors := 0, warnings := 0, panic := false, scopes := ScopeTable.empty,
        namespaceLine := none, inFunction := false, entryPoint := false } :=
  startState_of_head fun t ht => h t (List.mem_of_mem_head? ht)

theorem Buffer.startState_lexed (h : ∀ t ∈ b.tokens, t.kind ≠ .invalid) : b.startState.Lexed := by
  rw [startState_eq h]
  exact ⟨h, fun t ht => (Stream.upTo_tokens ht).1, Stream.upTo_finish _ _⟩

theorem Buffer.startState_sober (h : ∀ t ∈ b.tokens, t.kind ≠ .invalid) : b.startState.Sober :=
  ⟨startState_lexed h, .inl (by rw [startState_eq h])⟩

theorem Report.findings_ofRun (result : List Declaration × State) :
    (Report.ofRun result).findings = result.2.findings := by
  cases result
  rfl

theorem Report.declarations_ofRun (result : List Declaration × State) :
    (Report.ofRun result).declarations = result.1 := by
  cases result
  rfl

theorem Buffer.parse_findings (b : Buffer) : b.parse.findings = b.startState.run.2.findings :=
  Report.findings_ofRun _

theorem Buffer.parse_declarations (b : Buffer) : b.parse.declarations = b.startState.run.1 :=
  Report.declarations_ofRun _

end FrontEnd
