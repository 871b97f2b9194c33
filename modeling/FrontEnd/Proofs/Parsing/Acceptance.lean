import FrontEnd.Proofs.Parsing.Complete.File
import FrontEnd.Proofs.Parsing.Sound.File
import FrontEnd.Proofs.Parsing.Start
import FrontEnd.Proofs.Syntax.LongestFile

set_option autoImplicit false

/-! # The files that are accepted

Nothing grammatical is found on a file exactly if the grammar derives its tokens. One direction is
the soundness of the parsers. The other goes through the longest reading of a derived file, which the
parsers follow.

The grammar says nothing of how far a phrase goes, and the same tokens can be derived in several ways:
a semicolon that may be left out ends a statement or does not. The parsers take the longest phrase at
each place. That this never leads them astray is the part in between, that whatever is derived at all
has a reading in which each phrase is the longest.
-/

namespace FrontEnd

open Grammar

variable {b : Buffer}

/-- The start of a buffer of valid tokens, as the reading relations see it. -/
theorem Buffer.startState_at (h : ∀ t ∈ b.tokens, t.kind ≠ .invalid) :
    b.startState.At b.name (Stream.ofText b.chars).finish b.tokens ∧
      Valid (Stream.ofText b.chars).finish b.tokens := by
  rw [startState_eq h]
  exact ⟨⟨rfl, rfl, rfl⟩, h, Stream.upTo_finish _ _⟩

/-- A buffer that reads as a file is parsed as its declarations. -/
theorem Buffer.parse_eq {nodes : List Declaration} (h : ∀ t ∈ b.tokens, t.kind ≠ .invalid)
    (hreads : ReadsFile b.name (Stream.ofText b.chars).finish false b.tokens nodes) :
    b.parse.declarations = nodes ∧ ∀ f ∈ b.parse.findings, f.issue.isGrammatical = false := by
  obtain ⟨hat, hvalid⟩ := startState_at h
  have hfuel : b.tokens.length ≤ b.startState.unread.length := by rw [hat.unread_eq]
  have hstart : b.startState.namespaceLine.isSome = false ∧ b.startState.Clean := by
    rw [startState_eq h]
    exact ⟨rfl, fun f hf => absurd hf List.not_mem_nil⟩
  obtain ⟨hnodes, hclean⟩ := declarations_eq hreads hat hvalid hfuel hstart.1
  exact ⟨hnodes, hclean hstart.2⟩

/-- Nothing grammatical is found on a file of valid tokens if and only if the grammar derives
them. -/
theorem parse_grammatical_iff_derives (b : Buffer) (hlexical : ∀ t ∈ b.tokens, t.kind ≠ .invalid) :
    (∀ f ∈ b.parse.findings, f.issue.isGrammatical = false) ↔ DerivesFile b.tokens := by
  constructor
  · intro hclean
    have hsound := sound_declarations (c := .start) (Buffer.startState_sober hlexical)
      (Nat.le_refl _) hclean
    have hunread : b.startState.unread = b.tokens := (Buffer.startState_at hlexical).1.unread_eq
    rw [← hunread]
    exact hsound.1
  · intro hderives
    have hfinish : (Stream.ofText b.chars).finish.kind = .endOfFile := Stream.upTo_finish _ _
    obtain ⟨nodes, hnodes⟩ := hderives.reads b.name false hfinish
    exact (Buffer.parse_eq hlexical hnodes).2

/-- A first value that takes two signs from the statement behind it, and one that is missing. -/
theorem parse_grammatical_iff_derives_init :
    DerivesFile (Buffer.ofText "init.tp" "fn f() \x7b let x = a ++(b); \x7d").tokens ∧
      ¬ DerivesFile (Buffer.ofText "init.tp" "fn f() \x7b let x = ; \x7d").tokens := by
  constructor
  · exact (parse_grammatical_iff_derives _ (by decide)).mp (by decide)
  · exact mt (parse_grammatical_iff_derives _ (by decide)).mpr (by decide)

end FrontEnd
