import FrontEnd.Proofs.Parsing.Placeless
import FrontEnd.Proofs.Token.Spacing

set_option autoImplicit false

/-! # Layout does not matter

The tokens of a text stay the same when other blanks and comments are put between them, and two texts
with the same tokens are read as the same file, wherever the tokens stand in them.

The first half is about scanning and the second one about parsing, and each is a theorem of its own
part. They meet in the tokens without their places.
-/

namespace FrontEnd

/-- Reading undoes spacing. A text that is made of lexemes that stand alone, with separators between
them, has these lexemes as its tokens. The lexemes of any text without faults are the tokens of the
text that single spaces make of them. And files with the same tokens have the same report apart from
places, whatever stands between the tokens. -/
theorem layout_irrelevant :
    (∀ lexemes text, Joined lexemes text → (∀ l ∈ lexemes, l.Alone) →
      (Stream.ofText text).all.map Token.bare = lexemes ++ [.endOfFile]) ∧
    (∀ text, (∀ t ∈ (Stream.ofText text).all, t.kind ≠ .invalid) →
      (Stream.ofText (spaced ((Stream.ofText text).tokens.map Token.bare)).toList).all.map
        Token.bare = (Stream.ofText text).all.map Token.bare) ∧
    ∀ b b' : Buffer,
      (Stream.ofText b.chars).all.map Token.bare = (Stream.ofText b'.chars).all.map Token.bare →
        b.parse.bare = b'.parse.bare := by
  refine ⟨fun lexemes text hjoined halone => ?_, fun text hvalid => ?_, fun b b' =>
    Buffer.parse_bare⟩
  · exact hjoined.all_eq (fun l hl => (halone l hl).fills) _
  · exact Stream.ofText_respaced fun t ht => hvalid t (List.mem_append_left _ ht)

/-- The lexemes of a binding. -/
def oneBinding : List Lexeme :=
  [⟨.word .letWord, "let"⟩, ⟨.identifier, "x"⟩, ⟨.operator .assign, "="⟩, ⟨.number, "1.5e3"⟩,
    ⟨.mark .semicolon, ";"⟩]

theorem alone_oneBinding : ∀ l ∈ oneBinding, l.Alone := by
  have hall : ∀ l ∈ oneBinding, l.kind ≠ .invalid ∧
      (Stream.ofText l.text.toList).all.map Token.bare = [l, .endOfFile] := by decide +kernel
  exact fun l hl => ⟨(hall l hl).1, (hall l hl).2⟩

/-- A file with a comment within a comment and with a line comment between the parts of the
binding. -/
def laidOut : Buffer := ⟨"laid-out.tp", "let\r/*/-n-/*/x =\t\n// c\n1.5e3 ;"⟩

theorem joined_oneBinding : Joined oneBinding laidOut.chars := by
  have hcomment : IsSeparator "\r/*/-n-/*/".toList :=
    ⟨'\r', _, rfl, rfl, .comment rfl
      (.nest rfl (.other (by decide) (by decide) (.close rfl (.last rfl)))) .nil⟩
  have hline : IsSeparator "\t\n// c\n".toList :=
    ⟨'\t', _, rfl, rfl, .blank rfl (@IsFiller.line " c".toList [] (by decide) .nil)⟩
  exact .cons _ hcomment (.cons _ .space (.cons _ hline (.cons _ .space (.single _))))

/-- The binding has the same tokens with single spaces between them, and is read alike. -/
theorem layout_irrelevant_oneBinding :
    (Stream.ofText laidOut.chars).all.map Token.bare = oneBinding ++ [.endOfFile] ∧
      (Stream.ofText (spaced oneBinding).toList).all.map Token.bare =
        (Stream.ofText laidOut.chars).all.map Token.bare ∧
      laidOut.parse.bare = (Buffer.mk "spaced.tp" (spaced oneBinding)).parse.bare := by
  obtain ⟨hjoin, hspace, hparse⟩ := layout_irrelevant
  have htokens := hjoin oneBinding laidOut.chars joined_oneBinding alone_oneBinding
  have hlexemes : (Stream.ofText laidOut.chars).tokens.map Token.bare = oneBinding := by
    decide +kernel
  have hvalid : ∀ t ∈ (Stream.ofText laidOut.chars).all, t.kind ≠ .invalid := by decide +kernel
  have hspaced := hspace laidOut.chars hvalid
  rw [hlexemes] at hspaced
  exact ⟨htokens, hspaced, hparse _ _ hspaced.symm⟩

end FrontEnd
