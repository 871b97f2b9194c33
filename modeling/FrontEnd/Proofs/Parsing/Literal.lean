import FrontEnd.Proofs.Parsing.Located
import FrontEnd.Proofs.Token.Literal
import FrontEnd.Proofs.Token.Places

set_option autoImplicit false

/-! # The text of string literals

The node of a string literal holds the characters between the two quotation marks, with every
backslash as it was written. This is said in both directions: a parser that comes to a literal makes
this node, and a node of a string anywhere in a tree was made from a literal that stands at its
place in the file.

The second direction uses the places of nodes: a node of a string is known by the token at its
place, and a token of a file is read at its own place in the text (`Cursor.In.exists_of_mem`). So
the node, the token and the characters of the file are brought together without following the parser
again.
-/

namespace FrontEnd

open Grammar

/-- The characters between the delimiters of a literal. -/
theorem ClosesAt.withoutDelimiters_take {delimiter : Char} {text : List Char} {n : Nat}
    (h : ClosesAt delimiter text n) :
    withoutDelimiters (String.ofList (text.take (n + 1))) = (text.take n).drop 1 := by
  obtain ⟨-, hn, -⟩ := h
  obtain ⟨hlt, -⟩ := List.getElem?_eq_some_iff.mp hn
  rw [withoutDelimiters, String.toList_ofList, List.take_succ_eq_append_getElem hlt,
    ← List.tail_dropLast, List.dropLast_concat, List.drop_one]

/-! ## From a literal to its node

What the parser keeps of a literal is the text without its first and its last character, and no
character of it is decoded. -/

/-- A parser that stands at a string literal makes its node, and goes on behind the literal. -/
theorem Grammar.Parser.primaryWithin_string {s : State} (hk : s.current.kind = .stringLiteral)
    (fuel : Nat) :
    primaryWithin (fuel + 1) s =
      .ok (.string (String.ofList (withoutDelimiters s.current.lexeme)) (s.locate s.current))
        s.advance := by
  have hlocate : s.advance.locate s.current = s.locate s.current := by
    rw [State.locate, State.locate, State.advance, State.settle_file]
  rw [primaryWithin, current_bind, hk, ← hlocate]
  rfl

/-! ## From a node to its literal

A node was made at a token, and the token was read at some place of the text. There the scanner has
found the end of the literal. -/

namespace Cursor

/-- A literal that is read stands behind the gap of the cursor. -/
theorem exists_literal {l : LiteralKind} {c : Cursor} (h : c.next.1.kind = l.kind) :
    (c.ownText ++ c.next.2.rest).head? = some l.delimiter ∧
      ∃ n, ClosesFirst l.delimiter (c.ownText ++ c.next.2.rest) n := by
  have hend : c.next.1.kind ≠ .endOfFile := by rw [h]; cases l <;> simp [LiteralKind.kind]
  have hvalid : c.next.1.kind ≠ .invalid := by rw [h]; cases l <;> simp [LiteralKind.kind]
  rcases c.ownText_cases with hplain | ⟨hunclosed, -⟩
  · obtain ⟨first, own, hown, -, htoken⟩ := c.scan_ownText hend hplain
    have hscan : (scan first (own ++ c.next.2.rest)).outcome = .ok l.kind := by
      rw [htoken, token] at h hvalid
      split at h
      · next kind hkind => rw [hkind, ← h]
      · next fault hfault =>
        rw [hfault] at hvalid
        exact absurd rfl hvalid
    obtain rfl := l.eq_delimiter_of_scan hscan
    rw [hown, List.cons_append]
    exact ⟨rfl, l.exists_closesFirst hscan⟩
  · have hnext := c.next_ownText
    rw [next_unclosed hunclosed] at hnext
    rw [← hnext] at hvalid
    exact absurd rfl hvalid

/-- The cursor behind the gap stands in the text too. -/
theorem In.behindGap {text : String} {before : List Char} {c : Cursor} (h : c.In text before) :
    In text (before ++ c.gapText) ⟨c.ownText ++ c.next.2.rest, c.next.1.position⟩ where
  chars_eq := by
    rw [h.chars_eq, List.append_assoc]
    exact congrArg (before ++ ·) c.rest_eq
  position_eq := by
    rw [c.next_position, h.position_eq, ← Position.after_append]

/-- A token of a text is read at its own place in the text. -/
theorem In.exists_of_mem {text : String} {before : List Char} {c : Cursor} (h : c.In text before)
    {t : Token} (ht : t ∈ (Stream.ofCursor c).all) :
    ∃ before' c', In text before' c' ∧ c'.next.1 = t := by
  have hread := h.readAt
  obtain ⟨i, hi, rfl⟩ := List.mem_iff_getElem.mp ht
  obtain ⟨before', c', hin, htoken, -⟩ := hread.get hi (hread.length_eq ▸ hi)
  exact ⟨before', c', hin, htoken.symm⟩

end Cursor

/-- The file reads the literal that stands behind the characters `before`, and is closed by the one at
index `n` of the characters `rest` from there on. Both delimiters belong to the token. -/
structure Buffer.ReadsLiteral (b : Buffer) (l : LiteralKind) (before rest : List Char) (n : Nat) :
    Prop where
  chars_eq : b.chars = before ++ rest
  starts : rest.head? = some l.delimiter
  closes : ClosesFirst l.delimiter rest n
  token : ⟨l.kind, String.ofList (rest.take (n + 1)), Position.start.after before⟩ ∈ b.allTokens

/-- Every token that is a literal is read where it stands. -/
theorem Buffer.exists_readsLiteral {b : Buffer} {l : LiteralKind} {t : Token} (ht : t ∈ b.allTokens)
    (hk : t.kind = l.kind) :
    ∃ before rest n, b.ReadsLiteral l before rest n ∧ t.position = Position.start.after before ∧
      withoutDelimiters t.lexeme = (rest.take n).drop 1 := by
  obtain ⟨before, c, hin, rfl⟩ := (Cursor.In.ofText b.text).exists_of_mem ht
  obtain ⟨hstart, n, hn⟩ := Cursor.exists_literal hk
  have htoken : c.next.1 = ⟨l.kind, String.ofList ((c.ownText ++ c.next.2.rest).take (n + 1)),
      Position.start.after (before ++ c.gapText)⟩ := by
    rw [← hin.behindGap.position_eq]
    conv_lhs => rw [← c.next_ownText]
    rw [Cursor.next_of_closesFirst hstart hn]
  refine ⟨before ++ c.gapText, c.ownText ++ c.next.2.rest, n, ?_, ?_, ?_⟩
  · constructor
    · exact hin.behindGap.chars_eq
    · exact hstart
    · exact hn
    · rw [← htoken]
      exact ht
  · rw [htoken]
  · rw [htoken]
    exact hn.closes.withoutDelimiters_take

/-! ## Literals and their nodes -/

/-- A literal goes up to the first delimiter behind its opening one that does not stand directly
behind a backslash, and reading goes on behind that; without one the rest of the text is one faulty
token. The node of a string literal holds exactly what stands between the quotation marks, and no
other node of a string is ever made. -/
theorem literals_end_and_keep_text :
    (∀ (l : LiteralKind) (c : Cursor), c.rest.head? = some l.delimiter →
      (∀ n, ClosesFirst l.delimiter c.rest n →
        c.next = (⟨l.kind, String.ofList (c.rest.take (n + 1)), c.position⟩, c.skip (n + 1)) ∧
          Stream.ofCursor c = .cons c.next.1 (Stream.ofCursor (c.skip (n + 1)))) ∧
      ((∀ n, ¬ ClosesAt l.delimiter c.rest n) →
        c.next.1 = .invalid l.unterminated c.position ∧
          c.next.2.next.1 = .endOfFile (c.position.after c.rest))) ∧
    (∀ (c : Cursor) (n fuel : Nat) (s : State), c.rest.head? = some '"' → ClosesFirst '"' c.rest n →
      s.current = c.next.1 →
        Parser.primaryWithin (fuel + 1) s =
          .ok (.string (String.ofList ((c.rest.take n).drop 1)) (s.locate c.next.1)) s.advance) ∧
    ∀ (b : Buffer), ∀ d ∈ b.parse.declarations, ∀ value loc, .expr (.string value loc) ∈ d.nodes →
      ∃ before rest n, b.ReadsLiteral .string before rest n ∧
        loc = ⟨b.name, Position.start.after before⟩ ∧
        value = String.ofList ((rest.take n).drop 1) := by
  refine ⟨fun l c hstart => ⟨fun n hn => ?_, fun hnone => ?_⟩, ?_, ?_⟩
  · have hnext := Cursor.next_of_closesFirst hstart hn
    have hend : c.next.1.kind ≠ .endOfFile := by
      rw [hnext]
      cases l <;> simp [LiteralKind.kind]
    refine ⟨hnext, ?_⟩
    rw [Stream.ofCursor_cons hend, hnext]
  · rw [Cursor.next_of_not_closesAt hstart hnone]
    refine ⟨rfl, ?_⟩
    rw [Cursor.next_of_nil (by rw [Cursor.skip, List.drop_length]), Cursor.skip, List.take_length]
  · intro c n fuel s hstart hn hcurrent
    have hnext := Cursor.next_of_closesFirst (l := .string) hstart hn
    have hk : s.current.kind = .stringLiteral := by
      rw [hcurrent, hnext]
      rfl
    rw [Parser.primaryWithin_string hk, hcurrent, hnext, hn.closes.withoutDelimiters_take]
  · intro b d hd value loc hmem
    -- the node was made at a token of its kind, and such a token is a literal of the text
    obtain ⟨t, ht, hloc, hk, hvalue⟩ := run_placed (Moves.refl _) d hd _ hmem
    obtain ⟨before, rest, n, hreads, hposition, htext⟩ :=
      Buffer.exists_readsLiteral (l := .string) ht hk
    refine ⟨before, rest, n, hreads, ?_, ?_⟩
    · rw [← hposition]
      exact hloc
    · rw [hvalue, htext]

/-- A string with a quotation mark behind a backslash, a line feed and a backslash in front of another
character, and a character literal that is not closed. -/
theorem literals_end_and_keep_text_sample :
    let text := "\"é\\\"\n\\n\" 'b"
    let c := Cursor.ofText text.toList
    let s := State.start "main.tp" (Stream.ofText text.toList)
    let d := c.skip 9
    ClosesFirst '"' c.rest 7 ∧
      c.next = (⟨.stringLiteral, "\"é\\\"\n\\n\"", ⟨1, 1⟩⟩, ⟨" 'b".toList, ⟨2, 4⟩⟩) ∧
      s.current = c.next.1 ∧
      Parser.primaryWithin 1 s = .ok (.string "é\\\"\n\\n" ⟨"main.tp", ⟨1, 1⟩⟩) s.advance ∧
      (∀ n, ¬ ClosesAt '\'' d.rest n) ∧
      d.next.1 = .invalid .unterminatedCharacter ⟨2, 5⟩ ∧ d.next.2.next.1.kind = .endOfFile := by
  intro text c s d
  have hcloses : ClosesFirst '"' c.rest 7 := ⟨by decide +kernel, by decide +kernel⟩
  have hcurrent : s.current = c.next.1 := by decide +kernel
  have hstring : c.rest.head? = some '"' := by decide +kernel
  have hcharacter : d.rest = ['\'', 'b'] := by decide +kernel
  have hnone : ∀ n, ¬ ClosesAt '\'' d.rest n := by
    rw [hcharacter]
    exact not_closesAt_of_closingLength (n := 1) (by decide) (by decide) rfl
  -- all three parts of the theorem are applied, to the string and to the character behind it
  obtain ⟨hnext, -⟩ := (literals_end_and_keep_text.1 .string c hstring).1 7 hcloses
  have hnode := literals_end_and_keep_text.2.1 c 7 0 s hstring hcloses hcurrent
  obtain ⟨hfault, hend⟩ :=
    (literals_end_and_keep_text.1 .character d (by rw [hcharacter]; rfl)).2 hnone
  have hvalue : String.ofList ((c.rest.take 7).drop 1) = "é\\\"\n\\n" := by decide +kernel
  have hlocation : s.locate c.next.1 = ⟨"main.tp", ⟨1, 1⟩⟩ := by decide +kernel
  refine ⟨hcloses, ?_, hcurrent, ?_, hnone, ?_, ?_⟩
  · rw [hnext]
    decide +kernel
  · rw [hnode, hvalue, hlocation]
  · rw [hfault]
    decide +kernel
  · rw [hend]
    rfl

end FrontEnd
