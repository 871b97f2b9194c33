import FrontEnd.Proofs.Parsing.Continuation
import FrontEnd.Proofs.Parsing.Start
import FrontEnd.Proofs.Token.Extended

set_option autoImplicit false

/-! # More text behind a file

A file that ends in the last token of its last declaration keeps its declarations if more text
stands behind it. It keeps its findings too, as long as the first token of that text is valid. An
invalid token there is reported when the last token in front of it is read, and then the findings
that belong to the last declaration but are reported behind its semicolon are lost
(`parse_extended`).

The scanner comes first: a text that ends in its last token has the same tokens when more text stands
behind it, with more tokens behind them. The rest is about tokens. The run on the longer file goes on
side by side with the one on the shorter file up to its last token, which is read in the last round.
-/

namespace FrontEnd

open Grammar

/-- The last character of a text stays the last one. -/
theorem getLast?_normalizeNewlines (text : List Char) :
    (normalizeNewlines text).getLast? = text.getLast? := by
  fun_induction normalizeNewlines text with
  | case1 => rfl
  | case2 rest ih => simp [List.getLast?_cons, ih]
  | case3 c rest hpair ih => simp [List.getLast?_cons, ih]

/-- The last character of the text is its last token, which ends a statement or a block. So the text
does not end in a comment or a literal, where the same character would be part of something longer. -/
structure EndsInToken (text : List Char) : Prop where
  closer : EndsInCloser text
  token : ∃ front stop, (Stream.ofText text).tokens = front ++ [stop] ∧ isTerminator stop.kind = true
  whole : ((Cursor.ofText text).skipTokens (Stream.ofText text).tokens.length).rest = []

/-- A text that ends in such a character is put into a buffer apart from the text behind it. -/
theorem Buffer.chars_append {name first : String} (h : EndsInCloser (ofText name first).chars)
    (second : String) :
    (ofText name (first ++ second)).chars =
      (ofText name first).chars ++ (ofText name second).chars := by
  rw [chars_ofText, chars_ofText, chars_ofText, String.toList_append]
  apply normalizeNewlines_append
  intro hreturn
  apply absurd hreturn
  intro hreturn
  obtain ⟨c, hc, hcloser⟩ := h
  rw [chars_ofText, getLast?_normalizeNewlines, hreturn] at hc
  cases hc
  cases hcloser

/-! ## Files with the same tokens in front

The shorter file ends with a token that ends a statement, and the longer one goes on behind it. Up
to this token both are read alike. -/

/-- What is kept of the report on a file if more tokens stand behind it. -/
structure Buffer.ExtendedBy (short long : Buffer) (behind : List Token) : Prop where
  tokens : long.tokens = short.tokens ++ behind
  declarations : short.parse.declarations <+: long.parse.declarations
  /-- The first findings are kept, and the others are lost only if the first token behind the file is
  invalid. What is found up to the last declaration belongs to the former. The latter are reported
  behind the semicolon of this declaration. -/
  findings : ∃ last early late, short.startState.Enters .file last ∧
    last.fileRound.2 = short.startState.run.2 ∧ short.parse.findings = early ++ late ∧
    last.findings <+: early ∧ early <+: long.parse.findings ∧
    (late ≠ [] → ∃ t ∈ behind.head?, t.kind = .invalid) ∧ ∀ f ∈ late, f.issue.isLate = true

section

variable {short long : Buffer} {front behind : List Token} {stop : Token}
  (hname : long.name = short.name) (hstop : isTerminator stop.kind = true)
  (hlexical : ∀ t ∈ short.tokens, t.kind ≠ .invalid)
  (hshort : short.tokens = front ++ [stop]) (hlong : long.tokens = short.tokens ++ behind)
include hname hstop hlexical hshort hlong

/-- Two files that start alike, the first one up to its end. -/
theorem exists_alike_startState :
    ∃ c : Twins, c.Whole ∧ c.second = behind ∧ Alike c short.startState long.startState := by
  have hs := Buffer.startState_eq hlexical
  have ht := Buffer.startState_of_head (b := long) (by
    intro t ht
    rw [hlong, hshort] at ht
    refine hlexical t ?_
    rw [hshort]
    cases front with
    | nil => cases ht; exact List.mem_cons_self
    | cons x front => cases ht; exact List.mem_cons_self)
  -- the first token is valid, so neither run starts in panic mode
  have hloud : long.startState.panic = false := by rw [ht]
  refine ⟨⟨True, stop, hstop, [], behind, long.startState⟩, ⟨trivial, rfl, hloud⟩, rfl,
    ⟨front, fun t ht => hlexical t ?_, ?_, ?_⟩, ?_, ?_, fun _ => ?_, .of_findings rfl rfl⟩
  · rw [hshort]
    exact List.mem_append_left _ ht
  · rw [hs]
    exact hshort
  · rw [ht]
    exact hlong.trans (by rw [hshort, List.append_assoc]; rfl)
  · rw [hs]
    exact Stream.upTo_finish _ _
  · rw [ht]
    exact Stream.upTo_finish _ _
  · rw [ht, hs, hname]
    rfl

/-- What the shorter file has found is kept, except for the findings that are reported behind its last
token. Those are lost only if the first token behind it is invalid. -/
theorem parse_tokens_extended
    (hgrammatical : ∀ f ∈ short.parse.findings, f.issue.isGrammatical = false) :
    short.ExtendedBy long behind := by
  obtain ⟨c, hc, hsecond, halike⟩ := exists_alike_startState hname hstop hlexical hshort hlong
  have hs := Buffer.startState_eq hlexical
  have hinner : ∀ t ∈ short.startState.unread, t.kind ≠ .endOfFile := by
    rw [hs]
    exact fun t ht => (Stream.upTo_tokens ht).1
  have hclean : short.startState.run.2.grammatical = short.startState.grammatical := by
    rw [short.parse_findings] at hgrammatical
    rw [State.clean_iff.mp hgrammatical, hs]
    rfl
  obtain ⟨last, u, hlast, hround, hpast, hrun⟩ := halike.run_past hc hinner hclean
  have hlater := Moves.findings_prefix (moves_run u)
  refine ⟨hlong, ?_, last, ?_⟩
  · rw [short.parse_declarations, long.parse_declarations, hrun]
    exact List.prefix_append _ _
  · rw [short.parse_findings, long.parse_findings, hrun]
    rcases hpast.ledger with ⟨-, heq⟩ | ⟨⟨t, ht, hk⟩, hmuted⟩
    · -- the first token behind the file is valid: nothing is lost
      have hsame : u.findings = short.startState.run.2.findings := by
        rw [heq, State.withTokens_findings]
      rw [hsame] at hlater
      refine ⟨short.startState.run.2.findings, [], hlast, hround, ?_, ?_, hlater, absurd rfl,
        fun f hf => absurd hf List.not_mem_nil⟩
      · rw [List.append_nil]
      · rw [← hround]
        exact Moves.findings_prefix (moves_fileRound last)
    · -- it is invalid, and panic mode has taken what was found behind the last token
      obtain ⟨early, late, heq, hknown, hearly, hlate⟩ := hmuted.findings
      exact ⟨early, late, hlast, hround, heq, hknown, hearly.trans hlater,
        fun _ => ⟨t, hsecond ▸ ht, hk⟩, hlate⟩

end

/-! ## Texts with the same text in front

The last token of a text must not go on in the text behind it. This is all that has to be asked of
the characters. -/

/-- The declarations and the findings of a file are kept if more text stands behind its last token,
except for those findings that are reported behind this token, and they are lost only if the first
token of the text behind it is invalid. -/
theorem parse_extended {name first : String} (second : String)
    (hlexical : ∀ t ∈ (Buffer.ofText name first).tokens, t.kind ≠ .invalid)
    (hgrammatical : ∀ f ∈ (Buffer.ofText name first).parse.findings, f.issue.isGrammatical = false)
    (hends : EndsInToken (Buffer.ofText name first).chars) :
    ∃ behind,
      (Buffer.ofText name first).ExtendedBy (Buffer.ofText name (first ++ second)) behind := by
  obtain ⟨front, stop, hfront, hstop⟩ := hends.token
  obtain ⟨behind, hbehind⟩ : ∃ behind, (Buffer.ofText name (first ++ second)).tokens =
      (Buffer.ofText name first).tokens ++ behind := by
    rw [Buffer.tokens, Buffer.chars_append hends.closer]
    exact Stream.ofText_append hends.closer hlexical hends.whole _
  exact ⟨behind, parse_tokens_extended rfl hstop hlexical hfront hbehind hgrammatical⟩

theorem endsInToken_const : EndsInToken (Buffer.ofText "const.tp" "const x;").chars where
  closer := ⟨';', by decide, rfl⟩
  token := ⟨[⟨.word .constWord, "const", ⟨1, 1⟩⟩, ⟨.identifier, "x", ⟨1, 7⟩⟩],
    ⟨.mark .semicolon, ";", ⟨1, 8⟩⟩, by decide, rfl⟩
  whole := by decide

/-- A constant without a value, and a character behind it that starts no token. -/
theorem parse_extended_const :
    let short := Buffer.ofText "const.tp" "const x;"
    (∀ t ∈ short.tokens, t.kind ≠ .invalid) ∧
      (∀ f ∈ short.parse.findings, f.issue.isGrammatical = false) ∧ EndsInToken short.chars ∧
      ∃ behind, short.ExtendedBy (Buffer.ofText "const.tp" ("const x;" ++ "$")) behind :=
  have hlexical : ∀ t ∈ (Buffer.ofText "const.tp" "const x;").tokens, t.kind ≠ .invalid := by decide
  have hgrammatical : ∀ f ∈ (Buffer.ofText "const.tp" "const x;").parse.findings,
    f.issue.isGrammatical = false := by decide
  ⟨hlexical, hgrammatical, endsInToken_const,
    parse_extended "$" hlexical hgrammatical endsInToken_const⟩

/-- The missing value of a constant is not reported if the next character is invalid, although nothing
lexical or grammatical is found up to the semicolon. -/
theorem not_prefix_findings_const :
    let short := Buffer.ofText "const.tp" "const x;"
    let long := Buffer.ofText "const.tp" ("const x;" ++ "$")
    EndsInToken short.chars ∧ (∀ t ∈ short.tokens, t.kind ≠ .invalid) ∧
      (∀ f ∈ short.parse.findings, f.issue.isGrammatical = false) ∧
      ¬ short.parse.findings <+: long.parse.findings.filter (!·.issue.isLexical) :=
  ⟨endsInToken_const, by decide, by decide, by decide⟩

end FrontEnd
