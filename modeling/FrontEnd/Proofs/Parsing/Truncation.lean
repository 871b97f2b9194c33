import FrontEnd.Proofs.Diagnostic.Excerpt
import FrontEnd.Proofs.Parsing.Ending
import FrontEnd.Proofs.Parsing.Unclosed
import FrontEnd.Proofs.Token.Truncated

set_option autoImplicit false

/-! # Files that are cut off in front of their last braces

A file whose issues are all about the meaning of what was read has no invalid tokens
(`Buffer.valid_of_semantic`). If it ends in closing braces, and it is cut off in front of some of
them, it is read in the same way, and one finding more is made for each of the braces
(`Buffer.parse_truncated`).

Three things come together here. The text in front of a brace has the tokens in front of it; the run
on these tokens is the run on all of them with missing braces at its end; and the lines that
diagnostics show are those of the whole file, up to the last one of what is left.
-/

namespace FrontEnd

open Grammar

namespace Grammar

variable {s s' : State}

/-! ## Invalid tokens are found

An invalid token is reported when it comes up, unless the parser is in panic, and the panic has then
been reported before. So if nothing but issues of meaning was found, no invalid token has come up. -/

/-- Everything that was found is about the meaning of what was read. The braces at the end of such a
file close what they should. -/
def State.Soft (s : State) : Prop := ∀ f ∈ s.findings, f.issue.isSemantic

theorem Moves.soft (h : Moves s s') (hsoft : s'.Soft) : s.Soft :=
  fun f hf => hsoft f (h.findings_prefix.subset hf)

theorem State.not_soft_report {f : Finding} (hp : s.panic = false) (hard : ¬ f.issue.isSemantic) :
    ¬ (s.report f).Soft :=
  fun hsoft => hard (hsoft f (by simp [report_findings, hp]))

/-- An invalid token that comes up is found. -/
theorem State.head_of_soft {tokens : List Token} (hp : s.panic = false)
    (hsoft : (s.settle tokens).Soft) : ∀ t ∈ tokens.head?, t.kind ≠ .invalid := by
  rintro t ht hk
  obtain ⟨rest, rfl⟩ := List.head?_eq_some_iff.mp ht
  rw [settle_invalid hk] at hsoft
  refine not_soft_report (f := s.finding (.lexical t.lexeme) t) hp nofun fun f hf => hsoft f ?_
  exact (findings_prefix_settle _ rest).subset hf

/-- As long as nothing but issues of meaning was found there is no panic, and the tokens up to the
current one are valid. -/
def State.ReadValid (tokens : List Token) (s : State) : Prop :=
  s.Soft → s.panic = false ∧ ∃ before, tokens = before ++ s.unread ∧
    (∀ t ∈ before, t.kind ≠ .invalid) ∧ ∀ t ∈ s.unread.head?, t.kind ≠ .invalid

theorem Change.readValid {tokens : List Token} (h : Change s s') (hs : s.ReadValid tokens) :
    s'.ReadValid tokens := by
  intro hsoft
  obtain ⟨hp, before, htokens, hbefore, hhead⟩ := hs ((Moves.of_change h).soft hsoft)
  cases h with
  | complain f soft =>
      rw [State.report_panic, State.report_unread]
      exact ⟨hp, before, htokens, hbefore, hhead⟩
  | advance =>
      -- the token that is moved on to is the only one that is looked at for the first time
      have hnext := State.head_of_soft hp hsoft
      rw [State.advance, State.settle_valid hnext]
      refine ⟨hp, ?_⟩
      cases hunread : s.unread with
      | nil => exact ⟨before, by rw [htokens, hunread]; rfl, hbefore, by simp⟩
      | cons t rest =>
          rw [hunread] at htokens hhead hnext
          refine ⟨before ++ [t], by rw [htokens, List.append_assoc]; rfl, ?_, hnext⟩
          intro u hu
          rcases List.mem_append.mp hu with hu | hu
          · exact hbefore u hu
          · exact hhead u (List.mem_singleton.mp hu ▸ rfl)
  | fail f hard =>
      refine absurd hsoft (State.not_soft_report (f := f) hp fun hsemantic => ?_)
      rw [(Issue.isSemantic_iff.mp hsemantic).1] at hard
      cases hard
  | skip rest behind quiet =>
      rw [hp] at quiet
      cases quiet
  | exitPanic => exact ⟨rfl, before, htokens, hbefore, hhead⟩
  | setScopes | setInFunction | setEntryPoint | setNamespace =>
      exact ⟨hp, before, htokens, hbefore, hhead⟩

end Grammar

variable {b : Buffer}

/-- If nothing but issues of meaning is found in a file then its tokens are valid. -/
theorem Buffer.valid_of_semantic (h : ∀ f ∈ b.parse.findings, f.issue.isSemantic) :
    ∀ t ∈ b.tokens, t.kind ≠ .invalid := by
  have hstart : b.startState.ReadValid b.tokens := by
    intro hsoft
    have hhead : ∀ t ∈ b.tokens.head?, t.kind ≠ .invalid := State.head_of_soft rfl hsoft
    rw [startState_of_head hhead]
    exact ⟨rfl, [], rfl, nofun, hhead⟩
  have hrun := (moves_run b.startState).keeps (fun _ _ hc hs => hc.readValid hs) hstart
  rw [b.parse_findings] at h
  obtain ⟨-, before, htokens, hbefore, -⟩ := hrun h
  -- all tokens were read, since only the end of the file is left
  have hcurrent := b.startState_hasEnd.run_current
  cases hunread : b.startState.run.2.unread with
  | nil =>
      rw [htokens, hunread, List.append_nil]
      exact hbefore
  | cons t rest =>
      rw [State.current, hunread] at hcurrent
      have hmem : t ∈ b.tokens := by
        rw [htokens, hunread]
        simp
      exact absurd hcurrent (Stream.upTo_tokens hmem).1

/-! ## Lines in front of the end

Diagnostics show the line that they are about, so the lines have to be the same in both files. All
lines in front of the one that is cut are. -/

/-- The lines of a text up to its last one stay if more text stands behind it. -/
theorem lineAt_append_of_lt {n : Nat} {text : List Char} (h : n < text.count '\n')
    (more : List Char) : lineAt n (text ++ more) = lineAt n text := by
  induction text generalizing n with
  | nil => exact absurd h (Nat.not_lt_zero n)
  | cons c text ih =>
      rw [List.cons_append]
      by_cases hc : c = '\n'
      · subst hc
        rw [List.count_cons_self] at h
        cases n with
        | zero => rfl
        | succ n => rw [lineAt_cons_lineFeed, lineAt_cons_lineFeed, ih (Nat.lt_of_succ_lt_succ h)]
      · rw [List.count_cons_of_ne hc] at h
        cases n with
        | zero =>
            have hrest := Option.some.inj (ih h)
            rw [lineAt, lineAt, List.takeWhile_cons_of_pos (by simpa using hc),
              List.takeWhile_cons_of_pos (by simpa using hc), hrest]
        | succ n => rw [lineAt_cons_of_ne hc, lineAt_cons_of_ne hc, ih h]

theorem Buffer.line?_append {short long : Buffer} {behind : List Char}
    (h : long.chars = short.chars ++ behind) {n : Nat} (hn : n ≤ short.chars.count '\n') :
    short.line? n = long.line? n := by
  cases n with
  | zero => rfl
  | succ n => rw [line?, line?, h, lineAt_append_of_lt hn]

/-! ## Reading a file that is cut off

First for the tokens of the two files, then for the text up to the place of the first brace that is
cut off: its tokens are those in front of this brace, whatever the text looks like. -/

/-- Without the braces at its end a file is read in the same way, with one finding more for each of
them. -/
theorem parse_tokens_truncated {short long : Buffer} {closers : List Token}
    (hname : short.name = long.name) (hlong : long.tokens = short.tokens ++ closers)
    (hclosing : ∀ t ∈ closers, t.kind = .mark .rightBrace) (hclosers : closers ≠ [])
    {p : Position} (hfinish : (Stream.ofText short.chars).finish = .endOfFile p)
    (hsemantic : ∀ f ∈ long.parse.findings, f.issue.isSemantic) :
    short.parse = { long.parse with
      findings := long.parse.findings ++
        List.replicate closers.length (missingBrace long.name p)
      errors := long.parse.errors + closers.length } := by
  have hlexical := Buffer.valid_of_semantic hsemantic
  have hlexical' : ∀ t ∈ short.tokens, t.kind ≠ .invalid :=
    fun t ht => hlexical t (hlong ▸ List.mem_append_left _ ht)
  -- the runs of the two files start in front of the cut, with the tokens that are left before it
  let c : Cut := ⟨closers, hclosing, hclosers, p⟩
  have hfits : c.Fits long.startState short.startState := by
    refine ⟨⟨short.tokens, ?_, ?_⟩, Buffer.startState_sober hlexical⟩
    · rw [Buffer.startState_eq hlexical]
      exact hlong
    · rw [Buffer.startState_eq hlexical, Buffer.startState_eq hlexical', hname, hfinish]
      rfl
  have hclean : long.startState.run.2.Clean := fun f hf =>
    (Issue.isSemantic_iff.mp (hsemantic f (long.parse_findings ▸ hf))).1
  have hfile : long.startState.run.2.file = long.name := by
    rw [(moves_run _).file_eq, Buffer.startState_eq hlexical]
  have hparse : long.parse = Report.ofRun (long.startState.run.1, long.startState.run.2) := rfl
  obtain ⟨t, hrun, hshort⟩ := Cut.Near.run (.inl hfits) hclean
  rw [hparse, Buffer.parse, hrun, hshort.eq, Cut.shorten, hfile]
  rfl

/-- The diagnostic about a brace that is missing at the end of a file. -/
def missingBraceDiagnostic (b : Buffer) (p : Position) : Diagnostic :=
  ⟨.error, "expected '\x7d' after block, got end of file instead", ⟨b.name, p⟩, 1, b.line? p.line⟩

theorem diagnostic_missingBrace (b : Buffer) (p : Position) :
    (missingBrace b.name p).diagnostic b = missingBraceDiagnostic b p := rfl

/-- A file in which only issues of meaning are found, and whose last tokens are closing braces, is cut
off in front of the first of these braces. The file that is left ends there and gives the same report,
with one error more for each brace, at its end. What was found before is shown with the same lines,
apart from the line that is cut. -/
theorem Buffer.parse_truncated {name text : String} {before more : List Token} {first : Token}
    (htokens : (ofText name text).tokens = before ++ first :: more)
    (hclosing : ∀ t ∈ first :: more, t.kind = .mark .rightBrace)
    (hsemantic : ∀ f ∈ (ofText name text).parse.findings, f.issue.isSemantic) :
    let long := ofText name text
    let short := ofText name (textBefore first.position text)
    (∃ cut, text.toList = (textBefore first.position text).toList ++ '\x7d' :: cut) ∧
      (Stream.ofText short.chars).finish = .endOfFile first.position ∧
      short.parse = { long.parse with
        findings := long.parse.findings ++
          List.replicate (more.length + 1) (missingBrace name first.position)
        errors := long.parse.errors + (more.length + 1) } ∧
      short.parse.diagnostics short = long.parse.findings.map (·.diagnostic short) ++
        List.replicate (more.length + 1) (missingBraceDiagnostic short first.position) ∧
      ∀ f ∈ long.parse.findings, f.location.position.line < first.position.line →
        f.diagnostic short = f.diagnostic long := by
  intro long short
  obtain ⟨hcut, ⟨behind, hbehind⟩, hposition, hstream⟩ :=
    Stream.ofText_textBefore htokens (hclosing first List.mem_cons_self)
  have hshort : short.tokens = before ∧
      (Stream.ofText short.chars).finish = .endOfFile first.position := by
    rw [Buffer.tokens, hstream]
    exact ⟨rfl, rfl⟩
  have hname : short.name = long.name := rfl
  have hlong : long.tokens = short.tokens ++ first :: more := by rw [hshort.1, htokens]
  have hparse :=
    parse_tokens_truncated hname hlong hclosing (List.cons_ne_nil _ _) hshort.2 hsemantic
  refine ⟨hcut, hshort.2, hparse, ?_, fun f hf hline => ?_⟩
  · rw [Report.diagnostics, hparse, List.map_append, List.map_replicate, List.length_cons, ← hname,
      diagnostic_missingBrace]
  · -- a line in front of the cut is the same in both texts
    have hlines : first.position.line = 1 + short.chars.count '\n' := by
      rw [hposition, Position.after_start]
    have hchars : long.chars = short.chars ++ '\x7d' :: behind := hbehind
    rw [Finding.diagnostic, Buffer.line?_append hchars (by omega)]
    rfl

/-- A function that ends in a block, cut off behind the `return` of the block. The constant without
a value is found in both files. -/
theorem Buffer.parse_truncated_nested :
    let text := "fn f() \x7b\n  const x\n  \x7b return \x7d \x7d\n"
    let long := ofText "nested.tp" text
    let short := ofText "nested.tp" "fn f() \x7b\n  const x\n  \x7b return "
    let first : Token := ⟨.mark .rightBrace, "\x7d", ⟨3, 12⟩⟩
    let more : List Token := [⟨.mark .rightBrace, "\x7d", ⟨3, 14⟩⟩]
    long.tokens = long.tokens.take 9 ++ first :: more ∧
      (∀ t ∈ first :: more, t.kind = .mark .rightBrace) ∧
      (∀ f ∈ long.parse.findings, f.issue.isSemantic) ∧
      long.parse.findings = [⟨.uninitialized "x", ⟨"nested.tp", ⟨2, 9⟩⟩, 1⟩] ∧
      short.parse.declarations = long.parse.declarations ∧
      short.parse.findings = long.parse.findings ++
        [missingBrace "nested.tp" ⟨3, 12⟩, missingBrace "nested.tp" ⟨3, 12⟩] := by
  intro text long short first more
  have htokens : long.tokens = long.tokens.take 9 ++ first :: more := by decide +kernel
  have hclosing : ∀ t ∈ first :: more, t.kind = .mark .rightBrace := by decide
  have hsemantic : ∀ f ∈ long.parse.findings, f.issue.isSemantic := by decide +kernel
  have hcut : textBefore first.position text = "fn f() \x7b\n  const x\n  \x7b return " := by
    decide +kernel
  have hparse := (parse_truncated htokens hclosing hsemantic).2.2.1
  have hmissing : List.replicate (more.length + 1) (missingBrace "nested.tp" first.position) =
    [missingBrace "nested.tp" ⟨3, 12⟩, missingBrace "nested.tp" ⟨3, 12⟩] := rfl
  rw [hcut, hmissing] at hparse
  exact ⟨htokens, hclosing, hsemantic, by decide +kernel, by rw [hparse], by rw [hparse]⟩

end FrontEnd
