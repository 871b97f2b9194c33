import FrontEnd.Proofs.Parsing.Pointing
import FrontEnd.Proofs.Token.Places

set_option autoImplicit false

/-! # The line that a diagnostic shows

A diagnostic shows one line of the source with marks below it. The line is that of a token, and the
marks stand below the token: they start below its first character and do not go beyond the end of the
line, since a token that goes on in the next line is marked up to the end of the first one only. At
the end of the file there is one mark, behind the line (`Diagnostic.Fits`).

Two things known before are put together. A token stands at its span of the text, so its line and
its column are those of a place in the text; and every finding is made at a token, and takes no more
columns than it does (`Buffer.findings_mark`). What is left is to find the line around a place, and
to see that the first line of a token is a part of it.
-/

namespace FrontEnd

/-! ## The line around a place

The line is found by its number, from the start of the text, and a place is known by what is in front
of it: the line feeds there are counted for the number, and what is behind the last one is the first
part of the line. -/

theorem lineAt_cons_of_ne {c : Char} (hc : c ≠ '\n') (n : Nat) (text : List Char) :
    lineAt (n + 1) (c :: text) = lineAt (n + 1) text := by
  rw [lineAt, lineAt, List.dropWhile_cons_of_pos (by simpa using hc)]

theorem lineAt_cons_lineFeed (n : Nat) (text : List Char) :
    lineAt (n + 1) ('\n' :: text) = lineAt n text := by
  rw [lineAt, List.dropWhile_cons_of_neg (by simp)]

/-- The lines behind a line feed. -/
theorem lineAt_append_lineFeed (before text : List Char) :
    lineAt (before.count '\n' + 1) (before ++ '\n' :: text) = lineAt 0 text := by
  induction before with
  | nil => exact lineAt_cons_lineFeed 0 text
  | cons c before ih =>
      rw [List.cons_append]
      by_cases hc : c = '\n'
      · subst hc
        rw [List.count_cons_self, lineAt_cons_lineFeed, ih]
      · rw [List.count_cons_of_ne hc, lineAt_cons_of_ne hc, ih]

/-- A place of a text divides its line into what is in front of it and what is behind. -/
theorem lineAt_append (before behind : List Char) :
    lineAt (before.count '\n') (before ++ behind) =
      some (lastLine before ++ behind.takeWhile (· != '\n')) := by
  induction before using List.reverseRecOn generalizing behind with
  | nil => rfl
  | append_singleton before c ih =>
      rw [List.append_assoc, List.singleton_append, List.count_append]
      by_cases hc : c = '\n'
      · subst hc
        rw [List.count_singleton_self, lineAt_append_lineFeed, lastLine_append_lineFeed]
        rfl
      · rw [List.count_singleton, if_neg (by simpa using hc), Nat.add_zero, ih,
          lastLine_append_of_ne hc, List.takeWhile_cons_of_pos (by simpa using hc),
          List.append_assoc]
        rfl

/-! ## Tokens on their lines

The line of a token is what is in front of it on the line, the token itself and what is behind it. A
token that goes over line ends is on the line where it starts. -/

/-- The first line of a text reaches as far when there is more text behind. -/
theorem takeWhile_prefix_append (p : Char → Bool) (text behind : List Char) :
    text.takeWhile p <+: (text ++ behind).takeWhile p := by
  induction text with
  | nil => exact List.nil_prefix
  | cons c text ih =>
      rw [List.cons_append]
      by_cases hc : p c = true
      · rw [List.takeWhile_cons_of_pos hc, List.takeWhile_cons_of_pos hc]
        exact List.cons_prefix_cons.mpr ⟨rfl, ih⟩
      · rw [List.takeWhile_cons_of_neg hc]
        exact List.nil_prefix

/-- A text that does not start with a blank has something on its first line. -/
theorem StartsSolid.takeWhile_pos {text behind : List Char} (h : StartsSolid (text ++ behind))
    (htext : text ≠ []) : 1 ≤ (text.takeWhile (· != '\n')).length := by
  cases text with
  | nil => exact absurd rfl htext
  | cons c text =>
      have hsolid : c ≠ '\n' := by
        rintro rfl
        cases h '\n' rfl
      rw [List.takeWhile_cons_of_pos (by simpa using hsolid)]
      exact Nat.succ_pos _

theorem Token.width_endOfFile (p : Position) : (Token.endOfFile p).width = 1 := rfl

/-- A token that is not the end of the file is no wider than the first line of its text. -/
theorem Token.Covers.width_le {t : Token} {behind own : List Char} (h : t.Covers behind own)
    (hsolid : StartsSolid (own ++ behind)) (hend : t.kind ≠ .endOfFile) :
    t.width ≤ (own.takeWhile (· != '\n')).length := by
  have hpos := hsolid.takeWhile_pos fun he => hend (h.own_eq_nil_iff.mp he)
  cases h with
  | invalid => exact hpos
  | endOfFile => exact absurd rfl hend
  | @valid kind own p hown hinvalid hend =>
      have hwidth : (⟨kind, String.ofList own, p⟩ : Token).width =
          max (firstLine (String.ofList own)).length 1 := by
        unfold Token.width
        split
        · next hk => exact absurd hk hinvalid
        · next hk => exact absurd hk hend
        · rfl
      rw [hwidth, firstLine, String.toList_ofList, String.length_ofList]
      exact Nat.max_le.mpr ⟨Nat.le_refl _, hpos⟩

variable {b : Buffer}

/-- The line of the source around a span. It starts behind the last line feed in front of the span
and goes up to the next one. -/
def Span.line {text : String} (s : Span text) : List Char :=
  lastLine s.before ++ (s.chars ++ s.behind).takeWhile (· != '\n')

/-- The line of a token is a line of the source, and the columns of the token are columns of it. -/
structure Token.OnLine (b : Buffer) (t : Token) (s : Span b.text) : Prop where
  line_eq : b.line? t.position.line = some (String.ofList s.line)
  column_eq : t.position.column = 1 + (lastLine s.before).length
  chars_prefix : s.chars.takeWhile (· != '\n') <+: s.line.drop (t.position.column - 1)
  width_le : t.kind ≠ .endOfFile → t.position.column - 1 + t.width ≤ s.line.length
  chars_ne : t.kind ≠ .endOfFile → s.chars.takeWhile (· != '\n') ≠ []
  finish : t.kind = .endOfFile → t.position.column = s.line.length + 1 ∧ t.width = 1

theorem ReadAt.onLine {t : Token} {s : Span b.text} (h : ReadAt b.text t s) : t.OnLine b s := by
  obtain ⟨before, c, hc, rfl, rfl⟩ := h
  obtain ⟨hbefore, hchars, hbehind⟩ := hc.span_chars
  have hstands := hc.standsAt
  have hsolid := c.gapText_trivia.2
  have hcovers := c.next_covers
  have htext : b.chars = (c.span b.text).before ++
      ((c.span b.text).chars ++ (c.span b.text).behind) := by
    rw [hbefore, hchars, hbehind, List.append_assoc, ← c.rest_eq]
    exact hc.chars_eq
  have hprefix := takeWhile_prefix_append (· != '\n') c.ownText c.next.2.rest
  -- the line consists of what is behind the last line feed and of what comes up to the next one
  have hcolumn : c.next.1.position.column - 1 = (lastLine (c.span b.text).before).length := by
    rw [hstands.column_eq]
    omega
  have hlength : (c.span b.text).line.length = (lastLine (c.span b.text).before).length +
      ((c.ownText ++ c.next.2.rest).takeWhile (· != '\n')).length := by
    rw [Span.line, hchars, hbehind, List.length_append]
  constructor
  · rw [hstands.line_eq, Nat.add_comm, Buffer.line?, htext, lineAt_append]
    rfl
  · exact hstands.column_eq
  · rw [hcolumn, Span.line, List.drop_left, hchars, hbehind]
    exact hprefix
  · intro hend
    have hwidth := hcovers.width_le hsolid hend
    have hle := hprefix.length_le
    rw [hcolumn, hlength]
    omega
  · intro hend
    -- a token that is not the end of the file starts with a character that is no line feed
    have hpos := hsolid.takeWhile_pos fun he => hend (hcovers.own_eq_nil_iff.mp he)
    rw [hchars]
    exact List.ne_nil_of_length_pos hpos
  · intro hend
    constructor
    · rw [hlength, hstands.column_eq, hcovers.own_eq_nil_iff.mpr hend,
        hcovers.behind_eq_nil hend, List.append_nil, List.takeWhile_nil, List.length_nil,
        Nat.add_zero, Nat.add_comm]
    · rw [hcovers.eq_endOfFile hend, Token.width_endOfFile]

/-- Every token of a buffer has a span in its text, and stands on the line of it. -/
theorem Buffer.exists_span {t : Token} (ht : t ∈ b.allTokens) :
    ∃ s, (t, s) ∈ b.allTokens.zip (tokenSpans b.text) ∧ t.OnLine b s := by
  have hread := (Cursor.In.ofText b.text).readAt
  obtain ⟨i, hi, rfl⟩ := List.mem_iff_getElem.mp ht
  have hi' : i < (tokenSpans b.text).length := hread.length_eq ▸ hi
  refine ⟨(tokenSpans b.text)[i], ?_, (hread.get hi hi').onLine⟩
  rw [← List.getElem_zip (h := by rw [List.length_zip]; exact Nat.lt_min.mpr ⟨hi, hi'⟩)]
  exact List.getElem_mem _

/-! ## What is shown -/

@[simp] theorem length_repeated (c : Char) (n : Nat) : (repeated c n).length = n := by
  rw [repeated, String.length_ofList, List.length_replicate]

namespace Diagnostic

variable (d : Diagnostic)

/-- The line with the place and the message. -/
def headline : String := d.location.render ++ ": " ++ d.severity.label ++ ": " ++ d.message

/-- The marks begin below the beginning of the line. -/
theorem gutter_length : d.gutter.length = d.blankGutter.length := by
  rw [gutter, blankGutter, String.length_append, String.length_append, length_repeated]

/-- Without colours a diagnostic is shown on three lines, the last one with a caret for every column
meant. -/
theorem render_eq {line : String} (hline : d.sourceLine = some line) (hlength : 1 ≤ d.length) :
    d.render false = d.headline ++ "\n" ++ (d.gutter ++ line ++ "\n" ++ d.blankGutter ++
      (repeated '~' (d.location.position.column - 1) ++ repeated '^' d.length) ++ "\n") := by
  have hmarks : d.marks =
      repeated '~' (d.location.position.column - 1) ++ repeated '^' d.length := by
    rw [marks, underline, Nat.max_eq_left hlength]
  rw [render, renderWith, hline]
  show d.headline ++ "\n" ++ (d.gutter ++ line ++ "\n" ++ (d.blankGutter ++ d.marks ++ "\n")) = _
  rw [hmarks]
  simp only [String.append_assoc]

/-- A diagnostic stands at a token, or at the end of the file. At a token its columns lie within the
line, and its first column is the first one of the token. -/
inductive StandsAt (b : Buffer) (line : String) : Prop where
  | token {t : Token} {s : Span b.text} (hspan : (t, s) ∈ b.allTokens.zip (tokenSpans b.text))
      (hposition : d.location.position = t.position)
      (hchars : s.chars.takeWhile (· != '\n') ≠ [])
      (hfits : s.chars.takeWhile (· != '\n') <+:
        line.toList.drop (d.location.position.column - 1))
      (hwidth : d.location.position.column - 1 + d.length ≤ line.length)
  | endOfFile (hposition : d.location.position = (Stream.ofText b.chars).finish.position)
      (hcolumn : d.location.position.column = line.length + 1) (hlength : d.length = 1)

/-- A diagnostic shows the line that it is about, and marks in it the text that it is about. -/
structure Fits (b : Buffer) (line : String) : Prop where
  file_eq : d.location.file = b.name
  sourceLine_eq : d.sourceLine = some line
  line_eq : b.line? d.location.position.line = some line
  column_pos : 1 ≤ d.location.position.column
  length_pos : 1 ≤ d.length
  standsAt : d.StandsAt b line
  render_eq : d.render false = d.headline ++ "\n" ++ (d.gutter ++ line ++ "\n" ++ d.blankGutter ++
    (repeated '~' (d.location.position.column - 1) ++ repeated '^' d.length) ++ "\n")
  gutter_length : d.gutter.length = d.blankGutter.length

end Diagnostic

/-- A finding that is made at a token stands at it, or at the end of the file. -/
theorem Finding.diagnostic_standsAt {f : Finding} {t : Token} {s : Span b.text}
    (hspan : (t, s) ∈ b.allTokens.zip (tokenSpans b.text)) (honLine : t.OnLine b s)
    (hloc : f.location = ⟨b.name, t.position⟩) (hpos : 1 ≤ f.length) (hle : f.length ≤ t.width) :
    (f.diagnostic b).StandsAt b (String.ofList s.line) := by
  have hposition : (f.diagnostic b).location.position = t.position :=
    congrArg Location.position hloc
  have hlength : (f.diagnostic b).length = f.length := rfl
  by_cases hend : t.kind = .endOfFile
  · obtain ⟨hcolumn, hwidth⟩ := honLine.finish hend
    refine .endOfFile ?_ ?_ ?_
    · rw [hposition]
      -- of all tokens only the last one is the end of the file
      rcases List.mem_append.mp (List.of_mem_zip hspan).1 with ht | ht
      · exact absurd hend (Stream.upTo_tokens ht).1
      · rw [List.mem_singleton.mp ht]
    · rw [hposition, String.length_ofList]
      exact hcolumn
    · omega
  · have hwidth := honLine.width_le hend
    refine .token hspan hposition (honLine.chars_ne hend) ?_ ?_
    · rw [hposition, String.toList_ofList]
      exact honLine.chars_prefix
    · rw [hposition, String.length_ofList]
      omega

/-- Every diagnostic of a file shows the line of the source that it is about, and marks in it the text
of a token or the place behind the last line. -/
theorem Buffer.diagnostics_fit (b : Buffer) :
    ∀ d ∈ b.parse.diagnostics b, ∃ line, d.Fits b line := by
  intro d hd
  obtain ⟨f, hf, rfl⟩ := List.mem_map.mp hd
  obtain ⟨t, ht, hloc, hpos, hle⟩ := b.findings_mark f hf
  obtain ⟨s, hspan, honLine⟩ := b.exists_span ht
  have hposition : (f.diagnostic b).location.position = t.position :=
    congrArg Location.position hloc
  have hline : b.line? (f.diagnostic b).location.position.line = some (String.ofList s.line) := by
    rw [hposition]
    exact honLine.line_eq
  refine ⟨String.ofList s.line, congrArg Location.file hloc, hline, hline, ?_, hpos,
    f.diagnostic_standsAt hspan honLine hloc hpos hle, (f.diagnostic b).render_eq hline hpos,
    (f.diagnostic b).gutter_length⟩
  rw [hposition, honLine.column_eq]
  exact Nat.le_add_right _ _

/-- An invalid token behind a value, in the middle of its line. -/
theorem Buffer.diagnostics_fit_stray :
    let b : Buffer := ⟨"main.tp", "x := 1 $;"⟩
    ∃ d ∈ b.parse.diagnostics b, d.message = "Unexpected character." ∧ ∃ line, d.Fits b line := by
  intro b
  have hfinding : ⟨.lexical "Unexpected character.", ⟨"main.tp", ⟨1, 8⟩⟩, 1⟩ ∈ b.parse.findings := by
    decide
  have hmem := List.mem_map_of_mem (f := fun f => f.diagnostic b) hfinding
  exact ⟨_, hmem, rfl, Buffer.diagnostics_fit b _ hmem⟩

end FrontEnd
