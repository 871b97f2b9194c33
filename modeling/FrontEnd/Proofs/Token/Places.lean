import FrontEnd.Proofs.Token.Partition
import Mathlib.Data.List.DropRight
import Mathlib.Data.List.Forall2

set_option autoImplicit false

/-! # The places of the tokens

The position of a token says how many lines there are in front of the first character of the token and
how many characters there are in front of it on its own line (`Token.StandsAt`). Faulty text is no
exception: it is reported where it starts, and a block comment that is never closed where the
outermost comment is opened.

A position is counted along as characters are read (`Position.after`), and said here in closed form,
by the line feeds in front and by the length of the last line. No line and no column is larger than
the text is long, up to one (`tokens_position_le`).
-/

namespace FrontEnd

/-- The part of a text behind its last line feed, or all of it if there is none. Its length is what a
column counts. -/
def lastLine (text : List Char) : List Char := text.rtakeWhile (· != '\n')

theorem lastLine_append_lineFeed (text : List Char) : lastLine (text ++ ['\n']) = [] :=
  List.rtakeWhile_concat_neg _ _ _ (by simp)

theorem lastLine_append_of_ne {c : Char} (hc : c ≠ '\n') (text : List Char) :
    lastLine (text ++ [c]) = lastLine text ++ [c] :=
  List.rtakeWhile_concat_pos _ _ _ (by simpa using hc)

/-- A line feed adds a line, and any other character one to the last line. -/
theorem Position.after_start (text : List Char) :
    Position.start.after text = ⟨1 + text.count '\n', 1 + (lastLine text).length⟩ := by
  induction text using List.reverseRecOn with
  | nil => rfl
  | append_singleton text c ih =>
      rw [after_append, ih, after_cons, after_nil, step, List.count_append]
      by_cases hc : c = '\n'
      · subst hc
        rw [if_pos rfl, lastLine_append_lineFeed, List.count_singleton_self, Nat.add_assoc]
        rfl
      · rw [if_neg hc, lastLine_append_of_ne hc, List.count_singleton, if_neg (by simpa using hc),
          List.length_append, List.length_singleton, Nat.add_assoc]
        rfl

/-- Lines and columns are bounded by the length of the text in front of a place. So they fit into 32
bits in every text of fewer than `2 ^ 32 - 1` characters. -/
theorem Position.after_start_le (text : List Char) :
    (Position.start.after text).line ≤ text.length + 1 ∧
      (Position.start.after text).column ≤ text.length + 1 := by
  have hline : text.count '\n' ≤ text.length := List.count_le_length
  have hcolumn : (lastLine text).length ≤ text.length := (List.rtakeWhile_suffix _ _).length_le
  rw [after_start]
  dsimp only
  constructor
  · omega
  · omega

namespace Span

variable {text : String}

/-- The characters in front of a span. -/
def before (s : Span text) : List Char := (String.extract text.startPos s.start).toList

/-- The characters behind a span. -/
def behind (s : Span text) : List Char := (String.extract s.stop text.endPos).toList

end Span

/-- The token stands where its span starts, and faulty text is what the span contains. -/
structure Token.StandsAt {text : String} (t : Token) (s : Span text) : Prop where
  line_eq : t.position.line = 1 + s.before.count '\n'
  column_eq : t.position.column = 1 + (lastLine s.before).length
  explained : ∀ fault, t = .invalid fault t.position → fault.Explains s.chars s.behind

/-- The characters around the span of the next token. -/
theorem Cursor.In.span_chars {text : String} {before : List Char} {c : Cursor}
    (h : c.In text before) :
    (c.span text).before = before ++ c.gapText ∧ (c.span text).chars = c.ownText ∧
      (c.span text).behind = c.next.2.rest := by
  refine ⟨?_, ?_, ?_⟩
  · rw [Span.before, extract_startPos h.splits_start, String.toList_ofList]
  · rw [Span.chars, h.extract_span, String.toList_ofList]
  · rw [Span.behind, extract_endPos h.splits_stop, String.toList_ofList]

/-- The next token stands at its span. -/
theorem Cursor.In.standsAt {text : String} {before : List Char} {c : Cursor}
    (h : c.In text before) : c.next.1.StandsAt (c.span text) := by
  obtain ⟨hbefore, hchars, hbehind⟩ := h.span_chars
  have hposition : c.next.1.position = Position.start.after (c.span text).before := by
    rw [hbefore, c.next_position, h.position_eq, Position.after_append]
  constructor
  · rw [hposition, Position.after_start]
  · rw [hposition, Position.after_start]
  · intro fault ht
    rw [hchars, hbehind]
    exact c.next_covers.explains ht

/-- A token and its span have been read at some place of the text. All that is known of them follows
from the cursor at this place. -/
def ReadAt (text : String) (t : Token) (s : Span text) : Prop :=
  ∃ before c, Cursor.In text before c ∧ t = c.next.1 ∧ s = c.span text

/-- All tokens from a cursor on have been read at some place of the text. -/
theorem Cursor.In.readAt {text : String} {before : List Char} {c : Cursor} (h : c.In text before) :
    List.Forall₂ (ReadAt text) (Stream.ofCursor c).all
      (c.spans text (Stream.ofCursor c).all.length) := by
  induction hn : c.rest.length using Nat.strong_induction_on generalizing c before with
  | h n ih =>
    by_cases hend : c.next.1.kind = .endOfFile
    · rw [Stream.ofCursor_end hend]
      exact .cons ⟨before, c, h, rfl, rfl⟩ .nil
    · rw [Stream.ofCursor_cons hend]
      exact .cons ⟨before, c, h, rfl, rfl⟩ (ih _ (hn ▸ Cursor.next_lt hend) h.next rfl)

/-- No token stands further on than its text is long. -/
theorem tokens_position_le {text : String} {t : Token} (h : t ∈ (Stream.ofText text.toList).all) :
    t.position.line ≤ text.length + 1 ∧ t.position.column ≤ text.length + 1 := by
  have hread := (Cursor.In.ofText text).readAt
  obtain ⟨i, hi, rfl⟩ := List.mem_iff_getElem.mp h
  obtain ⟨before, c, hc, ht, -⟩ := hread.get hi (hread.length_eq ▸ hi)
  have hposition : c.next.1.position = Position.start.after (before ++ c.gapText) := by
    rw [c.next_position, hc.position_eq, Position.after_append]
  have hlength : (before ++ c.gapText).length ≤ text.length := by
    have hchars := congrArg List.length hc.chars_eq
    have hrest := congrArg List.length c.rest_eq
    rw [String.length_toList] at hchars
    simp only [List.length_append] at hchars hrest ⊢
    omega
  obtain ⟨hline, hcolumn⟩ := Position.after_start_le (before ++ c.gapText)
  change (Stream.ofText text.toList).all[i] = c.next.1 at ht
  rw [ht, hposition]
  constructor
  · omega
  · omega

/-- Every token stands where its span starts: its line is one more than the number of line feeds in
front of it, and its column one more than the number of characters between the last of them, or the
start of the text, and the token. Since nothing but blanks and complete comments lies in front of
a span, a comment that is never closed is reported at the outermost sign that opens it. -/
theorem tokens_standAt_spans (text : String) :
    Partition text text.startPos (Stream.ofText text.toList).all (tokenSpans text) ∧
      List.Forall₂ Token.StandsAt (Stream.ofText text.toList).all (tokenSpans text) := by
  refine ⟨(Cursor.In.ofText text).partition, List.Forall₂.imp ?_ (Cursor.In.ofText text).readAt⟩
  rintro t s ⟨before, c, h, rfl, rfl⟩
  exact h.standsAt

end FrontEnd
