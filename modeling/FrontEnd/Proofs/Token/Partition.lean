import FrontEnd.Proofs.Token.Pieces

set_option autoImplicit false

/-! # The tokens of a text divide it

Every token of a text has a span in it. The spans lie between whole characters and come one behind
the other, with nothing but blanks and comments between them, so no character is lost and none is
read twice (`Partition`). The end of the file takes the empty span at the end of the text, and is
found again however often one more token is asked for.

A cursor holds what is left of the text, and a span has two places in the text. `Cursor.In` says
where a cursor stands: what was read and what is left make up the text. It holds of the first cursor
and behind every token, so the division is an induction over the tokens.
-/

namespace FrontEnd

/-- A stretch of a text. Its ends are places between characters. -/
structure Span (text : String) where
  start : text.Pos
  stop : text.Pos

namespace Span

variable {text : String}

/-- The characters of a span. -/
def chars (s : Span text) : List Char := (String.extract s.start s.stop).toList

end Span

/-- The characters between two places of a text are nothing but blanks and comments. What stands
behind them matters, as a line comment ends only at a line feed or with the text. -/
def IsGap {text : String} (p q : text.Pos) : Prop :=
  p ≤ q ∧ Trivia (String.extract q text.endPos).toList (String.extract p q).toList

/-- From the place `p` of a text on, these tokens take these spans. Between the spans are gaps, so
every character belongs to a token or to a gap. -/
inductive Partition (text : String) : text.Pos → List Token → List (Span text) → Prop where
  /-- A token takes a span that is not empty, and a valid one is the text of its span. -/
  | token {p : text.Pos} {t : Token} {s : Span text} {tokens : List Token}
      {spans : List (Span text)} (hinner : t.kind ≠ .endOfFile) (hgap : IsGap p s.start)
      (hspan : s.start < s.stop)
      (hlexeme : t.kind ≠ .invalid → t.lexeme = String.extract s.start s.stop)
      (hrest : Partition text s.stop tokens spans) : Partition text p (t :: tokens) (s :: spans)
  /-- The end of the file is the last token and takes the empty span at the end. -/
  | endOfFile {p : text.Pos} {t : Token} {s : Span text} (hend : t.kind = .endOfFile)
      (hgap : IsGap p s.start) (hstart : s.start = text.endPos) (hstop : s.stop = text.endPos)
      (hlexeme : t.lexeme = "") : Partition text p [t] [s]

/-! ## Places in a text -/

section

variable {text : String}

/-- The place behind the first characters of a text. -/
theorem splits_nextn (text : String) (n : Nat) :
    (text.startPos.nextn n).Splits (String.ofList (text.toList.take n))
      (String.ofList (text.toList.drop n)) := by
  have hsplits := (String.splits_startPos text).nextn n
  rwa [String.empty_append] at hsplits

/-- The text between two places. -/
theorem extract_of_splits {p q : text.Pos} {before own behind : String}
    (hp : p.Splits before (own ++ behind)) (hq : q.Splits (before ++ own) behind) :
    String.extract p q = own := by
  obtain ⟨hle, hcopy⟩ := String.copy_slice_eq_iff_splits.mpr ⟨before, behind, hp, hq⟩
  rw [String.extract_eq_copy_slice p q hle, hcopy]

/-- The text from a place on. -/
theorem extract_endPos {p : text.Pos} {before behind : String} (hp : p.Splits before behind) :
    String.extract p text.endPos = behind := by
  have hstart : p.Splits before (behind ++ "") := by rwa [String.append_empty]
  have hend : text.endPos.Splits (before ++ behind) "" := by
    rw [← hp.eq_append]
    exact String.splits_endPos text
  exact extract_of_splits hstart hend

/-- The text in front of a place. -/
theorem extract_startPos {p : text.Pos} {before behind : String} (hp : p.Splits before behind) :
    String.extract text.startPos p = before := by
  have hstart : text.startPos.Splits "" (before ++ behind) := by
    rw [← hp.eq_append]
    exact String.splits_startPos text
  have hend : p.Splits ("" ++ before) behind := by rwa [String.empty_append]
  exact extract_of_splits hstart hend

end

/-! ## Cursors in a text -/

namespace Cursor

/-- The span of the next token, for a cursor at some place of the text. -/
def span (text : String) (c : Cursor) : Span text where
  start := text.startPos.nextn (text.length - c.rest.length + c.gapLength)
  stop := text.startPos.nextn (text.length - c.next.2.rest.length)

/-- The spans of the next `n` tokens. -/
def spans (text : String) : Nat → Cursor → List (Span text)
  | 0, _ => []
  | n + 1, c => c.span text :: spans text n c.next.2

/-- The cursor stands in a text, behind the characters `before`. Its place is the one that these lead
to from the start. -/
structure In (text : String) (before : List Char) (c : Cursor) : Prop where
  chars_eq : text.toList = before ++ c.rest
  position_eq : c.position = Position.start.after before

end Cursor

/-- The spans of the tokens of a text. -/
def tokenSpans (text : String) : List (Span text) :=
  (Cursor.ofText text.toList).spans text (Stream.ofText text.toList).all.length

namespace Cursor.In

variable {text : String} {before : List Char} {c : Cursor}

theorem ofText (text : String) : (Cursor.ofText text.toList).In text [] := ⟨rfl, rfl⟩

/-- Behind the next token. -/
theorem next (h : c.In text before) : c.next.2.In text (before ++ c.gapText ++ c.ownText) where
  chars_eq := by
    rw [h.chars_eq, List.append_assoc, List.append_assoc]
    exact congrArg (before ++ ·) c.rest_eq
  position_eq := by
    rw [c.behind_position, h.position_eq, ← Position.after_append, List.append_assoc]

/-- The place of the cursor. -/
theorem splits (h : c.In text before) :
    (text.startPos.nextn before.length).Splits (String.ofList before) (String.ofList c.rest) := by
  have hsplits := splits_nextn text before.length
  rwa [h.chars_eq, List.take_left, List.drop_left] at hsplits

theorem length_sub (h : c.In text before) : text.length - c.rest.length = before.length := by
  have hlength := congrArg List.length h.chars_eq
  rw [String.length_toList, List.length_append] at hlength
  omega

/-- The next token starts behind the gap. -/
theorem splits_start (h : c.In text before) :
    (c.span text).start.Splits (String.ofList (before ++ c.gapText))
      (String.ofList (c.ownText ++ c.next.2.rest)) := by
  have hchars : text.toList = (before ++ c.gapText) ++ (c.ownText ++ c.next.2.rest) := by
    rw [h.chars_eq, List.append_assoc]
    exact congrArg (before ++ ·) c.rest_eq
  have hlength : text.length - c.rest.length + c.gapLength = (before ++ c.gapText).length := by
    rw [h.length_sub, List.length_append, gapText_length]
  have hsplits := splits_nextn text (before ++ c.gapText).length
  rw [span, hlength]
  rwa [hchars, List.take_left, List.drop_left] at hsplits

/-- The next token ends behind its text. -/
theorem splits_stop (h : c.In text before) :
    (c.span text).stop.Splits (String.ofList (before ++ c.gapText ++ c.ownText))
      (String.ofList c.next.2.rest) := by
  rw [span, h.next.length_sub]
  exact h.next.splits

/-- In front of the next token there are only blanks and comments. -/
theorem isGap (h : c.In text before) :
    IsGap (text.startPos.nextn before.length) (c.span text).start := by
  have hstart := h.splits_start
  rw [String.ofList_append] at hstart
  have hplace := h.splits
  rw [c.rest_eq, String.ofList_append] at hplace
  constructor
  · exact (hplace.le_iff_exists_eq_append hstart).mpr ⟨String.ofList c.gapText, rfl, rfl⟩
  · rw [extract_endPos hstart, extract_of_splits hplace hstart, String.toList_ofList,
      String.toList_ofList]
    exact c.gapText_trivia.1

/-- The text of the next token. -/
theorem extract_span (h : c.In text before) :
    String.extract (c.span text).start (c.span text).stop = String.ofList c.ownText := by
  have hstart : (c.span text).start.Splits (String.ofList (before ++ c.gapText))
      (String.ofList c.ownText ++ String.ofList c.next.2.rest) := by
    rw [← String.ofList_append]
    exact h.splits_start
  have hstop := h.splits_stop
  rw [String.ofList_append] at hstop
  exact extract_of_splits hstart hstop

/-- A token that is not the end of the file takes a span that is not empty. -/
theorem start_lt_stop (h : c.In text before) (hinner : c.next.1.kind ≠ .endOfFile) :
    (c.span text).start < (c.span text).stop := by
  have hown : c.ownText ≠ [] := fun he => hinner (c.next_covers.own_eq_nil_iff.mp he)
  refine (h.splits_start.lt_iff_exists_eq_append h.splits_stop).mpr
    ⟨String.ofList c.ownText, fun he => hown ?_, String.ofList_append, String.ofList_append⟩
  rw [← String.toList_ofList (l := c.ownText), he]
  rfl

/-- The end of the file takes the empty span at the end of the text. -/
theorem span_eq_endPos (h : c.In text before) (hend : c.next.1.kind = .endOfFile) :
    (c.span text).start = text.endPos ∧ (c.span text).stop = text.endPos := by
  have hown := c.next_covers.own_eq_nil_iff.mpr hend
  have hbehind := c.next_covers.behind_eq_nil hend
  constructor
  · refine h.splits_start.eq_endPos_iff.mpr ?_
    rw [hown, hbehind]
    rfl
  · refine h.splits_stop.eq_endPos_iff.mpr ?_
    rw [hbehind]

end Cursor.In

/-! ## The division of a text -/

/-- The tokens from a cursor on divide what is left of the text. -/
theorem Cursor.In.partition {text : String} {before : List Char} {c : Cursor}
    (h : c.In text before) :
    Partition text (text.startPos.nextn before.length) (Stream.ofCursor c).all
      (c.spans text (Stream.ofCursor c).all.length) := by
  induction hn : c.rest.length using Nat.strong_induction_on generalizing c before with
  | h n ih =>
    by_cases hend : c.next.1.kind = .endOfFile
    · rw [Stream.ofCursor_end hend]
      obtain ⟨hstart, hstop⟩ := h.span_eq_endPos hend
      refine .endOfFile hend h.isGap hstart hstop ?_
      rw [c.next_covers.eq_endOfFile hend]
      rfl
    · rw [Stream.ofCursor_cons hend]
      have hrest := ih _ (hn ▸ Cursor.next_lt hend) h.next rfl
      have hstop : (c.span text).stop =
          text.startPos.nextn (before ++ c.gapText ++ c.ownText).length := by
        rw [Cursor.span, h.next.length_sub]
      rw [← hstop] at hrest
      refine .token hend h.isGap (h.start_lt_stop hend) (fun hvalid => ?_) hrest
      rw [h.extract_span]
      exact c.next_covers.lexeme_eq hvalid

/-- Tokens that are asked for behind the last one are all the end of the file. -/
theorem Cursor.take_all (c : Cursor) (n : Nat) :
    c.take ((Stream.ofCursor c).all.length + n) =
      (Stream.ofCursor c).all ++ List.replicate n (Stream.ofCursor c).finish := by
  induction hlength : c.rest.length using Nat.strong_induction_on generalizing c with
  | h k ih =>
    by_cases hend : c.next.1.kind = .endOfFile
    · rw [Stream.ofCursor_end hend]
      have hagain (m : Nat) (d : Cursor) (hd : d.next = c.next) :
          d.take m = List.replicate m c.next.1 := by
        induction m generalizing d with
        | zero => rfl
        | succ m ihm =>
            rw [Cursor.take, hd, ihm c.next.2 (Cursor.next_next hend)]
            rfl
      rw [hagain _ c rfl]
      exact (List.replicate_append_replicate (n := 1) (a := c.next.1)).symm
    · rw [Stream.ofCursor_cons hend]
      have hrest := ih _ (hlength ▸ Cursor.next_lt hend) c.next.2 rfl
      show c.take ((Stream.ofCursor c.next.2).all.length + 1 + n) = _
      rw [show (Stream.ofCursor c.next.2).all.length + 1 + n =
        (Stream.ofCursor c.next.2).all.length + n + 1 by omega, Cursor.take, hrest]
      rfl

namespace Partition

variable {text : String} {p : text.Pos} {tokens : List Token} {spans : List (Span text)}

/-- The spans come one behind the other. -/
theorem pairwise (h : Partition text p tokens spans) :
    spans.Pairwise (fun a b => a.start < b.start ∧ a.stop ≤ b.start) ∧ ∀ s ∈ spans, p ≤ s.start := by
  induction h with
  | @token p t s tokens spans _ hgap hspan _ _ ih =>
      have hbehind : ∀ b ∈ spans, s.start < b.start ∧ s.stop ≤ b.start := fun b hb =>
        ⟨String.Pos.lt_of_lt_of_le hspan (ih.2 b hb), ih.2 b hb⟩
      refine ⟨List.pairwise_cons.mpr ⟨hbehind, ih.1⟩, fun b hb => ?_⟩
      cases hb with
      | head => exact hgap.1
      | tail _ hb => exact String.Pos.le_trans hgap.1 (String.Pos.le_of_lt (hbehind b hb).1)
  | endOfFile _ hgap =>
      refine ⟨List.pairwise_singleton _ _, fun b hb => ?_⟩
      obtain rfl := List.mem_singleton.mp hb
      exact hgap.1

end Partition

/-- Every token but the end of the file takes a character. -/
theorem Stream.length_tokens_le (c : Cursor) : (ofCursor c).tokens.length ≤ c.rest.length := by
  induction hn : c.rest.length using Nat.strong_induction_on generalizing c with
  | h n ih =>
    by_cases hend : c.next.1.kind = .endOfFile
    · rw [ofCursor_end hend]
      exact Nat.zero_le _
    · have hlt := Cursor.next_lt hend
      have hrest := ih _ (hn ▸ hlt) c.next.2 rfl
      rw [ofCursor_cons hend, cons, List.length_cons]
      omega

/-- The tokens of a text divide it: one span belongs to each token, the spans follow one another in
order, a valid token is the text of its span, and in front of each span there are only blanks and
comments. The end of the file is the last token and no other one. There is at most one token more
than there are characters, and tokens asked for behind the last one are this one again. -/
theorem tokens_partition (text : String) :
    Partition text text.startPos (Stream.ofText text.toList).all (tokenSpans text) ∧
      (tokenSpans text).Pairwise (fun a b => a.start < b.start ∧ a.stop ≤ b.start) ∧
      (∀ t ∈ (Stream.ofText text.toList).tokens, t.kind ≠ .endOfFile) ∧
      (Stream.ofText text.toList).finish.kind = .endOfFile ∧
      (Stream.ofText text.toList).all.length ≤ text.length + 1 ∧
      ∀ n, (Cursor.ofText text.toList).take ((Stream.ofText text.toList).all.length + n) =
        (Stream.ofText text.toList).all ++
          List.replicate n (Stream.ofText text.toList).finish := by
  have hpartition : Partition text text.startPos (Stream.ofText text.toList).all (tokenSpans text) :=
    (Cursor.In.ofText text).partition
  refine ⟨hpartition, hpartition.pairwise.1, fun t ht => (Stream.upTo_tokens ht).1,
    Stream.upTo_finish _ _, ?_, Cursor.take_all _⟩
  have hlength : (Stream.ofText text.toList).tokens.length ≤ text.toList.length :=
    Stream.length_tokens_le (.ofText text.toList)
  rw [String.length_toList] at hlength
  rw [Stream.all, List.length_append, List.length_singleton]
  omega

end FrontEnd
