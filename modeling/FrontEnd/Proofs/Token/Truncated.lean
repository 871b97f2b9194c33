import FrontEnd.Proofs.Token.Blanked
import FrontEnd.Proofs.Token.Fixed
import FrontEnd.Proofs.Token.LineEnds

set_option autoImplicit false

/-! # Text that is cut off in front of a closing brace

A closing brace ends what is in front of it, just as the end of the text does. So a text that is cut
off in front of a closing brace has the tokens that stand in front of this brace, and ends at its
place (`Stream.ofCursor_truncated`). The place is the same in the text of a file and in its buffer
(`Stream.ofText_textBefore`).

That a brace ends what is in front of it has to be seen for each kind of token. No word and no
number has a brace in it, so their runs of characters stop there. No sign goes on with a brace, so
the longest sign at a place stays the longest one (`scanSymbol_truncated`). A literal may hold
braces, but one that is closed in front of the cut is not changed by it. And a brace opens no
comment, so a gap is not opened by what stands before the cut and the brace together
(`startsGap_truncated`).
-/

namespace FrontEnd

/-- The characters in front of the place `q`, of a text that starts at a given place. -/
def charsBefore (q : Position) : Position → List Char → List Char
  | _, [] => []
  | p, c :: rest => if p = q then [] else c :: charsBefore q (p.step c) rest

/-- The text in front of a place. The character at the place is the first one that is cut off. -/
def textBefore (q : Position) (text : String) : String :=
  String.ofList (charsBefore q .start text.toList)

variable {text more : List Char}

/-! ## Tokens in front of a closing brace -/

/-- A sign fits in front of a closing brace if it fits without the brace, unless it is the brace. -/
theorem isPrefixOf_truncated {entry : List Char} (htext : text ≠ [])
    (hentry : entry.length = 1 ∨ entry.any isCloser = false) :
    entry.isPrefixOf (text ++ '\x7d' :: more) = entry.isPrefixOf text := by
  rw [Bool.eq_iff_iff, List.isPrefixOf_iff_prefix, List.isPrefixOf_iff_prefix]
  refine ⟨fun hfits => ?_, fun hfits => hfits.trans (List.prefix_append _ _)⟩
  refine List.prefix_of_prefix_length_le hfits (List.prefix_append _ _) ?_
  -- an entry that goes on behind the text would hold the brace and others
  refine Nat.le_of_not_lt fun hlt => ?_
  have hbrace : text ++ ['\x7d'] <+: entry := by
    refine List.prefix_of_prefix_length_le ⟨more, by simp⟩ hfits ?_
    rw [List.length_append]
    exact hlt
  rcases hentry with hone | hnone
  · have hpos := List.length_pos_iff.mpr htext
    omega
  · exact List.any_eq_false.mp hnone '\x7d' (hbrace.subset (by simp)) rfl

/-- The same sign is the longest with the brace and without it. -/
theorem scanSymbol_truncated (htext : text ≠ []) :
    scanSymbol (text ++ '\x7d' :: more) = scanSymbol text := by
  have hfind : symbolTable.find? (fun entry => entry.1.isPrefixOf (text ++ '\x7d' :: more)) =
      symbolTable.find? (fun entry => entry.1.isPrefixOf text) :=
    List.find?_congr fun entry hentry =>
      isPrefixOf_truncated htext (symbolTable_closer entry hentry)
  rw [scanSymbol_eq_longestSymbol, scanSymbol_eq_longestSymbol, longestSymbol, hfind,
    longestSymbol]

/-- A token in front of a closing brace is found without the brace too. -/
theorem scan_truncated {c : Char} {own front : List Char}
    (h : (scan c (own ++ (front ++ '\x7d' :: more))).length = 1 + own.length) :
    scan c (own ++ front) = scan c (own ++ (front ++ '\x7d' :: more)) := by
  -- the cases are those of the scanner: a word, a number, two kinds of literals, a sign
  have hstop (p : Char → Bool) (hp : p '\x7d' = false) : StopsAt p ('\x7d' :: more) := .cons hp more
  have htext :
      c :: (own ++ (front ++ '\x7d' :: more)) = (c :: (own ++ front)) ++ '\x7d' :: more := by simp
  unfold scan at h ⊢
  split
  · rw [htext, scanWord_append_stop (hstop _ rfl)]
  · next hword =>
    rw [if_neg hword] at h
    split
    · rw [htext, (hstop _ rfl).scanNumber_append]
    · next hdigit =>
      rw [if_neg hdigit] at h
      split
      · next hquote =>
        rw [if_pos hquote] at h
        exact scanQuoted_own (by simp) h
      · next hquote =>
        rw [if_neg hquote] at h
        split
        · next hquote' =>
          rw [if_pos hquote'] at h
          exact scanQuoted_own (by simp) h
        · rw [htext, scanSymbol_truncated (List.cons_ne_nil _ _)]

/-- A closing brace starts no gap. -/
theorem startsGap_truncated (c : Char) (text : List Char) :
    startsGap (c :: (text ++ '\x7d' :: more)) = startsGap (c :: text) := by
  cases text with
  | cons d text => rfl
  | nil => simp [startsGap, Gap.isCommentSign]

namespace Cursor

/-- The text of a token with a spelling of its own is this spelling. -/
theorem ownText_fixed {c : Cursor} (hk : c.next.1.kind.isFixed = true) :
    c.ownText = c.next.1.kind.spelling.toList := by
  have hvalid : c.next.1.kind ≠ .invalid ∧ c.next.1.kind ≠ .endOfFile := by
    constructor <;>
    · intro he
      rw [he] at hk
      cases hk
  obtain ⟨first, rest, hscan, hlexeme⟩ := next_valid hvalid.1 hvalid.2
  rw [scan_spelling hscan hk, c.next_covers.lexeme_eq hvalid.1] at hlexeme
  rw [← hlexeme, String.toList_ofList]

/-- A token is read in the same way if the text behind it is cut off in front of a closing brace. -/
theorem next_truncated {c : Cursor} (hend : c.next.1.kind ≠ .endOfFile) {front : List Char}
    (h : c.next.2.rest = front ++ '\x7d' :: more) :
    (Cursor.mk (c.gapText ++ (c.ownText ++ front)) c.position).next =
      (c.next.1, ⟨front, c.next.2.position⟩) := by
  have hplain : startsGap (c.ownText ++ c.next.2.rest) = false := by
    refine c.ownText_cases.resolve_right fun ⟨_, hnil⟩ => ?_
    rw [hnil] at h
    exact absurd h.symm (by simp)
  obtain ⟨first, own, hown, hlength, -⟩ := c.scan_ownText hend hplain
  rw [next_trivia (Blanks.gapText_trivia hend _), ← c.next_position]
  refine c.next_behind hend hplain hown ?_ ?_
  · rw [hown, h, List.cons_append, ← List.append_assoc, startsGap_truncated] at hplain
    exact hplain
  · rw [h] at hlength ⊢
    exact scan_truncated (hlength.trans (Nat.add_comm _ 1))

end Cursor

/-! ## Streams -/

/-- The first token of a stream is the next one, and the others follow it. -/
theorem Stream.next_of_tokens {c : Cursor} {t : Token} {rest : List Token}
    (h : (ofCursor c).tokens = t :: rest) :
    c.next.1.kind ≠ .endOfFile ∧ c.next.1 = t ∧ (ofCursor c.next.2).tokens = rest := by
  by_cases hend : c.next.1.kind = .endOfFile
  · rw [ofCursor_end hend] at h
    cases h
  · rw [ofCursor_cons hend] at h
    exact ⟨hend, List.cons.inj h⟩

/-- If a closing brace stands among the tokens of a text then the tokens in front of it are those of
the text that is cut off there, and this text ends at the place of the brace. -/
theorem Stream.ofCursor_truncated {c : Cursor} {before rest : List Token} {brace : Token}
    (h : (ofCursor c).tokens = before ++ brace :: rest) (hk : brace.kind = .mark .rightBrace) :
    ∃ front more, c.rest = front ++ '\x7d' :: more ∧ brace.position = c.position.after front ∧
      ofCursor ⟨front, c.position⟩ = ⟨before, .endOfFile brace.position⟩ := by
  induction before generalizing c with
  | nil =>
      -- the brace is the next token, and only the gap in front of it is left
      obtain ⟨hend, rfl, -⟩ := next_of_tokens h
      have hown : c.ownText = ['\x7d'] := by rw [Cursor.ownText_fixed (by rw [hk]; rfl), hk]; rfl
      refine ⟨c.gapText, c.next.2.rest, ?_, c.next_position, ?_⟩
      · rw [← List.singleton_append, ← hown]
        exact c.rest_eq
      · have hnext : (Cursor.mk c.gapText c.position).next =
            (.endOfFile c.next.1.position, ⟨[], c.next.1.position⟩) := by
          have htrivia := Cursor.next_trivia (Blanks.gapText_trivia hend []) c.position
          rwa [List.append_nil, ← c.next_position] at htrivia
        rw [ofCursor_end (by rw [hnext]; rfl), hnext]
  | cons t before ih =>
      obtain ⟨hend, rfl, htail⟩ := next_of_tokens h
      obtain ⟨front, more, hrest, hposition, hstream⟩ := ih htail
      -- the next token is read in the same way without the brace
      have hnext := Cursor.next_truncated hend hrest
      refine ⟨c.gapText ++ (c.ownText ++ front), more, ?_, ?_, ?_⟩
      · rw [List.append_assoc, List.append_assoc, ← hrest]
        exact c.rest_eq
      · rw [hposition, c.behind_position, ← Position.after_append, List.append_assoc]
      · rw [ofCursor_cons (by rw [hnext]; exact hend), hnext]
        dsimp only
        rw [hstream]
        rfl

/-! ## Files

The line ends of a file are normalised before its tokens are read, so places are those of the buffer.
A brace is part of no line end: cutting in front of it and normalising may be done in either order. -/

/-- A place is found again in a text that goes on behind it. -/
theorem charsBefore_after (p : Position) (kept : List Char) (c : Char) (cut : List Char) :
    charsBefore (p.after kept) p (kept ++ c :: cut) = kept := by
  induction kept generalizing p with
  | nil => exact if_pos rfl
  | cons d kept ih =>
      have hne : p ≠ p.after (d :: kept) := fun he =>
        (Position.before_after (List.cons_ne_nil d kept) p).not_atMost (he ▸ .refl p)
      rw [List.cons_append, charsBefore, if_neg hne, Position.after_cons, ih]

/-- A character that is part of no line end divides a text as it divides its normalised form. -/
theorem exists_append_of_normalizeNewlines {c : Char} (hc : c ≠ '\n') {front behind : List Char}
    (h : normalizeNewlines text = front ++ c :: behind) :
    ∃ kept cut, text = kept ++ c :: cut ∧ normalizeNewlines kept = front := by
  induction text generalizing front with
  | nil => exact absurd h (by simp [normalizeNewlines])
  | cons d text ih =>
      rcases normalizeNewlines_cons d text with ⟨rfl, hfeed, heq⟩ | ⟨hplain, heq⟩
      · obtain ⟨kept, cut, rfl, rfl⟩ := ih (heq.symm.trans h)
        refine ⟨'\r' :: kept, cut, rfl, ?_⟩
        obtain ⟨kept, rfl⟩ : ∃ more, kept = '\n' :: more := by
          cases kept with
          | nil => exact absurd (Option.some.inj hfeed) hc
          | cons e kept =>
              obtain rfl := Option.some.inj hfeed
              exact ⟨kept, rfl⟩
        rw [normalizeNewlines, normalizeNewlines_cons_of_ne (by decide)]
      · rw [heq] at h
        cases front with
        | nil =>
            obtain ⟨rfl, -⟩ := List.cons.inj h
            exact ⟨[], text, rfl, rfl⟩
        | cons e front =>
            obtain ⟨rfl, hrest⟩ := List.cons.inj h
            obtain ⟨kept, cut, rfl, rfl⟩ := ih hrest
            refine ⟨d :: kept, cut, rfl, ?_⟩
            rcases normalizeNewlines_cons d kept with ⟨hd, hfeed, -⟩ | ⟨-, heq'⟩
            · exact absurd (by rw [List.head?_append, hfeed]; rfl) (hplain hd)
            · exact heq'

/-- If a closing brace stands among the tokens of a file, the text in front of its place goes up to
this brace and has the tokens in front of it. -/
theorem Stream.ofText_textBefore {name text : String} {before rest : List Token} {brace : Token}
    (h : (ofText (Buffer.ofText name text).chars).tokens = before ++ brace :: rest)
    (hk : brace.kind = .mark .rightBrace) :
    (∃ cut, text.toList = (textBefore brace.position text).toList ++ '\x7d' :: cut) ∧
      (∃ behind, (Buffer.ofText name text).chars =
        (Buffer.ofText name (textBefore brace.position text)).chars ++ '\x7d' :: behind) ∧
      brace.position =
        Position.start.after (Buffer.ofText name (textBefore brace.position text)).chars ∧
      ofText (Buffer.ofText name (textBefore brace.position text)).chars =
        ⟨before, .endOfFile brace.position⟩ := by
  obtain ⟨front, behind, hchars, hposition, hstream⟩ := ofCursor_truncated h hk
  have hnormal : normalizeNewlines text.toList = front ++ '\x7d' :: behind := by
    rw [← Buffer.chars_ofText name]
    exact hchars
  obtain ⟨kept, cut, htext, rfl⟩ := exists_append_of_normalizeNewlines (by decide) hnormal
  have hbefore : textBefore brace.position text = String.ofList kept := by
    rw [textBefore, htext, hposition]
    dsimp only [Cursor.ofText]
    rw [Position.after_normalizeNewlines, charsBefore_after]
  have hfront : (Buffer.ofText name (textBefore brace.position text)).chars =
      normalizeNewlines kept := by
    rw [hbefore, Buffer.chars_ofText, String.toList_ofList]
  refine ⟨⟨cut, by rw [hbefore, String.toList_ofList, htext]⟩, ⟨behind, ?_⟩, ?_, ?_⟩
  · rw [hfront]
    exact hchars
  · rw [hfront]
    exact hposition
  · rw [hfront]
    exact hstream

end FrontEnd
