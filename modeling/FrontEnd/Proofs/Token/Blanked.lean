import FrontEnd.Proofs.Token.Fading

set_option autoImplicit false

/-! # Spaces in place of stray characters

A stray character is a token of its own, which stands for text that is faulty. `blankOut` puts spaces
in place of all stray characters of a text. The text that results has the same tokens at the same
places, apart from those that stood for the stray characters (`Stream.ofText_blankOut`).

Which characters are stray is known by their places, as the same character may stand in a literal.
So `blankOut` changes a text place by place (`blankAt`), while the proof goes token by token
(`Blanks`), and the two are brought together over the order of places: behind a token there are only
later ones. Line ends come last. The places are those of the normalised text, and putting in spaces
keeps line ends as they are.
-/

namespace FrontEnd

/-- The token stands for a stray character. All other invalid tokens stand for a literal, a number
or a comment that is faulty. -/
def Token.isStray (t : Token) : Bool := t == .invalid .unexpectedCharacter t.position

/-- The tokens apart from those that stand for stray characters. -/
def withoutStrays (tokens : List Token) : List Token := tokens.filter (!·.isStray)

/-- The text from a place on, with spaces in place of the characters at the given places. A space
takes one column, as any character but a line feed does, so the places behind it stay. -/
def blankAt (places : List Position) : Position → List Char → List Char
  | _, [] => []
  | p, c :: rest => (if p ∈ places then ' ' else c) :: blankAt places (p.step c) rest

/-- The places of the tokens that stand for stray characters. -/
def strayPlaces (tokens : List Token) : List Position := (tokens.filter (·.isStray)).map (·.position)

/-- A source text with spaces in place of its stray characters. Their places are the same in the text
whose line ends are normalised. -/
def blankOut (text : List Char) : List Char :=
  blankAt (strayPlaces (Stream.ofText (normalizeNewlines text)).tokens) Position.start text

/-- The text of a file with spaces in place of its stray characters. -/
def blanked (text : String) : String := String.ofList (blankOut text.toList)

theorem withoutStrays_cons_stray {t : Token} (h : t.isStray = true) (rest : List Token) :
    withoutStrays (t :: rest) = withoutStrays rest :=
  List.filter_cons_of_neg (by rw [h]; simp)

theorem withoutStrays_cons_other {t : Token} (h : t.isStray = false) (rest : List Token) :
    withoutStrays (t :: rest) = t :: withoutStrays rest :=
  List.filter_cons_of_pos (by rw [h]; rfl)

theorem Token.kind_of_isStray {t : Token} (h : t.isStray = true) : t.kind = .invalid :=
  congrArg Token.kind (beq_iff_eq.mp h)

theorem Cursor.ownText_of_isStray {c : Cursor} (h : c.next.1.isStray = true) :
    ∃ x, c.ownText = [x] ∧ FrontEnd.isStray x = true :=
  c.next_covers.explains (beq_iff_eq.mp h)

/-! ## Token by token

With spaces in place of stray tokens all other tokens are found again, each where it was. What was
in front of a token has become longer by the spaces, which are blanks. -/

/-- The text of a cursor with spaces in place of stray characters, token by token. Every character
that is not the text of a stray token is kept, those of gaps among them. -/
inductive Blanks : Cursor → List Char → Prop where
  | endOfFile {c : Cursor} (hend : c.next.1.kind = .endOfFile) : Blanks c c.rest
  | stray {c : Cursor} {text : List Char} (hstray : c.next.1.isStray = true)
      (h : Blanks c.next.2 text) : Blanks c (c.gapText ++ ([' '] ++ text))
  | token {c : Cursor} {text : List Char} (hend : c.next.1.kind ≠ .endOfFile)
      (hstray : c.next.1.isStray = false) (h : Blanks c.next.2 text) :
      Blanks c (c.gapText ++ (c.ownText ++ text))

namespace Blanks

variable {c : Cursor} {text : List Char}

/-- Only stray characters have changed. -/
theorem faded (h : Blanks c text) : Faded c.rest text := by
  induction h with
  | endOfFile => exact .refl _
  | @stray c text hstray _ ih =>
      obtain ⟨x, hown, hx⟩ := Cursor.ownText_of_isStray hstray
      rw [c.rest_eq, hown]
      have hspace : Faded [x] [' '] := .cons (.inr ⟨hx, rfl⟩) .nil
      exact (Faded.refl _).append (hspace.append ih)
  | @token c text _ _ _ ih =>
      rw [c.rest_eq]
      exact (Faded.refl _).append ((Faded.refl _).append ih)

/-- A gap in front of a token stays one whatever is put in place of the token. -/
theorem gapText_trivia (hend : c.next.1.kind ≠ .endOfFile) (behind : List Char) :
    Trivia behind c.gapText := by
  obtain ⟨htrivia, hsolid⟩ := c.gapText_trivia
  refine htrivia.change hsolid fun hnil => ?_
  have hown := (List.append_eq_nil_iff.mp hnil).1
  exact absurd (c.next_covers.own_eq_nil_iff.mp hown) hend

/-- A stray character is no line feed. -/
theorem step_of_isStray {x : Char} (hx : isStray x = true) (p : Position) :
    p.step x = p.step ' ' := by
  have hne : x ≠ '\n' := by
    rintro rfl
    cases hx
  rw [Position.step, if_neg hne]
  rfl

/-- With blanks and comments in front of it the text has the same tokens, but not the stray ones. What
is in front holds the spaces that were put in since the last token. -/
theorem stream (h : Blanks c text) {own : List Char} (hown : ∀ behind, Trivia behind own)
    {p : Position} (hp : p.after own = c.position) :
    Stream.ofCursor ⟨own ++ text, p⟩ =
      ⟨withoutStrays (Stream.ofCursor c).tokens, (Stream.ofCursor c).finish⟩ := by
  induction h generalizing own p with
  | @endOfFile c hend =>
      have hnext : (Cursor.mk (own ++ c.rest) p).next = c.next := by
        rw [Cursor.next_trivia (hown _), hp]
      rw [Stream.ofCursor_end hend, Stream.ofCursor_end (by rw [hnext, hend]), hnext]
      rfl
  | @stray c text hstray _ ih =>
      obtain ⟨x, hownText, hx⟩ := Cursor.ownText_of_isStray hstray
      have hend : c.next.1.kind ≠ .endOfFile := by
        rw [Token.kind_of_isStray hstray]
        simp
      -- the space in place of the stray character joins the blanks in front of what follows
      have htrivia (behind : List Char) : Trivia behind (own ++ (c.gapText ++ [' '])) :=
        (hown _).append ((gapText_trivia hend _).append (.blank rfl .nil))
      have hposition : p.after (own ++ (c.gapText ++ [' '])) = c.next.2.position := by
        rw [Position.after_append, hp, c.behind_position, hownText, Position.after_append,
          Position.after_append, Position.after_cons, Position.after_cons, step_of_isStray hx]
      have hrest := ih htrivia hposition
      rw [List.append_assoc, List.append_assoc] at hrest
      rw [hrest, Stream.ofCursor_cons hend, Stream.cons, withoutStrays_cons_stray hstray]
  | @token c text hend hstray h ih =>
      have htrivia (behind : List Char) : Trivia behind (own ++ c.gapText) :=
        (hown _).append (gapText_trivia hend _)
      have hposition : p.after (own ++ c.gapText) = c.next.1.position := by
        rw [Position.after_append, hp, c.next_position]
      have hnext : (Cursor.mk (own ++ (c.gapText ++ (c.ownText ++ text))) p).next =
          (c.next.1, ⟨text, c.next.2.position⟩) := by
        rw [← List.append_assoc, Cursor.next_trivia (htrivia _), hposition, c.next_faded hend h.faded]
      have hnone (behind : List Char) : Trivia behind [] := .nil
      -- behind a token there are no spaces yet
      have hrest := ih hnone (Position.after_nil _)
      rw [List.nil_append] at hrest
      rw [Stream.ofCursor_cons (by rw [hnext]; exact hend), hnext, hrest, Stream.ofCursor_cons hend,
        Stream.cons, Stream.cons, withoutStrays_cons_other hstray]

end Blanks

/-! ## Place by place

`blankOut` knows only places. They grow along a text, so a place belongs to one character, and the
places of the stray tokens are met in the order of the text. -/

namespace Position

/-- One place comes before another one. -/
def Before (p q : Position) : Prop := p.line < q.line ∨ p.line = q.line ∧ p.column < q.column

/-- One place comes before another one or is the same. -/
def AtMost (p q : Position) : Prop := p.line < q.line ∨ p.line = q.line ∧ p.column ≤ q.column

variable {p q r : Position}

theorem AtMost.refl (p : Position) : p.AtMost p := .inr ⟨rfl, Nat.le_refl _⟩

theorem AtMost.trans (h : p.AtMost q) (h' : q.AtMost r) : p.AtMost r := by
  unfold AtMost at *
  omega

theorem Before.trans_atMost (h : p.Before q) (h' : q.AtMost r) : p.Before r := by
  unfold Before AtMost at *
  omega

theorem Before.atMost (h : p.Before q) : p.AtMost q := by
  unfold Before AtMost at *
  omega

theorem Before.not_atMost (h : p.Before q) : ¬ q.AtMost p := by
  unfold Before AtMost at *
  omega

theorem before_step (p : Position) (c : Char) : p.Before (p.step c) := by
  unfold Before step
  split
  · exact .inl (Nat.lt_succ_self _)
  · exact .inr ⟨rfl, Nat.lt_succ_self _⟩

theorem atMost_after (p : Position) (text : List Char) : p.AtMost (p.after text) := by
  induction text generalizing p with
  | nil => exact .refl p
  | cons c rest ih => exact (p.before_step c).atMost.trans (ih _)

/-- Whatever has been read, the place behind it comes later. -/
theorem before_after {text : List Char} (h : text ≠ []) (p : Position) : p.Before (p.after text) := by
  obtain ⟨c, rest, rfl⟩ := List.exists_cons_of_ne_nil h
  exact (p.before_step c).trans_atMost ((p.step c).atMost_after rest)

end Position

section

variable {places : List Position} {p : Position}

theorem blankAt_append (s t : List Char) :
    blankAt places p (s ++ t) = blankAt places p s ++ blankAt places (p.after s) t := by
  induction s generalizing p with
  | nil => rfl
  | cons c s ih => rw [List.cons_append, blankAt, ih, blankAt, List.cons_append, Position.after_cons]

/-- A text without any of the places stays as it is. -/
theorem blankAt_eq_self {text : List Char}
    (h : ∀ q ∈ places, p.AtMost q → (p.after text).AtMost q) : blankAt places p text = text := by
  induction text generalizing p with
  | nil => rfl
  | cons c rest ih =>
      have hp : p ∉ places := fun hp =>
        (Position.before_after (List.cons_ne_nil c rest) p).not_atMost (h p hp (.refl p))
      rw [blankAt, if_neg hp, ih]
      exact fun q hq hlate => h q hq ((p.before_step c).atMost.trans hlate)

end

theorem mem_strayPlaces_cons {t : Token} {tokens : List Token} {q : Position} :
    q ∈ strayPlaces (t :: tokens) ↔ t.isStray = true ∧ q = t.position ∨ q ∈ strayPlaces tokens := by
  rw [strayPlaces, List.filter_cons]
  split
  · next hstray =>
    rw [List.map_cons, List.mem_cons, strayPlaces]
    simp only [hstray, true_and]
  · next hstray =>
    rw [strayPlaces]
    exact (or_iff_right fun h => hstray h.1).symm

/-- The place `q` is that of a stray character of a text that starts at `p`. Each place of a text
belongs to one of its characters, as no two of them share a line and a column. -/
def StrayAt (p : Position) (text : List Char) (q : Position) : Prop :=
  ∃ before x rest, text = before ++ x :: rest ∧ isStray x = true ∧ q = p.after before

theorem StrayAt.atMost {p q : Position} {text : List Char} (h : StrayAt p text q) : p.AtMost q := by
  obtain ⟨before, -, -, -, -, rfl⟩ := h
  exact p.atMost_after before

theorem StrayAt.cons_cases {p q : Position} {c : Char} {text : List Char}
    (h : StrayAt p (c :: text) q) : isStray c = true ∧ q = p ∨ StrayAt (p.step c) text q := by
  obtain ⟨before, x, rest, heq, hx, rfl⟩ := h
  cases before with
  | nil =>
      cases heq
      exact .inl ⟨hx, rfl⟩
  | cons d before =>
      cases heq
      exact .inr ⟨before, x, rest, rfl, hx, rfl⟩

/-- The stray characters from a cursor on are characters behind it. -/
theorem Cursor.strayAt {c : Cursor} {q : Position}
    (hq : q ∈ strayPlaces (Stream.ofCursor c).tokens) : StrayAt c.position c.rest q := by
  induction hn : c.rest.length using Nat.strong_induction_on generalizing c with
  | h n ih =>
    by_cases hend : c.next.1.kind = .endOfFile
    · rw [Stream.ofCursor_end hend] at hq
      cases hq
    · rw [Stream.ofCursor_cons hend] at hq
      rcases mem_strayPlaces_cons.mp hq with ⟨hstray, rfl⟩ | hq
      · obtain ⟨x, hown, hx⟩ := ownText_of_isStray hstray
        refine ⟨c.gapText, x, c.next.2.rest, ?_, hx, c.next_position⟩
        rw [c.rest_eq, hown]
        rfl
      · obtain ⟨before, x, rest, hrest, hx, rfl⟩ := ih _ (hn ▸ Cursor.next_lt hend) hq rfl
        refine ⟨c.gapText ++ c.ownText ++ before, x, rest, ?_, hx, ?_⟩
        · rw [List.append_assoc, List.append_assoc, ← hrest]
          exact c.rest_eq
        · rw [Position.after_append, ← c.behind_position]

namespace Cursor

variable {places : List Position} {c : Cursor}

theorem position_atMost_next (c : Cursor) : c.position.AtMost c.next.1.position := by
  rw [c.next_position]
  exact Position.atMost_after _ _

theorem next_position_after (c : Cursor) :
    c.next.2.position = c.next.1.position.after c.ownText := by
  rw [c.behind_position, c.next_position, Position.after_append]

/-- A token other than the end of the file takes a character. -/
theorem next_position_before (hend : c.next.1.kind ≠ .endOfFile) :
    c.next.1.position.Before c.next.2.position := by
  rw [c.next_position_after]
  exact Position.before_after (fun he => hend (c.next_covers.own_eq_nil_iff.mp he)) _

theorem blankAt_rest (places : List Position) (c : Cursor) :
    blankAt places c.position c.rest = blankAt places c.position c.gapText ++
      (blankAt places c.next.1.position c.ownText ++
        blankAt places c.next.2.position c.next.2.rest) := by
  rw [c.next_position, c.behind_position, Position.after_append, ← blankAt_append, ← blankAt_append]
  exact congrArg _ c.rest_eq

/-- From the cursor on, the places are those of the stray characters. Of places in front of the cursor
nothing is said, so the property can be handed on from token to token. -/
def StraysAre (c : Cursor) (places : List Position) : Prop :=
  ∀ q, c.position.AtMost q → (q ∈ places ↔ q ∈ strayPlaces (Stream.ofCursor c).tokens)

namespace StraysAre

/-- A place from the cursor on is that of the next token or comes behind it. -/
theorem cases (h : c.StraysAre places) (hend : c.next.1.kind ≠ .endOfFile) {q : Position}
    (hq : q ∈ places) (hlate : c.position.AtMost q) :
    c.next.1.isStray = true ∧ q = c.next.1.position ∨ c.next.2.position.AtMost q := by
  rw [h q hlate, Stream.ofCursor_cons hend] at hq
  exact (mem_strayPlaces_cons.mp hq).imp_right fun hq => (strayAt hq).atMost

theorem behind (h : c.StraysAre places) (hend : c.next.1.kind ≠ .endOfFile) :
    c.next.2.StraysAre places := by
  intro q hlate
  have hown := next_position_before hend
  rw [h q (c.position_atMost_next.trans (hown.atMost.trans hlate)), Stream.ofCursor_cons hend]
  refine mem_strayPlaces_cons.trans (or_iff_right ?_)
  rintro ⟨-, rfl⟩
  exact hown.not_atMost hlate

theorem gapText (h : c.StraysAre places) (hend : c.next.1.kind ≠ .endOfFile) :
    blankAt places c.position c.gapText = c.gapText := by
  refine blankAt_eq_self fun q hq hlate => ?_
  rw [← c.next_position]
  rcases h.cases hend hq hlate with ⟨-, rfl⟩ | hbehind
  · exact .refl _
  · exact (next_position_before hend).atMost.trans hbehind

theorem ownText_stray (h : c.StraysAre places) (hstray : c.next.1.isStray = true) :
    blankAt places c.next.1.position c.ownText = [' '] := by
  have hend : c.next.1.kind ≠ .endOfFile := by
    rw [Token.kind_of_isStray hstray]
    simp
  obtain ⟨x, hown, -⟩ := ownText_of_isStray hstray
  have hplace : c.next.1.position ∈ places := by
    rw [h _ c.position_atMost_next, Stream.ofCursor_cons hend]
    exact mem_strayPlaces_cons.mpr (.inl ⟨hstray, rfl⟩)
  rw [hown, blankAt, if_pos hplace]
  rfl

theorem ownText_other (h : c.StraysAre places) (hend : c.next.1.kind ≠ .endOfFile)
    (hstray : c.next.1.isStray = false) :
    blankAt places c.next.1.position c.ownText = c.ownText := by
  refine blankAt_eq_self fun q hq hlate => ?_
  rw [← c.next_position_after]
  rcases h.cases hend hq (c.position_atMost_next.trans hlate) with ⟨habsurd, -⟩ | hbehind
  · rw [hstray] at habsurd
    cases habsurd
  · exact hbehind

/-- Behind the last token there is no place left. -/
theorem rest_of_end (h : c.StraysAre places) (hend : c.next.1.kind = .endOfFile) :
    blankAt places c.position c.rest = c.rest := by
  refine blankAt_eq_self fun q hq hlate => ?_
  rw [h q hlate, Stream.ofCursor_end hend] at hq
  cases hq

/-- Spaces at the places of the stray characters are spaces in place of the tokens. -/
theorem blanks (h : c.StraysAre places) : Blanks c (blankAt places c.position c.rest) := by
  induction hn : c.rest.length using Nat.strong_induction_on generalizing c with
  | h n ih =>
    by_cases hend : c.next.1.kind = .endOfFile
    · rw [h.rest_of_end hend]
      exact .endOfFile hend
    · have hrest := ih _ (hn ▸ Cursor.next_lt hend) (h.behind hend) rfl
      rw [c.blankAt_rest, h.gapText hend]
      cases hstray : c.next.1.isStray with
      | true =>
          rw [h.ownText_stray hstray]
          exact .stray hstray hrest
      | false =>
          rw [h.ownText_other hend hstray]
          exact .token hend hstray hrest

end StraysAre

end Cursor

/-! ## The whole text

The two ways to put in the spaces come to the same text: the characters at the places of the stray
tokens are just those that are replaced token by token. -/

/-- From the place on, all places are those of stray characters of the text. -/
def OnlyStrays (places : List Position) (p : Position) (text : List Char) : Prop :=
  ∀ q ∈ places, p.AtMost q → StrayAt p text q

namespace OnlyStrays

variable {places : List Position} {p : Position} {c : Char} {text : List Char}

theorem tail (h : OnlyStrays places p (c :: text)) : OnlyStrays places (p.step c) text := by
  intro q hq hlate
  have hstep := p.before_step c
  rcases (h q hq (hstep.atMost.trans hlate)).cons_cases with ⟨-, rfl⟩ | hstray
  · exact absurd hlate hstep.not_atMost
  · exact hstray

/-- In a line there is no place before the line feed that ends it. -/
theorem not_mem (h : OnlyStrays places p ('\n' :: text)) {q : Position} (hlate : p.AtMost q)
    (hline : q.Before (p.step '\n')) : q ∉ places := by
  intro hq
  rcases (h q hq hlate).cons_cases with ⟨hstray, -⟩ | hstray
  · cases hstray
  · exact hline.not_atMost hstray.atMost

end OnlyStrays

/-- Putting in spaces brings up no line feed. -/
theorem blankAt_ne_lineFeed {places : List Position} {p : Position} {text more : List Char}
    (h : blankAt places p text = '\n' :: more) : ∃ rest, text = '\n' :: rest := by
  cases text with
  | nil => cases h
  | cons c rest =>
      rw [blankAt] at h
      have hc := (List.cons.inj h).1
      split at hc
      · cases hc
      · exact ⟨rest, by rw [hc]⟩

/-- The ends of the lines are not changed. A carriage return that is left out stands where the line
feed behind it stands when it is gone, and behind that place the line has no characters. -/
theorem normalizeNewlines_blankAt {places : List Position} {p : Position} {text : List Char}
    (h : OnlyStrays places p (normalizeNewlines text)) :
    normalizeNewlines (blankAt places p text) = blankAt places p (normalizeNewlines text) := by
  fun_induction normalizeNewlines text generalizing p with
  | case1 => rfl
  | case2 rest ih =>
      have hfeed : p ∉ places := h.not_mem (.refl p) (p.before_step _)
      have hreturn : p.step '\r' ∉ places :=
        h.not_mem (p.before_step _).atMost (.inl (Nat.lt_succ_self _))
      have hrest := ih h.tail
      rw [blankAt, blankAt, if_neg hfeed, if_neg hreturn, blankAt, if_neg hfeed, normalizeNewlines]
      exact congrArg ('\n' :: ·) hrest
  | case3 c rest hline ih =>
      have hrest := ih h.tail
      rw [blankAt, blankAt, normalizeNewlines, hrest]
      intro more hc heq
      obtain ⟨rest', rfl⟩ := blankAt_ne_lineFeed heq
      split at hc
      · cases hc
      · exact hline rest' hc rfl

/-- With spaces in place of its stray characters a text has the same tokens at the same places, apart
from those that stood for the stray characters. -/
theorem Stream.ofText_blankOut (text : List Char) :
    Stream.ofText (normalizeNewlines (blankOut text)) =
      ⟨withoutStrays (Stream.ofText (normalizeNewlines text)).tokens,
        (Stream.ofText (normalizeNewlines text)).finish⟩ := by
  have hblanks : Blanks (.ofText (normalizeNewlines text)) (normalizeNewlines (blankOut text)) := by
    have hstrays (q : Position)
        (hq : q ∈ strayPlaces (Stream.ofText (normalizeNewlines text)).tokens) :
        StrayAt Position.start (normalizeNewlines text) q := Cursor.strayAt hq
    rw [blankOut, normalizeNewlines_blankAt fun q hq _ => hstrays q hq]
    exact Cursor.StraysAre.blanks fun q _ => Iff.rfl
  have hnone (behind : List Char) : Trivia behind [] := .nil
  exact hblanks.stream hnone rfl

end FrontEnd
