import FrontEnd.Proofs.Token.Own

set_option autoImplicit false

/-! # Texts made of lexemes and separators

A lexeme stands alone if its text, read by itself, is this one token. A separator is a blank and
whatever blanks and complete comments follow it. A text made of lexemes that stand alone, with
separators between them, has these lexemes as its tokens (`Joined.all_eq`): no token is read on over a
blank, and none is found differently because of what stands behind the blank.

The tokens of every text without faults stand alone, so they can be found again in the text in which
single spaces separate them.

A valid token is found in its own text (`scan_own`), and a blank behind it ends it just as the end
of the text does. So it does not matter what stood behind the token in the text that it came from. A
literal ends at its delimiter, and what stands behind that was never looked at.
-/

namespace FrontEnd

/-! ## Separators -/

/-- Blanks, line comments with the line feed that ends them, and complete block comments. Without
its line feed a line comment would take in what is put behind it. -/
inductive IsFiller : List Char → Prop where
  | nil : IsFiller []
  | blank {c : Char} {rest : List Char} (hc : Gap.isBlank c = true) (h : IsFiller rest) :
      IsFiller (c :: rest)
  | line {body rest : List Char} (hbody : '\n' ∉ body) (h : IsFiller rest) :
      IsFiller ('/' :: '/' :: (body ++ '\n' :: rest))
  | comment {sign : Char} {body rest : List Char} (hsign : Gap.isCommentSign sign = true)
      (hbody : CommentTail 0 body) (h : IsFiller rest) : IsFiller ('/' :: sign :: (body ++ rest))

/-- A filler is a gap whatever stands behind it. -/
theorem IsFiller.trivia {text : List Char} (h : IsFiller text) (behind : List Char) :
    Trivia behind text := by
  induction h with
  | nil => exact .nil
  | blank hc _ ih => exact .blank hc ih
  | line hbody _ ih =>
      refine .line hbody ?_ (.blank rfl ih)
      rintro c ⟨⟩
      rfl
  | comment hsign hbody _ ih => exact .comment hsign hbody ih

/-- A blank and a filler behind it. The blank keeps the lexemes on its sides apart, whatever the
filler is. -/
def IsSeparator (text : List Char) : Prop :=
  ∃ c rest, text = c :: rest ∧ Gap.isBlank c = true ∧ IsFiller rest

namespace IsSeparator

variable {text : List Char}

theorem trivia (h : IsSeparator text) (behind : List Char) : Trivia behind text := by
  obtain ⟨c, rest, rfl, hc, hrest⟩ := h
  exact .blank hc (hrest.trivia behind)

theorem startsBlank (h : IsSeparator text) (behind : List Char) : StartsBlank (text ++ behind) := by
  obtain ⟨c, rest, rfl, hc, -⟩ := h
  exact .cons hc _

theorem space : IsSeparator [' '] := ⟨' ', [], rfl, rfl, .nil⟩

end IsSeparator

/-! ## Lexemes that stand alone -/

/-- The lexeme of the end of a file. -/
def Lexeme.endOfFile : Lexeme := ⟨.endOfFile, ""⟩

/-- The text of the lexeme, read by itself, is this one valid token. Since the token is the whole
text, nothing stands around it. -/
structure Lexeme.Alone (l : Lexeme) : Prop where
  valid : l.kind ≠ .invalid
  all_eq : (Stream.ofText l.text.toList).all.map Token.bare = [l, .endOfFile]

theorem Scan.eq_token {s : Scan} {kind : Kind} {n : Nat} (houtcome : s.outcome = .ok kind)
    (hlength : s.length = n) : s = .token kind n := by
  rw [token, ← houtcome, ← hlength]

/-- A valid token is found in the same way in front of a blank. -/
theorem StartsBlank.scan_valid {rest : List Char} (h : StartsBlank rest) {c : Char}
    {own : List Char} {kind : Kind} (hvalid : (scan c own).outcome = .ok kind) :
    scan c (own ++ rest) = scan c own := by
  by_cases hstring : c = '"'
  · subst hstring
    exact (scanQuoted_append hvalid rest).1
  by_cases hchar : c = '\''
  · subst hchar
    exact (scanQuoted_append hvalid rest).1
  · exact h.scan_append ⟨hstring, hchar⟩ own

namespace Lexeme

/-- What is scanned at the start of the text is all of it. All valid tokens of a text have such
lexemes. -/
def Fills (l : Lexeme) : Prop :=
  ∃ c own, l.text.toList = c :: own ∧ startsGap (c :: own) = false ∧
    scan c own = .token l.kind (own.length + 1)

/-- A valid token fills its own text. -/
theorem fills_bare_next {c : Cursor} (hend : c.next.1.kind ≠ .endOfFile)
    (hvalid : c.next.1.kind ≠ .invalid) : c.next.1.bare.Fills := by
  rcases c.ownText_cases with hplain | ⟨hunclosed, -⟩
  · obtain ⟨first, own, hown, hlength, htoken⟩ := c.scan_ownText hend hplain
    have houtcome : (scan first (own ++ c.next.2.rest)).outcome = .ok c.next.1.kind := by
      rw [Cursor.token] at htoken
      split at htoken
      · next kind hkind => rw [hkind, congrArg Token.kind htoken]
      · exact absurd (congrArg Token.kind htoken) hvalid
    have hscan := scan_own houtcome hlength
    refine ⟨first, own, ?_, ?_, ?_⟩
    · rw [Token.bare, c.next_covers.lexeme_eq hvalid, String.toList_ofList, hown]
    · rw [hown, List.cons_append] at hplain
      cases own with
      | nil => exact startsSolid_of_startsGap hplain first rfl
      | cons d own => exact hplain
    · rw [hscan]
      exact Scan.eq_token houtcome hlength
  · have hnext := c.next_ownText
    rw [Cursor.next_unclosed hunclosed] at hnext
    rw [← hnext] at hvalid
    exact absurd rfl hvalid

theorem Scans.fills {l : Lexeme} (h : l.Scans) : l.Fills := by
  obtain ⟨c, own, htext, hscan⟩ := h.scan
  refine ⟨c, own, htext, ?_, ?_⟩
  · have hgap := h.gap 0 [] .nil
    rw [List.append_nil, htext] at hgap
    obtain ⟨gapText, behind, heq, -, hends⟩ := gap_trivia (c :: own)
    rw [FrontEnd.gap, hgap] at hends
    -- nothing is in front of the character at which the gap ends
    generalize hlength : gapText.length = n at hends
    cases hends with
    | closed hplain =>
        rw [List.eq_nil_of_length_eq_zero hlength, List.nil_append] at heq
        rw [heq, hplain]
  · have hown := hscan [] .nil
    rwa [List.append_nil, htext, List.length_cons] at hown

theorem Alone.fills {l : Lexeme} (h : l.Alone) : l.Fills := by
  have hall := h.all_eq
  rw [Stream.ofText] at hall
  by_cases hend : (Cursor.ofText l.text.toList).next.1.kind = .endOfFile
  · rw [Stream.ofCursor_end hend] at hall
    exact absurd hall (by simp [Stream.all])
  · rw [Stream.ofCursor_cons hend] at hall
    have hbare := (List.cons.inj hall).1
    rw [← hbare]
    exact fills_bare_next hend (Token.bare_kind hbare ▸ h.valid)

/-- The lexeme is found in front of the text `rest`, and ends there. -/
def EndsBefore (l : Lexeme) (rest : List Char) : Prop :=
  ∃ c own, l.text.toList = c :: own ∧ startsGap (c :: (own ++ rest)) = false ∧
    scan c (own ++ rest) = .token l.kind (own.length + 1)

namespace EndsBefore

variable {l : Lexeme} {rest : List Char}

theorem ne_endOfFile (h : l.EndsBefore rest) : l.kind ≠ .endOfFile := by
  obtain ⟨c, own, -, hplain, hscan⟩ := h
  have hread := scan_reads (startsSolid_of_startsGap hplain c rfl) (own ++ rest)
  exact (hread.valid l.kind (by rw [hscan]; rfl)).2

theorem next_eq (h : l.EndsBefore rest) (p : Position) :
    (Cursor.mk (l.text.toList ++ rest) p).next =
      (⟨l.kind, l.text, p⟩, ⟨rest, p.after l.text.toList⟩) := by
  obtain ⟨c, own, htext, hplain, hscan⟩ := h
  have hnext := Cursor.next_plain hplain p
  rw [← List.length_cons (a := c), ← htext] at hscan
  rw [← List.cons_append, ← htext, hscan] at hnext
  rw [hnext, Cursor.token, Cursor.skip, Scan.token]
  dsimp only
  rw [List.take_left, List.drop_left, String.ofList_toList]

end EndsBefore

/-- In front of a blank the lexeme is found as it is found alone. -/
theorem Fills.endsBefore {l : Lexeme} (h : l.Fills) {rest : List Char} (hrest : StartsBlank rest) :
    l.EndsBefore rest := by
  obtain ⟨c, own, htext, hplain, hscan⟩ := h
  refine ⟨c, own, htext, (hrest.startsGap_append c own).trans hplain, ?_⟩
  rw [hrest.scan_valid (by rw [hscan]; rfl), hscan]

end Lexeme

/-! ## Texts -/

/-- A text that is made of lexemes, with separators between them. -/
inductive Joined : List Lexeme → List Char → Prop where
  | nil : Joined [] []
  | single (l : Lexeme) : Joined [l] l.text.toList
  | cons (l : Lexeme) {l' : Lexeme} {lexemes : List Lexeme} {separator text : List Char}
      (hseparator : IsSeparator separator) (h : Joined (l' :: lexemes) text) :
      Joined (l :: l' :: lexemes) (l.text.toList ++ (separator ++ text))

theorem joined_spaced (lexemes : List Lexeme) : Joined lexemes (spaced lexemes).toList := by
  cases lexemes with
  | nil => exact .nil
  | cons l lexemes =>
      induction lexemes generalizing l with
      | nil =>
          rw [toList_spaced, spacedBehind, List.flatMap_nil, List.append_nil]
          exact .single l
      | cons l' lexemes ih =>
          have hrest := ih l'
          rw [toList_spaced] at hrest ⊢
          show Joined _ (l.text.toList ++ ([' '] ++ (l'.text.toList ++ spacedBehind lexemes)))
          exact .cons l .space hrest

namespace Stream

/-- A stream depends on the next token and on what is behind it. -/
theorem ofCursor_congr {c d : Cursor} (h : c.next = d.next) : ofCursor c = ofCursor d := by
  rw [ofCursor_eq c, ofCursor_eq d, h]

/-- Blanks and comments in front of a text do not change its tokens, only their places. -/
theorem ofCursor_trivia {behind own : List Char} (h : Trivia behind own) (p : Position) :
    ofCursor ⟨own ++ behind, p⟩ = ofCursor ⟨behind, p.after own⟩ :=
  ofCursor_congr (Cursor.next_trivia h p)

/-- The tokens of a text that starts with a lexeme. -/
theorem map_bare_all {l : Lexeme} {rest : List Char} (h : l.EndsBefore rest) (p : Position) :
    (ofCursor ⟨l.text.toList ++ rest, p⟩).all.map Token.bare =
      l :: (ofCursor ⟨rest, p.after l.text.toList⟩).all.map Token.bare := by
  have hnext := h.next_eq p
  rw [ofCursor_cons (by rw [hnext]; exact h.ne_endOfFile), hnext]
  rfl

theorem map_bare_all_nil (p : Position) :
    (ofCursor ⟨[], p⟩).all.map Token.bare = [.endOfFile] := rfl

end Stream

/-- The tokens of a text that is made of lexemes are these lexemes and the end of the file. -/
theorem Joined.all_eq {lexemes : List Lexeme} {text : List Char} (h : Joined lexemes text)
    (hfills : ∀ l ∈ lexemes, l.Fills) (p : Position) :
    (Stream.ofCursor ⟨text, p⟩).all.map Token.bare = lexemes ++ [.endOfFile] := by
  induction h generalizing p with
  | nil => exact Stream.map_bare_all_nil p
  | single l =>
      have hl := hfills l List.mem_cons_self
      have hall := Stream.map_bare_all (hl.endsBefore .nil) p
      rwa [List.append_nil, Stream.map_bare_all_nil] at hall
  | @cons l l' lexemes separator text hseparator _ ih =>
      have hl := hfills l List.mem_cons_self
      rw [Stream.map_bare_all (hl.endsBefore (hseparator.startsBlank text)) p,
        Stream.ofCursor_trivia (hseparator.trivia text),
        ih fun l hl => hfills l (List.mem_cons_of_mem _ hl)]
      rfl

/-- The tokens of a spaced text are its lexemes. -/
theorem Stream.ofText_spaced {lexemes : List Lexeme} (h : ∀ l ∈ lexemes, l.Scans) :
    (ofText (spaced lexemes).toList).tokens.map Token.bare = lexemes := by
  have hall := (joined_spaced lexemes).all_eq (fun l hl => (h l hl).fills) Position.start
  rw [all, List.map_append] at hall
  exact (List.append_inj' hall rfl).1

/-- Every token of a text without faults, but the end of the file, fills its own text. -/
theorem Stream.fills_of_mem {text : List Char} (h : ∀ t ∈ (ofText text).tokens, t.kind ≠ .invalid) :
    ∀ l ∈ (ofText text).tokens.map Token.bare, l.Fills := by
  intro l hl
  obtain ⟨t, ht, rfl⟩ := List.mem_map.mp hl
  obtain ⟨hend, c, rfl⟩ := upTo_tokens ht
  exact Lexeme.fills_bare_next hend (h _ ht)

/-- The end of a file has no text of its own. -/
theorem Cursor.bare_next_end {c : Cursor} (h : c.next.1.kind = .endOfFile) :
    c.next.1.bare = .endOfFile := by
  have hown := c.next_covers.own_eq_nil_iff.mpr h
  have hlexeme := c.next_covers.lexeme_eq (by rw [h]; simp)
  rw [hown] at hlexeme
  rw [Token.bare, h, hlexeme]
  rfl

theorem Stream.bare_finish (fuel : Nat) (c : Cursor) : (upTo fuel c).finish.bare = .endOfFile := by
  induction fuel generalizing c with
  | zero => rfl
  | succ fuel ih =>
      rw [upTo]
      dsimp only
      split
      · next hend => exact Cursor.bare_next_end hend
      · exact ih _

/-- The tokens of a text without faults are found again in the text that single spaces make of
them. -/
theorem Stream.ofText_respaced {text : List Char}
    (h : ∀ t ∈ (ofText text).tokens, t.kind ≠ .invalid) :
    (ofText (spaced ((ofText text).tokens.map Token.bare)).toList).all.map Token.bare =
      (ofText text).all.map Token.bare := by
  have hall : (ofText text).all.map Token.bare =
      (ofText text).tokens.map Token.bare ++ [.endOfFile] := by
    rw [all, List.map_append, List.map_singleton, ofText, ofCursor, bare_finish]
  rw [hall]
  exact (joined_spaced _).all_eq (fills_of_mem h) _

end FrontEnd
