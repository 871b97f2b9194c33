import FrontEnd.Proofs.Token.Literal
import FrontEnd.Proofs.Token.Spacing
import FrontEnd.Proofs.Token.Word
import FrontEnd.Proofs.Tree.Scans

set_option autoImplicit false

/-! # Character literals in a list

`charactersText x f cs` makes a call of `f` the first value of `x`. The arguments are the characters
`cs`, written as literals with a comma and a space between them. As long as no backslash is among the
characters, the tokens of this text are those that one expects (`tokens_charactersText`).

A backslash is written as two of them, and no quote behind a backslash closes a literal. So its
literal goes on to the quote that opens the next one, and from there on the quotes have changed sides:
what stands between the literals is read as literals, and the characters stand outside. Whatever these
are, the last quote is left over (`faulty_quote`), and the text is faulty (`faulty_charactersText`).

The second part is by cases on the character that stands outside, as it may be the start of a word,
of a number or of a sign, a quotation mark of its own, or a backslash again. In each case there is a
fault at once, or the rest of the list is as before and shorter.
-/

namespace FrontEnd

open Lexeme

/-! ## The text -/

/-- A character as a literal. -/
def Lexeme.character (c : Char) : Lexeme := ⟨.charLiteral, quoted '\'' (charText c)⟩

/-- What stands behind an argument if the arguments `cs` are still to come. -/
def behindArgument : List Char → List Char
  | [] => [')', ';']
  | c :: cs => ',' :: ' ' :: ((character c).text.toList ++ behindArgument cs)

/-- The arguments, and what stands behind them. -/
def argumentsFrom : List Char → List Char
  | [] => [')', ';']
  | c :: cs => (character c).text.toList ++ behindArgument cs

/-- A binding whose first value is a call with the characters as arguments. -/
def charactersText (x f : String) (cs : List Char) : String :=
  "let " ++ x ++ " = " ++ f ++ "(" ++ ", ".intercalate (cs.map fun c => (character c).text) ++ ");"

/-- The lexemes of this text. -/
def charactersLexemes (x f : String) (cs : List Char) : List Lexeme :=
  word .letWord :: .name x :: fixed (.operator .assign) :: .name f ::
    (parenthesized (commaSeparated (cs.map fun c => [character c])) ++ [mark .semicolon])

theorem toList_intercalate_characters (cs : List Char) :
    (", ".intercalate (cs.map fun c => (character c).text)).toList ++ [')', ';'] =
      argumentsFrom cs := by
  cases cs with
  | nil => rfl
  | cons c cs =>
      rw [String.toList_intercalate, argumentsFrom]
      induction cs generalizing c with
      | nil => simp [behindArgument]
      | cons d cs ih => simpa [behindArgument] using ih d

theorem toList_charactersText (x f : String) (cs : List Char) :
    (charactersText x f cs).toList =
      (word .letWord).text.toList ++ (' ' :: (x.toList ++ (' ' ::
        ((fixed (.operator .assign)).text.toList ++ (' ' :: (f.toList ++
          '(' :: argumentsFrom cs)))))) := by
  have hlet : (word .letWord).text.toList = ['l', 'e', 't'] := by decide
  have hassign : (fixed (.operator .assign)).text.toList = ['='] := by decide
  rw [← toList_intercalate_characters, hlet, hassign]
  simp [charactersText]

/-- Apart from backslashes a character is written by itself, or by the letter that stands for it. -/
theorem eq_of_mem_charText {c d : Char} (hmem : d ∈ charText c) (hd : d ≠ '\\') :
    (charText c = [c] ∧ d = c) ∨ Grammar.unescapeLetter? d = some c := by
  by_cases hslash : c = '\\'
  · subst hslash
    have htext : charText '\\' = ['\\', '\\'] := by decide
    rw [htext] at hmem
    exact absurd (by simpa using hmem) hd
  · rcases charText_cases hslash with ⟨letter, htext, -, hvalue⟩ | ⟨htext, -⟩
    · rw [htext] at hmem
      obtain rfl : d = letter := by simpa [hd] using hmem
      exact .inr hvalue
    · rw [htext, List.mem_singleton] at hmem
      exact .inl ⟨htext, hmem⟩

/-- No character is written with a carriage return. -/
theorem return_not_mem_charText (c : Char) : '\r' ∉ charText c := by
  intro hmem
  rcases eq_of_mem_charText hmem (by decide) with ⟨htext, rfl⟩ | hvalue
  · exact absurd htext (by decide)
  · cases hvalue

theorem return_not_mem_name {name : String} (h : isName name) : '\r' ∉ name.toList := by
  rw [isName, Bool.and_eq_true, isWordText, Bool.and_eq_true, List.all_eq_true] at h
  exact fun hmem => absurd (h.1.2 _ hmem) (by decide)

/-- The text has no line ends that could be changed. -/
theorem chars_charactersText {x f : String} (hx : isName x) (hf : isName f) (cs : List Char)
    (name : String) :
    (Buffer.ofText name (charactersText x f cs)).chars = (charactersText x f cs).toList := by
  have hargument (c : Char) : '\r' ∉ (character c).text.toList := by
    rw [character, toList_quoted]
    simp [return_not_mem_charText]
  have hbehind (cs : List Char) : '\r' ∉ behindArgument cs := by
    induction cs with
    | nil => decide
    | cons c cs ih => simp [behindArgument, hargument, ih]
  have harguments : '\r' ∉ argumentsFrom cs := by
    cases cs with
    | nil => decide
    | cons c cs => simp [argumentsFrom, hargument, hbehind]
  have hlet : '\r' ∉ (word .letWord).text.toList := by decide
  have hassign : '\r' ∉ (fixed (.operator .assign)).text.toList := by decide
  rw [Buffer.chars_ofText]
  refine normalizeNewlines_eq (noCrLf_of_not_mem ?_)
  rw [toList_charactersText]
  simp [hlet, hassign, harguments, return_not_mem_name hx, return_not_mem_name hf]

/-! ## Lexemes in front of others -/

/-- A name ends at the first character that no word holds. -/
theorem endsBefore_name {name : String} (h : isName name) {rest : List Char}
    (hrest : StopsAt isWordChar rest) : (Lexeme.name name).EndsBefore rest := by
  obtain ⟨c, own, htext, -, hscan⟩ := (scans_name h).fills
  rw [isName, Bool.and_eq_true, isWordText, Bool.and_eq_true] at h
  have hword : isWordStart c = true := by
    have hstart := h.1.1
    dsimp only at htext
    rw [htext] at hstart
    simpa using hstart
  refine ⟨c, own, htext, startsGap_of_isWordStart hword _, Eq.trans ?_ hscan⟩
  rw [scan, scan, if_pos hword, if_pos hword, ← List.cons_append, scanWord_append_stop hrest]

/-- The literal of any other character than a backslash ends at its second quote. -/
theorem endsBefore_character {c : Char} (hc : c ≠ '\\') (rest : List Char) :
    (character c).EndsBefore rest := by
  refine ⟨'\'', charText c ++ ['\''], toList_quoted _ _, ?_, ?_⟩
  · exact LiteralKind.character.startsGap_delimiter _
  · have hscan := scanQuoted_quotable (isQuotable_charText hc) (by decide) .charLiteral
      .unterminatedCharacter rest
    rw [List.length_cons] at hscan
    rw [List.append_assoc]
    exact (LiteralKind.character.scan_delimiter _).trans hscan

/-- The text starts with these lexemes, and behind them is left the text `rest`. Places play no
part: the rest is read from some place or other. -/
def BeginsWith (text : List Char) (lexemes : List Lexeme) (rest : List Char) : Prop :=
  ∀ p, ∃ q, (Stream.ofCursor ⟨text, p⟩).all.map Token.bare =
    lexemes ++ (Stream.ofCursor ⟨rest, q⟩).all.map Token.bare

namespace BeginsWith

variable {text rest : List Char} {l : Lexeme} {lexemes : List Lexeme}

theorem refl (text : List Char) : BeginsWith text [] text := fun p => ⟨p, rfl⟩

theorem token (hl : l.EndsBefore text) (h : BeginsWith text lexemes rest) :
    BeginsWith (l.text.toList ++ text) (l :: lexemes) rest := by
  intro p
  obtain ⟨q, hq⟩ := h (p.after l.text.toList)
  exact ⟨q, by rw [Stream.map_bare_all hl, hq]; rfl⟩

theorem blank {c : Char} (hc : Gap.isBlank c = true) (h : BeginsWith text lexemes rest) :
    BeginsWith (c :: text) lexemes rest := by
  intro p
  obtain ⟨q, hq⟩ := h (p.after [c])
  have htrivia : Trivia text [c] := .blank hc .nil
  exact ⟨q, by rw [← hq, ← Stream.ofCursor_trivia htrivia]; rfl⟩

/-- No longer sign starts with a comma, a semicolon or a parenthesis. -/
theorem mark {m : Mark} {c : Char}
    (hm : (m, c) ∈ [(Mark.comma, ','), (.semicolon, ';'), (.leftParen, '('), (.rightParen, ')')])
    (h : BeginsWith text lexemes rest) : BeginsWith (c :: text) (mark m :: lexemes) rest := by
  have hone {m : Mark} {c : Char} (htext : (Lexeme.mark m).text.toList = [c])
      (hscan : scan c text = .token (.mark m) 1) (hplain : startsGap (c :: text) = false) :
      BeginsWith (c :: text) (Lexeme.mark m :: lexemes) rest := by
    have htoken := token (l := .mark m) ⟨c, [], htext, hplain, hscan⟩ h
    rwa [htext] at htoken
  simp only [List.mem_cons, List.not_mem_nil, or_false, Prod.mk.injEq] at hm
  rcases hm with ⟨rfl, rfl⟩ | ⟨rfl, rfl⟩ | ⟨rfl, rfl⟩ | ⟨rfl, rfl⟩
  · exact hone rfl rfl (by cases text <;> rfl)
  · exact hone rfl rfl (by cases text <;> rfl)
  · exact hone rfl rfl (by cases text <;> rfl)
  · exact hone rfl rfl (by cases text <;> rfl)

/-- In front of a space a lexeme needs nothing but itself. -/
theorem spacedToken (hl : l.Scans) (h : BeginsWith text lexemes rest) :
    BeginsWith (l.text.toList ++ (' ' :: text)) (l :: lexemes) rest :=
  token (hl.fills.endsBefore (.cons rfl text)) (blank (c := ' ') rfl h)

theorem tokens_eq (h : BeginsWith text lexemes []) :
    (Stream.ofText text).tokens.map Token.bare = lexemes := by
  obtain ⟨q, hq⟩ := h .start
  rw [Stream.map_bare_all_nil, Stream.all, List.map_append] at hq
  exact (List.append_inj' hq rfl).1

end BeginsWith

/-! ## Characters without a backslash -/

/-- The text is read up to its arguments. -/
theorem beginsWith_argumentsFrom {x f : String} (hx : isName x) (hf : isName f) {cs : List Char}
    {lexemes : List Lexeme} {rest : List Char} (h : BeginsWith (argumentsFrom cs) lexemes rest) :
    BeginsWith (charactersText x f cs).toList
      (word .letWord :: .name x :: fixed (.operator .assign) :: .name f :: mark .leftParen ::
        lexemes) rest := by
  have hparen : BeginsWith ('(' :: argumentsFrom cs) (mark .leftParen :: lexemes) rest :=
    .mark (by simp) h
  have hcallee := BeginsWith.token (endsBefore_name hf (.cons (by decide) _)) hparen
  rw [toList_charactersText]
  exact .spacedToken (scans_wordLexeme .letWord) (.spacedToken (l := .name x) (scans_name hx)
    (.spacedToken (scans_operator .assign) hcallee))

theorem beginsWith_end : BeginsWith [')', ';'] [mark .rightParen, mark .semicolon] [] :=
  .mark (by simp) (.mark (by simp) (.refl []))

/-- An argument and those behind it are read. -/
theorem beginsWith_arguments {cs : List Char} {c : Char} (h : '\\' ∉ c :: cs) :
    BeginsWith ((character c).text.toList ++ behindArgument cs)
      (commaSeparated ((c :: cs).map fun c => [character c]) ++
        [mark .rightParen, mark .semicolon]) [] := by
  induction cs generalizing c with
  | nil =>
      have hc : c ≠ '\\' := fun he => h (by rw [he]; exact List.mem_cons_self)
      exact BeginsWith.token (endsBefore_character hc _) beginsWith_end
  | cons d cs ih =>
      have hc : c ≠ '\\' := fun he => h (by rw [he]; exact List.mem_cons_self)
      have hrest := ih (c := d) fun hmem => h (List.mem_cons_of_mem c hmem)
      have hcomma := BeginsWith.mark (m := .comma) (c := ',') (by simp)
        (BeginsWith.blank (c := ' ') rfl hrest)
      exact BeginsWith.token (endsBefore_character hc _) hcomma

/-- The tokens of a text without backslashes among its characters. -/
theorem tokens_charactersText {x f : String} (hx : isName x) (hf : isName f) {cs : List Char}
    (h : '\\' ∉ cs) :
    (Stream.ofText (charactersText x f cs).toList).tokens.map Token.bare =
      charactersLexemes x f cs := by
  have harguments : BeginsWith (argumentsFrom cs)
      (commaSeparated (cs.map fun c => [character c]) ++ [mark .rightParen, mark .semicolon]) [] := by
    cases cs with
    | nil => exact beginsWith_end
    | cons c cs => exact beginsWith_arguments h
  rw [(beginsWith_argumentsFrom hx hf harguments).tokens_eq, charactersLexemes, parenthesized]
  simp

/-! ## Faulty texts -/

/-- Wherever the text is read, one of its tokens is invalid. A text that begins with some lexemes is
faulty if what is left behind them is. -/
def Faulty (text : List Char) : Prop :=
  ∀ p, ∃ t ∈ (Stream.ofCursor ⟨text, p⟩).tokens, t.kind = .invalid

namespace Faulty

variable {text rest : List Char}

theorem of_invalid (h : ∀ p, (Cursor.mk text p).next.1.kind = .invalid) : Faulty text := by
  intro p
  rw [Stream.ofCursor_cons (by rw [h p]; simp)]
  exact ⟨_, List.mem_cons_self, h p⟩

/-- What is left behind the first token is faulty. -/
theorem of_next (h : ∀ p, (Cursor.mk text p).next.2.rest = rest) (hrest : Faulty rest) :
    Faulty text := by
  intro p
  obtain ⟨t, ht, hk⟩ := hrest (Cursor.mk text p).next.2.position
  rw [← h p] at ht
  have hend : (Cursor.mk text p).next.1.kind ≠ .endOfFile := by
    intro hend
    rw [(Cursor.mk text p).next_covers.behind_eq_nil hend] at ht
    cases ht
  rw [Stream.ofCursor_cons hend]
  exact ⟨t, List.mem_cons_of_mem _ ht, hk⟩

/-- What is left behind some lexemes is faulty. -/
theorem of_beginsWith {lexemes : List Lexeme} (h : BeginsWith text lexemes rest)
    (hrest : Faulty rest) : Faulty text := by
  intro p
  obtain ⟨q, hq⟩ := h p
  obtain ⟨t, ht, hk⟩ := hrest q
  have hmem : t.bare ∈ (Stream.ofCursor ⟨text, p⟩).all.map Token.bare := by
    rw [hq]
    exact List.mem_append_right _ (List.mem_map_of_mem (List.mem_append_left _ ht))
  obtain ⟨t', ht', hbare⟩ := List.mem_map.mp hmem
  have hk' : t'.kind = .invalid := (congrArg Lexeme.kind hbare).trans hk
  rcases List.mem_append.mp ht' with ht' | ht'
  · exact ⟨t', ht', hk'⟩
  · -- the end of the file is no invalid token
    rw [List.mem_singleton.mp ht', Stream.ofCursor, Stream.upTo_finish] at hk'
    cases hk'

variable {l : LiteralKind}

/-- A literal that nothing closes. -/
theorem unclosed (h : ∀ n, ¬ ClosesAt l.delimiter (l.delimiter :: text) n) :
    Faulty (l.delimiter :: text) := by
  refine of_invalid fun p => ?_
  rw [Cursor.next_of_not_closesAt (c := ⟨l.delimiter :: text, p⟩) rfl h]
  rfl

/-- What is left behind a literal is faulty. -/
theorem closed {n : Nat} (hn : ClosesFirst l.delimiter (l.delimiter :: text) n)
    (hrest : Faulty (text.drop n)) : Faulty (l.delimiter :: text) := by
  refine of_next (fun p => ?_) hrest
  rw [Cursor.next_of_closesFirst (c := ⟨l.delimiter :: text, p⟩) rfl hn]
  rfl

end Faulty

/-! ## A backslash among the characters -/

theorem behindArgument_cons (c : Char) (cs : List Char) :
    behindArgument (c :: cs) = ',' :: ' ' :: '\'' :: (charText c ++ '\'' :: behindArgument cs) := by
  rw [behindArgument, character]
  dsimp only
  rw [toList_quoted, List.cons_append, List.append_assoc]
  rfl

/-- No other character is written with a quotation mark. -/
theorem quotationMark_not_mem_charText {c : Char} (hc : c ≠ '"') : '"' ∉ charText c := by
  intro hmem
  rcases eq_of_mem_charText hmem (by decide) with ⟨-, rfl⟩ | hvalue
  · exact hc rfl
  · exact hc (Option.some.inj hvalue).symm

/-- A string that is opened between the literals goes on to the next quotation mark, if there is one
among the characters. -/
theorem quotationMark_cases (cs : List Char) :
    (∃ ds n, ds.length ≤ cs.length ∧ ClosesFirst '"' ('\'' :: behindArgument cs) n ∧
        (behindArgument cs).drop n = '\'' :: behindArgument ds) ∨
      ∀ n, ¬ ClosesAt '"' ('\'' :: behindArgument cs) n := by
  induction cs with
  | nil => exact .inr (not_closesAt_of_closingLength (n := 1) (by decide) (by decide) rfl)
  | cons c cs ih =>
      rw [behindArgument_cons]
      by_cases hc : c = '"'
      · subst hc
        have hfirst : ClosesFirst '"' ('\'' :: '"' :: '\'' :: behindArgument cs) 1 :=
          closesFirst_one (by decide) _
        have hmark : '"' ∉ ['\'', ',', ' '] := by decide
        exact .inl ⟨cs, 4, by simp, hfirst.append (by decide) hmark, rfl⟩
      · have hmark : '"' ∉ ['\'', ',', ' ', '\''] ++ charText c := by
          intro hmem
          rcases List.mem_append.mp hmem with hmem | hmem
          · exact absurd hmem (by decide)
          · exact quotationMark_not_mem_charText hc hmem
        rcases ih with ⟨ds, n, hle, hfirst, hdrop⟩ | hnone
        · refine .inl ⟨ds, _, ?_, hfirst.append (by decide) hmark, ?_⟩
          · rw [List.length_cons]
            omega
          · have hown : ',' :: ' ' :: '\'' :: (charText c ++ '\'' :: behindArgument cs) =
                ([',', ' ', '\''] ++ charText c ++ ['\'']) ++ behindArgument cs := by simp
            have hlength : (['\'', ',', ' ', '\''] ++ charText c).length + n =
                ([',', ' ', '\''] ++ charText c ++ ['\'']).length + n := by simp
            rw [hown, hlength, List.drop_length_add_append, hdrop]
        · exact .inr (not_closesAt_append hnone (by decide) hmark)

/-- A character in front of a quote is read alone. -/
theorem next_rest_of_quote {c : Char} (hmark : c ≠ '"') (hquote : c ≠ '\'')
    (hblank : ¬ Gap.isBlank c = true) (rest : List Char) (p : Position) :
    (Cursor.mk (c :: '\'' :: rest) p).next.2.rest = '\'' :: rest := by
  have hstop {q : Char → Bool} (hq : q '\'' = false) : StopsAt q ('\'' :: rest) := .cons hq rest
  have hplain : startsGap (c :: '\'' :: rest) = false := by
    simp [startsGap, hblank, Gap.isCommentSign]
  have hscan : scan c ('\'' :: rest) = scan c [] := by
    have hword := scanWord_append_stop (hstop (q := isWordChar) (by decide)) [c]
    have hsymbol := scanSymbol_append_stop (hstop (q := isSymbolChar) (by decide)) [c]
    have hnumber := StopsAt.scanNumber_append (hstop (q := isNumberChar) (by decide)) [c]
    rw [List.singleton_append] at hword hsymbol hnumber
    rw [scan, scan, if_neg hmark, if_neg hquote, if_neg hmark, if_neg hquote, hword, hnumber,
      hsymbol]
  have hread := scan_reads (Bool.eq_false_iff.mpr hblank) []
  have hlength : (scan c []).length = 1 := by
    have hpos := hread.pos
    have hle := hread.le
    rw [List.length_singleton] at hle
    omega
  rw [Cursor.next_plain hplain, hscan, hlength]
  rfl

/-- Behind a quote that has been read the text goes on with a character that stands outside. -/
theorem faulty_outside {c : Char} {cs : List Char}
    (h : ∀ ds : List Char, ds.length ≤ cs.length → Faulty ('\'' :: behindArgument ds)) :
    Faulty (charText c ++ '\'' :: behindArgument cs) := by
  have hescaped (letter : Char) :
      Faulty (['\\', letter] ++ '\'' :: behindArgument cs) := by
    refine .of_invalid fun p => ?_
    rw [List.cons_append, Cursor.next_plain rfl]
    rfl
  have hquote := h cs (Nat.le_refl _)
  by_cases hslash : c = '\\'
  · subst hslash
    exact hescaped '\\'
  rcases charText_cases hslash with ⟨letter, htext, -, -⟩ | ⟨htext, hc⟩
  · rw [htext]
    exact hescaped letter
  rw [htext, List.singleton_append]
  by_cases hmark : c = '"'
  · subst hmark
    rcases quotationMark_cases cs with ⟨ds, n, hle, hfirst, hdrop⟩ | hnone
    · refine .closed (l := .string) (hfirst.cons (by decide)) ?_
      rw [List.drop_succ_cons, hdrop]
      exact h ds hle
    · exact .unclosed (l := .string) (not_closesAt_cons hnone (by decide))
  by_cases hblank : Gap.isBlank c = true
  · exact hquote.of_beginsWith (.blank hblank (.refl _))
  · -- whatever it is read as, a token of one character ends in front of the quote
    exact hquote.of_next (next_rest_of_quote hmark hc hblank _)

/-- The quote at the end of a literal is read as one that opens a literal. -/
theorem faulty_quote (cs : List Char) : Faulty ('\'' :: behindArgument cs) := by
  -- a string takes any number of characters at once, so the induction is on how many there are
  induction hn : cs.length using Nat.strong_induction_on generalizing cs with
  | h n ih =>
    cases cs with
    | nil =>
        exact .unclosed (l := .character)
          (not_closesAt_of_closingLength (n := 1) (by decide) (by decide) rfl)
    | cons c cs =>
        rw [behindArgument_cons]
        have hlength : cs.length < n := by rw [← hn]; exact Nat.lt_succ_self _
        have hfirst : ClosesFirst '\''
            ('\'' :: ',' :: ' ' :: '\'' :: (charText c ++ '\'' :: behindArgument cs)) 3 :=
          ((closesFirst_one (by decide) _).cons (by decide)).cons (by decide)
        refine .closed (l := .character) hfirst (faulty_outside fun ds hds => ?_)
        exact ih ds.length (by omega) ds rfl

/-- The literal of a backslash is not closed where it should be. -/
theorem faulty_backslash (cs : List Char) :
    Faulty ((character '\\').text.toList ++ behindArgument cs) := by
  have htext : (character '\\').text.toList = ['\'', '\\', '\\', '\''] := by decide
  rw [htext]
  cases cs with
  | nil =>
      exact .unclosed (l := .character)
        (not_closesAt_of_closingLength (n := 1) (by decide) (by decide) rfl)
  | cons c cs =>
      rw [behindArgument_cons]
      have hone : ClosesFirst '\'' (' ' :: '\'' :: (charText c ++ '\'' :: behindArgument cs)) 1 :=
        closesFirst_one (by decide) _
      have hfirst : ClosesFirst '\'' ('\'' :: '\\' :: '\\' :: '\'' :: ',' :: ' ' :: '\'' ::
          (charText c ++ '\'' :: behindArgument cs)) 6 :=
        ((((hone.cons (by decide)).cons (by decide)).cons (by decide)).cons (by decide)).cons
          (by decide)
      exact .closed (l := .character) hfirst (faulty_outside fun ds _ => faulty_quote ds)

theorem faulty_arguments {cs : List Char} {c : Char} (h : '\\' ∈ c :: cs) :
    Faulty ((character c).text.toList ++ behindArgument cs) := by
  induction cs generalizing c with
  | nil =>
      obtain rfl := List.mem_singleton.mp h
      exact faulty_backslash []
  | cons d cs ih =>
      by_cases hc : c = '\\'
      · subst hc
        exact faulty_backslash _
      · have hrest := ih (c := d) ((List.mem_cons.mp h).resolve_left (Ne.symm hc))
        have hcomma : BeginsWith (behindArgument (d :: cs)) [mark .comma]
            ((character d).text.toList ++ behindArgument cs) :=
          .mark (by simp) (.blank rfl (.refl _))
        exact hrest.of_beginsWith (BeginsWith.token (endsBefore_character hc _) hcomma)

/-- With a backslash among its characters the text is faulty. -/
theorem faulty_charactersText {x f : String} (hx : isName x) (hf : isName f) {cs : List Char}
    (h : '\\' ∈ cs) : Faulty (charactersText x f cs).toList := by
  cases cs with
  | nil => cases h
  | cons c cs =>
      exact (faulty_arguments h).of_beginsWith (beginsWith_argumentsFrom hx hf (.refl _))

end FrontEnd
