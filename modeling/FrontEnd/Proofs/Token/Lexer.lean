import FrontEnd.Proofs.Token.Bounded
import FrontEnd.Proofs.Token.SkippedGap
import FrontEnd.Token.Listing

set_option autoImplicit false

/-! # The lexer reads the tokens of the text

A `Lexer` reads bytes, and may stand in the middle of a character. If it starts between two characters
then the token it reads is the one that `Cursor.next` reads from the characters there, and behind the
token it stands between two characters again (`SamePlace.next`). In particular the text of a token is
never cut within a character, which is why the lexer always gives a token.

Read from the start of a text, these tokens are those that the parser works on (`tokens?_eq`), so a
listing of the tokens of a file shows what the parser gets to see (`Buffer.listing_eq`).

Each scanner is treated by itself. Started at a spot, it ends at the spot that lies behind as many
characters as its counterpart for characters reads, with the same outcome.
-/

namespace FrontEnd

namespace Lexer

variable {read text rest : List Char} {n : Nat} {c : Char}

/-! ## The text of a token

The bytes between two places are cut out and read as characters. Since both places are between
characters, they are the encoding of the characters between them. -/

theorem extract_toByteArray (front own back : List UInt8) :
    (front ++ (own ++ back)).toByteArray.extract front.length (front.length + own.length) =
      own.toByteArray := by
  apply ByteArray.ext
  rw [ByteArray.data_extract, List.data_toByteArray, List.data_toByteArray, List.extract_toArray,
    List.extract_eq_take_drop, List.drop_left, Nat.add_sub_cancel_left, List.take_left]

/-- Between two places between characters the text is that of the characters. -/
theorem slice?_spot (m : Nat) :
    (spot read text 0).slice? (spot read text m) = some (String.ofList (text.take m)) := by
  have hbytes : (spot read text 0).bytes =
      (utf8 read ++ (utf8 (text.take m) ++ utf8 (text.drop m))).toByteArray := by
    rw [← utf8_append, List.take_append_drop, spot, place, List.take_zero, List.append_nil]
    rfl
  have hstart : (spot read text 0).current = (utf8 read).length := by
    rw [spot, place, List.take_zero, List.append_nil]
  have hstop : (spot read text m).current = (utf8 read).length + (utf8 (text.take m)).length := by
    rw [spot, place, utf8_append, List.length_append]
  have hsize : (spot read text m).current ≤ (spot read text 0).bytes.size := by
    rw [hstop, hbytes, List.size_toByteArray]
    simp only [List.length_append]
    omega
  rw [slice?, if_pos ⟨by omega, hsize⟩, hstart, hstop, hbytes, extract_toByteArray, fromUTF8?_utf8]

/-! ## Numbers

All characters that a number is read by are ASCII characters, so each look at a byte is a look at a
character, and each step is a step over one. -/

theorem digits_spot {isDigit : Char → Bool} (hdigit : OnlyAscii isDigit) (missing : LexicalFault)
    (n : Nat) :
    (spot read text n).digits isDigit missing =
      (if (FrontEnd.digitRun isDigit (text.drop n)).any isDigit then .ok .number else .error missing,
        spot read text (n + (FrontEnd.digitRun isDigit (text.drop n)).length)) := by
  rw [digits, digitRun_spot hdigit]
  cases hcount : (FrontEnd.digitRun isDigit (text.drop n)).countP isDigit with
  | zero =>
      have hnone : ¬ (FrontEnd.digitRun isDigit (text.drop n)).any isDigit = true := by
        rw [List.any_eq_true]
        rintro ⟨c, hc, hd⟩
        exact List.countP_eq_zero.mp hcount c hc hd
      rw [if_neg hnone]
      rfl
  | succ k =>
      have hsome : (FrontEnd.digitRun isDigit (text.drop n)).any isDigit = true := by
        rw [List.any_eq_true]
        exact List.countP_pos_iff.mp (by omega)
      rw [if_pos hsome]
      rfl

theorem fraction_spot (n : Nat) :
    (spot read text n).fraction = spot read text (n + fractionLength (text.drop n)) := by
  rw [fraction]
  cases hl : text.drop n with
  | nil =>
      rw [sees_spot_nil hl]
      rfl
  | cons c rest =>
      rw [sees_spot_cons (onlyAscii_beq rfl) hl]
      by_cases hc : c = '.'
      · subst hc
        rw [seesNext_spot onlyAscii_isDigit hl rfl, advance_spot hl rfl,
          digitRun_spot onlyAscii_isDigit,
          drop_succ_of_drop hl]
        cases rest with
        | nil => rfl
        | cons d rest =>
            cases hd : d.isDigit with
            | false => simp [fractionLength, hd]
            | true => simp [fractionLength, hd, Nat.add_assoc]
      · have hnone : fractionLength (c :: rest) = 0 := by
          unfold fractionLength
          split
          · next heq => exact absurd (List.cons.inj heq).1 hc
          · rfl
        rw [hnone, beq_false_of_ne hc]
        rfl

theorem exponentSign_spot (n : Nat) :
    (spot read text n).exponentSign = spot read text (n + signLength (text.drop n)) := by
  have hsign : OnlyAscii fun c => c == '+' || c == '-' := (onlyAscii_beq rfl).or (onlyAscii_beq rfl)
  rw [exponentSign]
  cases hl : text.drop n with
  | nil =>
      rw [sees_spot_nil hl]
      rfl
  | cons c rest =>
      rw [sees_spot_cons hsign hl, signLength]
      by_cases hc : c = '+' ∨ c = '-'
      · have hc' : (c == '+' || c == '-') = true := by simpa using hc
        rw [if_pos hc', if_pos hc, advance_spot hl (hsign c hc')]
      · have hc' : ¬ (c == '+' || c == '-') = true := by simpa using hc
        rw [if_neg hc', if_neg hc]
        rfl

theorem exponent_spot (n : Nat) :
    (spot read text n).exponent =
      ((scanExponent n (text.drop n)).outcome,
        spot read text (scanExponent n (text.drop n)).length) := by
  rw [exponent]
  cases hl : text.drop n with
  | nil =>
      rw [sees_spot_nil hl]
      rfl
  | cons c rest =>
      rw [sees_spot_cons onlyAscii_isExponentSign hl, scanExponent]
      cases hc : isExponentSign c with
      | false => rfl
      | true =>
          have hrest := drop_succ_of_drop hl
          rw [if_pos rfl, if_pos rfl, advance_spot hl (onlyAscii_isExponentSign c hc),
            exponentSign_spot, digits_spot onlyAscii_isDigit, ← List.drop_drop, hrest]
          dsimp only
          split <;> rfl

theorem decimal_spot (hc : c.isDigit = true) :
    ((spot read (c :: rest) 1).digitRun Char.isDigit).2.fraction.exponent =
      ((scanDecimal (c :: rest)).outcome,
        spot read (c :: rest) (scanDecimal (c :: rest)).length) := by
  have hwhole : (FrontEnd.digitRun Char.isDigit (c :: rest)).length =
      1 + (FrontEnd.digitRun Char.isDigit rest).length := by
    rw [FrontEnd.digitRun, List.takeWhile_cons_of_pos (by rw [hc]; rfl), List.length_cons,
      Nat.add_comm]
    rfl
  rw [digitRun_spot onlyAscii_isDigit, List.drop_one, List.tail_cons, ← hwhole, fraction_spot,
    exponent_spot]
  rfl

/-- A number is read behind its first digit. -/
theorem number_spot (hc : c.isDigit = true) :
    (spot read (c :: rest) 1).number c =
      ((scanNumber (c :: rest)).outcome,
        spot read (c :: rest) (scanNumber (c :: rest)).length) := by
  rw [number]
  cases rest with
  | nil =>
      rw [sees_spot_nil rfl, sees_spot_nil rfl, Bool.and_false, if_neg Bool.false_ne_true,
        if_neg Bool.false_ne_true, decimal_spot hc, scanNumber_singleton]
  | cons d rest =>
      rw [sees_spot_cons onlyAscii_isHexSign rfl, sees_spot_cons onlyAscii_isOctalSign rfl]
      by_cases hzero : c = '0'
      · subst hzero
        -- behind the sign of a base its digits are read from the third character on
        have hdigits {isDigit : Char → Bool} (hdigit : OnlyAscii isDigit) (missing : LexicalFault) :
            (spot read ('0' :: d :: rest) 2).digits isDigit missing =
              ((scanRadix isDigit missing rest).outcome,
                spot read ('0' :: d :: rest) (scanRadix isDigit missing rest).length) := by
          have hdrop : List.drop 2 ('0' :: d :: rest) = rest := rfl
          rw [digits_spot hdigit, hdrop, scanRadix]
          by_cases hany : (FrontEnd.digitRun isDigit rest).any isDigit = true
          · rw [if_pos hany, if_pos hany]
            rfl
          · rw [if_neg hany, if_neg hany]
            rfl
        rw [scanNumber, beq_self_eq_true, Bool.true_and, Bool.true_and]
        by_cases hhex : isHexSign d = true
        · rw [if_pos hhex, if_pos hhex, advance_spot rfl (onlyAscii_isHexSign d hhex),
            hdigits onlyAscii_isHexDigit]
        · rw [if_neg hhex, if_neg hhex]
          by_cases hoctal : isOctalSign d = true
          · rw [if_pos hoctal, if_pos hoctal, advance_spot rfl (onlyAscii_isOctalSign d hoctal),
              hdigits onlyAscii_isOctalDigit]
          · rw [if_neg hoctal, if_neg hoctal, decimal_spot hc]
      · have hne : (c == '0') = false := beq_false_of_ne hzero
        rw [hne, Bool.false_and, Bool.false_and, if_neg Bool.false_ne_true,
          if_neg Bool.false_ne_true, decimal_spot hc, scanNumber_of_ne hzero]

/-! ## Quoted literals

A literal may hold any characters, and the lexer goes through their bytes. None of these is mistaken
for a delimiter or a backslash, which are ASCII characters. -/

theorem quoted_nil {delimiter : Char} {kind : Kind} {unterminated : LexicalFault} {l : Lexer}
    (h : l.peek? = none) : l.quoted delimiter kind unterminated = (.error unterminated, l) := by
  rw [quoted, h]
  exact dif_neg Bool.false_ne_true

theorem quoted_cons {delimiter : Char} {kind : Kind} {unterminated : LexicalFault} {l : Lexer}
    (h : l.peek?.isSome = true) :
    l.quoted delimiter kind unterminated =
      if l.sees (· == delimiter) then (.ok kind, l.advance)
      else if l.sees (· == '\\') && l.seesNext (· == delimiter) then
        l.advance.advance.quoted delimiter kind unterminated
      else l.advance.quoted delimiter kind unterminated := by
  rw [quoted, dif_pos h]

/-- What the lexer makes of the end of a literal. If there is none, everything up to the end of the
text is part of the fault. -/
def quotedResult (read text : List Char) (kind : Kind) (unterminated : LexicalFault) :
    Option Nat → Except LexicalFault Kind × Lexer
  | some m => (.ok kind, spot read text m)
  | none => (.error unterminated, spot read text text.length)

section

variable {delimiter : Char} (hdelimiter : isAscii delimiter = true) (kind : Kind)
  (unterminated : LexicalFault)

include hdelimiter

/-- A character that neither closes the literal nor hides a delimiter is part of the literal. -/
theorem quoted_step (h : text.drop n = c :: rest) (hc : c ≠ delimiter)
    (hescape : ¬ (c = '\\' ∧ rest.head?.any (· == delimiter) = true)) :
    (spot read text n).quoted delimiter kind unterminated =
      (spot read text (n + 1)).quoted delimiter kind unterminated := by
  refine step_spot h ?_ fun hascii => ?_
  · intro l b hb hle
    rw [quoted_cons (by rw [hb]; rfl), sees_of_le (onlyAscii_beq hdelimiter) hb hle,
      sees_of_le (onlyAscii_beq rfl) hb hle]
    rfl
  · rw [quoted_cons (isSome_peek?_spot h), sees_spot_cons (onlyAscii_beq hdelimiter) h,
      sees_spot_cons (onlyAscii_beq rfl) h, seesNext_spot (onlyAscii_beq hdelimiter) h hascii,
      if_neg, if_neg]
    · simpa using hescape
    · simpa using hc

/-- A literal is read up to its closing delimiter, or to the end of the text. -/
theorem quoted_spot : ∀ (l : List Char) (n : Nat), text.drop n = l →
    (spot read text n).quoted delimiter kind unterminated =
      quotedResult read text kind unterminated (closingLength delimiter n l)
  | [], n, hl => by
    rw [quoted_nil (peek?_spot_nil hl), spot_of_drop_nil hl]
    rfl
  | [c], n, hl => by
    have hrest := drop_succ_of_drop hl
    rw [closingLength]
    by_cases hc : c = delimiter
    · subst hc
      rw [if_pos rfl, quoted_cons (isSome_peek?_spot hl),
        sees_spot_cons (onlyAscii_beq hdelimiter) hl,
        if_pos (beq_self_eq_true c), advance_spot hl hdelimiter]
      rfl
    · rw [if_neg hc, quoted_step hdelimiter kind unterminated hl hc (by simp),
        quoted_nil (peek?_spot_nil hrest), spot_of_drop_nil hrest]
      rfl
  | c :: d :: rest, n, hl => by
    have hd := drop_succ_of_drop hl
    have hrest := drop_succ_of_drop hd
    rw [closingLength]
    by_cases hc : c = delimiter
    · subst hc
      rw [if_pos rfl, quoted_cons (isSome_peek?_spot hl),
        sees_spot_cons (onlyAscii_beq hdelimiter) hl,
        if_pos (beq_self_eq_true c), advance_spot hl hdelimiter]
      rfl
    · rw [if_neg hc]
      by_cases hescape : c = '\\' ∧ d = delimiter
      · -- the delimiter is part of the literal
        rw [if_pos hescape, ← quoted_spot rest (n + 2) hrest]
        obtain ⟨rfl, rfl⟩ := hescape
        have hne : ('\\' == d) = false := beq_false_of_ne hc
        rw [quoted_cons (isSome_peek?_spot hl), sees_spot_cons (onlyAscii_beq hdelimiter) hl, hne,
          sees_spot_cons (onlyAscii_beq rfl) hl, seesNext_spot (onlyAscii_beq hdelimiter) hl rfl,
          advance_spot hl rfl, advance_spot hd hdelimiter]
        simp
      · -- any other character is passed over by itself
        rw [if_neg hescape, ← quoted_spot (d :: rest) (n + 1) hd]
        exact quoted_step hdelimiter kind unterminated hl hc (by simpa using hescape)

end

/-! ## Marks and operators

The trees are the same on both sides, and ask for ASCII characters alone. So they decide alike on
bytes and on characters. -/

theorem sign_spot {tree : SignTree} (htree : tree.isAscii = true) (n : Nat) :
    (spot read text n).sign tree =
      ((tree.read (text.drop n)).1, spot read text (n + (tree.read (text.drop n)).2)) := by
  induction tree generalizing n with
  | found kind => rfl
  | eat expected eaten missed iheaten ihmissed =>
      rw [SignTree.isAscii, Bool.and_eq_true, Bool.and_eq_true, List.all_eq_true] at htree
      obtain ⟨⟨hexpected, heaten⟩, hmissed⟩ := htree
      rw [sign, eatAll?_spot hexpected, SignTree.read]
      by_cases hprefix : expected.isPrefixOf (text.drop n) = true
      · rw [if_pos hprefix, if_pos hprefix, List.drop_drop]
        dsimp only
        rw [iheaten heaten, Nat.add_assoc]
      · rw [if_neg hprefix, if_neg hprefix]
        exact ihmissed hmissed n

/-! ## Tokens

The lexer steps over the first byte and then chooses a scanner by it. If it is an ASCII character,
this is the choice of the cursor; if it is not, the whole character is faulty. -/

/-- An ASCII character starts the same token in the bytes and in the characters. -/
theorem found?_ascii (read rest : List Char) (c : Char) :
    (spot read (c :: rest) 0).found? c (spot read (c :: rest) 1) =
      some ((scan c rest).outcome, spot read (c :: rest) (scan c rest).length) := by
  rw [found?, scan]
  by_cases hword : isWordStart c = true
  · have hrun : (spot read (c :: rest) 1).advanceWhile (fun b => isWordChar (Char.ofUInt8 b)) =
        spot read (c :: rest) ((c :: rest).takeWhile isWordChar).length := by
      rw [advanceWhile_class onlyAscii_isWordChar,
        List.takeWhile_cons_of_pos (isWordChar_of_isWordStart hword), List.length_cons, Nat.add_comm]
      rfl
    -- the text of the word is cut out of the bytes again to look it up
    have htake : (c :: rest).take ((c :: rest).takeWhile isWordChar).length =
        (c :: rest).takeWhile isWordChar :=
      (List.prefix_iff_eq_take.mp (List.takeWhile_prefix isWordChar)).symm
    have hkind : (spot read (c :: rest) 0).word?
          (spot read (c :: rest) ((c :: rest).takeWhile isWordChar).length) =
        some (wordKind ((c :: rest).takeWhile isWordChar)) := by
      rw [word?, slice?_spot, htake, Option.map_some, String.toList_ofList]
    rw [if_pos hword, if_pos hword, hrun]
    dsimp only
    rw [hkind]
    rfl
  · rw [if_neg hword, if_neg hword]
    by_cases hdigit : c.isDigit = true
    · rw [if_pos hdigit, if_pos hdigit, number_spot hdigit]
    · rw [if_neg hdigit, if_neg hdigit]
      have hquoted {delimiter : Char} (hd : isAscii delimiter = true) (kind : Kind)
          (unterminated : LexicalFault) :
          (spot read (c :: rest) 1).quoted delimiter kind unterminated =
            ((scanQuoted delimiter kind unterminated rest).outcome,
              spot read (c :: rest) (scanQuoted delimiter kind unterminated rest).length) := by
        rw [quoted_spot hd kind unterminated rest 1 rfl, scanQuoted]
        split
        · next hclosing => rw [hclosing]; rfl
        · next hclosing =>
          rw [hclosing, quotedResult, List.length_cons, Nat.add_comm]
          rfl
      by_cases hstring : c = '"'
      · rw [if_pos hstring, if_pos hstring, hquoted rfl]
      · rw [if_neg hstring, if_neg hstring]
        by_cases hchar : c = '\''
        · rw [if_pos hchar, if_pos hchar, hquoted rfl]
        · rw [if_neg hchar, if_neg hchar, scanSymbol]
          -- what starts no sign is faulty, and the rest of its bytes is passed over
          cases htree : signTree? c with
          | none =>
              dsimp only
              rw [advanceWhile_isContinuation_spot]
              rfl
          | some tree =>
              dsimp only
              rw [sign_spot (isAscii_of_signTree? htree).2]
              rfl

/-- A character that is none of ASCII starts no token. -/
theorem scan_other {c : Char} (hc : isAscii c = false) :
    isWordStart c = false ∧ c.isDigit = false ∧ c ≠ '"' ∧ c ≠ '\'' ∧ signTree? c = none := by
  refine ⟨onlyAscii_isWordStart.eq_false hc, onlyAscii_isDigit.eq_false hc, ?_, ?_, ?_⟩
  · rintro rfl
    cases hc
  · rintro rfl
    cases hc
  · cases htree : signTree? c with
    | none => rfl
    | some tree =>
        rw [(isAscii_of_signTree? htree).1] at hc
        cases hc

/-- Any other character is a stray one, and is read with all of its bytes. -/
theorem found?_other (read rest : List Char) (hc : isAscii c = false) {b : UInt8}
    (hb : 128 ≤ b.toNat) :
    (spot read (c :: rest) 0).found? (Char.ofUInt8 b) (spot read (c :: rest) 0).advance =
      some ((scan c rest).outcome, spot read (c :: rest) (scan c rest).length) := by
  obtain ⟨hword, hdigit, hstring, hchar, htree⟩ := scan_other (isAscii_ofUInt8 hb)
  obtain ⟨hword', hdigit', hstring', hchar', htree'⟩ := scan_other hc
  have hbehind : (spot read (c :: rest) 0).advance.advanceWhile isContinuation =
      spot read (c :: rest) 1 :=
    advanceWhile_isContinuation_advance rfl
  rw [found?, hword, if_neg Bool.false_ne_true, hdigit, if_neg Bool.false_ne_true, if_neg hstring,
    if_neg hchar, htree, scan, hword', if_neg Bool.false_ne_true, hdigit', if_neg Bool.false_ne_true,
    if_neg hstring', if_neg hchar', scanSymbol, htree']
  dsimp only
  rw [hbehind]
  rfl

/-- What starts with a character is found in its bytes. -/
theorem found?_spot {b : UInt8} (hpeek : (spot read (c :: rest) 0).peek? = some b) :
    (spot read (c :: rest) 0).found? (Char.ofUInt8 b) (spot read (c :: rest) 0).advance =
      some ((scan c rest).outcome, spot read (c :: rest) (scan c rest).length) := by
  have hdrop : (c :: rest).drop 0 = c :: rest := rfl
  obtain ⟨b', hpeek', -, hascii, hother⟩ := peek?_spot_cons read hdrop
  obtain rfl : b' = b := Option.some.inj (hpeek'.symm.trans hpeek)
  cases hc : isAscii c with
  | true =>
      rw [hascii hc, advance_spot hdrop hc]
      exact found?_ascii read rest c
  | false => exact found?_other read rest hc (hother hc)

/-- The place behind some characters is the start of what is left. -/
theorem spot_eq_zero (read text : List Char) (n : Nat) :
    spot read text n = spot (read ++ text.take n) (text.drop n) 0 := by
  rw [spot, spot, List.take_zero, List.append_nil, List.drop_zero]

/-- A lexer and a cursor stand at the same place of a text, between two characters. -/
inductive SamePlace : Lexer → Cursor → Prop where
  | intro (read rest : List Char) :
      SamePlace (spot read rest 0) ⟨rest, Position.start.after read⟩

theorem SamePlace.skip (read text : List Char) (n : Nat) :
    SamePlace (spot read text n) (Cursor.skip ⟨text, Position.start.after read⟩ n) := by
  rw [spot_eq_zero, Cursor.skip, ← Position.after_append]
  exact .intro _ _

/-- The token found at a place is that of the cursor. -/
theorem token?_spot (read text : List Char) (s : Scan) :
    (spot read text 0).token? s.outcome (spot read text s.length) =
      some (Cursor.token ⟨text, Position.start.after read⟩ s) := by
  have hposition : (spot read text 0).position = Position.start.after read := by
    rw [position_spot, List.take_zero, List.append_nil]
  rw [Cursor.token]
  cases houtcome : s.outcome with
  | ok kind => rw [token?, slice?_spot, Option.map_some, hposition]
  | error fault => rw [token?, hposition]

theorem next?_of_error {l opener behind : Lexer} (h : l.skipTrivia = .error (opener, behind)) :
    l.next? = some (.invalid .unterminatedComment opener.position, behind) := by
  rw [next?, h]

theorem next?_of_end {l start : Lexer} (h : l.skipTrivia = .ok start) (hpeek : start.peek? = none) :
    l.next? = (start.token? (.ok .endOfFile) start).map fun t => (t, start) := by
  rw [next?, h]
  dsimp only
  rw [hpeek]

theorem next?_of_found {l start behind : Lexer} {b : UInt8} {outcome : Except LexicalFault Kind}
    (h : l.skipTrivia = .ok start) (hpeek : start.peek? = some b)
    (hfound : start.found? (Char.ofUInt8 b) start.advance = some (outcome, behind)) :
    l.next? = (start.token? outcome behind).map fun t => (t, behind) := by
  rw [next?, h]
  dsimp only
  rw [hpeek]
  dsimp only
  rw [hfound]

theorem skip_skip_length (c : Cursor) (m : Nat) :
    (c.skip m).skip (c.skip m).rest.length = c.skip c.rest.length := by
  rw [Cursor.skip, Cursor.skip, Cursor.skip, List.drop_length, List.drop_length, List.take_length,
    List.take_length, ← Position.after_append, List.take_append_drop]

/-- The next token is the same in the bytes and in the characters, and behind it both are at the same
place again. -/
theorem SamePlace.next {l : Lexer} {c : Cursor} (h : SamePlace l c) :
    ∃ behind, l.next? = some (c.next.1, behind) ∧ SamePlace behind c.next.2 := by
  obtain ⟨read, text⟩ := h
  have hskip : (spot read text 0).skipTrivia = gapResult read text (gap text) := skipTrivia_spot 0
  cases hgap : gap text with
  | unclosed m =>
      rw [hgap] at hskip
      have hnext : Cursor.next ⟨text, Position.start.after read⟩ =
          (.invalid .unterminatedComment (Position.start.after (read ++ text.take m)),
            Cursor.skip ⟨text, Position.start.after read⟩ text.length) := by
        rw [Cursor.next, hgap]
        dsimp only
        rw [skip_skip_length, Cursor.skip, Position.after_append]
      refine ⟨spot read text text.length, ?_, ?_⟩
      · rw [next?_of_error hskip, hnext, position_spot]
      · rw [hnext]
        exact .skip read text text.length
  | closed m =>
      rw [hgap] at hskip
      have hhere : Cursor.skip ⟨text, Position.start.after read⟩ m =
          ⟨text.drop m, Position.start.after (read ++ text.take m)⟩ := by
        rw [Cursor.skip, Position.after_append]
      rw [gapResult, spot_eq_zero read text m] at hskip
      rw [Cursor.next, hgap]
      dsimp only
      rw [hhere]
      -- from here on the token is read at the start of what is left of the text
      generalize read ++ text.take m = read' at hskip
      cases hrest : text.drop m with
      | nil =>
          rw [hrest] at hskip
          refine ⟨spot read' [] 0, ?_, .intro read' []⟩
          rw [next?_of_end hskip (peek?_spot_nil rfl)]
          exact congrArg _ (token?_spot read' [] (.token .endOfFile 0))
      | cons first rest =>
          rw [hrest] at hskip
          have hdrop : (first :: rest).drop 0 = first :: rest := rfl
          obtain ⟨b, hpeek, -⟩ := peek?_spot_cons read' hdrop
          refine ⟨spot read' (first :: rest) (scan first rest).length, ?_, .skip _ _ _⟩
          rw [next?_of_found hskip hpeek (found?_spot hpeek), token?_spot]
          rfl

/-- The tokens from a place on. -/
theorem SamePlace.upTo?_eq {fuel : Nat} {l : Lexer} {c : Cursor} (h : SamePlace l c)
    (hfuel : c.rest.length < fuel) : l.upTo? fuel = some (Stream.ofCursor c) := by
  induction fuel generalizing l c with
  | zero => exact absurd hfuel (Nat.not_lt_zero _)
  | succ fuel ih =>
      obtain ⟨behind, hnext, hbehind⟩ := h.next
      rw [upTo?, hnext, Stream.ofCursor_eq]
      dsimp only
      by_cases hend : c.next.1.kind = .endOfFile
      · rw [if_pos hend, if_pos hend]
      · have hlt := Cursor.next_lt hend
        rw [if_neg hend, if_neg hend, ih hbehind (by omega)]
        rfl

theorem samePlace_ofText (text : String) : SamePlace (ofText text) (.ofText text.toList) := by
  have hbytes : (utf8 text.toList).toByteArray = text.toUTF8 := by
    rw [← toByteArray_ofList, String.ofList_toList]
    rfl
  have hstart : ofText text = spot [] text.toList 0 := by
    show (⟨text.toUTF8, 0, 1, 0⟩ : Lexer) = ⟨(utf8 text.toList).toByteArray, 0, 1, 0⟩
    rw [hbytes]
  rw [hstart]
  exact .intro [] text.toList

/-- The lexer never cuts a character, and reads the tokens of the text. `none` would mean that the two
ends of a token were not both between characters. -/
theorem tokens?_eq (text : String) : tokens? text = some (Stream.ofText text.toList) := by
  have hlength := length_le_utf8 text.toList
  have hsize : text.utf8ByteSize = (utf8 text.toList).length := by
    rw [← List.size_toByteArray, ← toByteArray_ofList, String.ofList_toList]
    rfl
  refine (samePlace_ofText text).upTo?_eq ?_
  rw [hsize]
  exact Nat.lt_succ_of_le hlength

end Lexer

/-- A listing shows the tokens that the parser reads, in the same order. -/
theorem Buffer.listing_eq (b : Buffer) :
    b.listing = "== " ++ b.name ++ " ==\n" ++
      String.join ((Stream.ofText b.chars).all.map Token.listing) := by
  rw [listing, Lexer.tokens?_eq]
  rfl

end FrontEnd
