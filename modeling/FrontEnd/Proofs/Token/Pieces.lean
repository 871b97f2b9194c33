import FrontEnd.Proofs.Token.Stream
import FrontEnd.Proofs.Token.Trivia

set_option autoImplicit false

/-! # One token after the other

What is left of a text falls into three parts: the gap in front of the next token, the text of this
token, and what is behind it (`Cursor.rest_eq`). Every token but the last one takes a character
at least, and the text it takes says what it is (`Token.Covers`): a valid token is its text, an
invalid one stands for text that is faulty in the way it reports, and the end of the file takes
nothing. A stream therefore is nothing but its first token and the stream behind it
(`Stream.ofCursor_eq`).

There is one lemma for each scanner (`Scan.Reads`): it takes at least one character and no more than
there are, and if it finds a fault then the text that it takes is faulty in just that way. Whatever
divides a text or says where its tokens stand follows from these, without a look at the scanners.
-/

namespace FrontEnd

/-! ## Faulty text

An invalid token has the message of its fault as its lexeme, so what was read is not to be seen in
it. Each fault says what text it was made from. -/

/-- The characters that marks and operators are made of. -/
def isSymbolChar (c : Char) : Bool := symbolTable.any fun entry => entry.1.contains c

/-- The characters that are no blanks and start no token. Each of them is a faulty token by itself.
-/
def isStray (c : Char) : Bool :=
  !(Gap.isBlank c || isWordStart c || c.isDigit || c == '"' || c == '\'' || isSymbolChar c)

/-- The text that a fault is reported for, in front of the text `behind`. Faults of literals and
comments are about all of the text that is left. -/
def LexicalFault.Explains : LexicalFault → List Char → List Char → Prop
  | .unexpectedCharacter, own, _ => ∃ c, own = [c] ∧ isStray c = true
  | .unterminatedString, own, behind => own.head? = some '"' ∧ behind = []
  | .unterminatedCharacter, own, behind => own.head? = some '\'' ∧ behind = []
  | .unterminatedComment, own, behind => OpensComment own ∧ behind = []
  | .hexWithoutDigit, own, _ =>
    ∃ sign run, own = '0' :: sign :: run ∧ isHexSign sign = true ∧ ∀ c ∈ run, c = '_'
  | .octalWithoutDigit, own, _ =>
    ∃ sign run, own = '0' :: sign :: run ∧ isOctalSign sign = true ∧ ∀ c ∈ run, c = '_'
  | .exponentWithoutDigit, own, _ => ∃ c ∈ own.head?, c.isDigit = true

/-- A token of a text is read from some of its characters, in front of the text `behind`. A valid
token has these characters as its lexeme, and a faulty one is explained by them. -/
inductive Token.Covers (behind : List Char) : Token → List Char → Prop where
  | valid {kind : Kind} {own : List Char} {p : Position} (hown : own ≠ [])
      (hinvalid : kind ≠ .invalid) (hend : kind ≠ .endOfFile) :
      Covers behind ⟨kind, String.ofList own, p⟩ own
  | invalid {fault : LexicalFault} {own : List Char} {p : Position} (hown : own ≠ [])
      (hfault : fault.Explains own behind) : Covers behind (.invalid fault p) own
  | endOfFile {p : Position} (hbehind : behind = []) : Covers behind (.endOfFile p) []

/-- What is scanned at the start of a text takes a part of it that is not empty, and is a valid token
or explains what is wrong with that part. -/
structure Scan.Reads (s : Scan) (text : List Char) : Prop where
  pos : 0 < s.length
  le : s.length ≤ text.length
  valid : ∀ kind, s.outcome = .ok kind → kind ≠ .invalid ∧ kind ≠ .endOfFile
  explained : ∀ fault, s.outcome = .error fault →
    fault.Explains (text.take s.length) (text.drop s.length)

/-! ## Scanning

One lemma for each scanner. Together they say of a scan that it takes a character at least and no
more than there are, and that its outcome fits what it has taken. -/

namespace Scan.Reads

theorem token {kind : Kind} {n : Nat} {text : List Char} (hpos : 0 < n) (hle : n ≤ text.length)
    (hinvalid : kind ≠ .invalid) (hend : kind ≠ .endOfFile) : (Scan.token kind n).Reads text where
  pos := hpos
  le := hle
  valid kind' h := by
    cases h
    exact ⟨hinvalid, hend⟩
  explained fault h := by cases h

theorem fault {fault : LexicalFault} {n : Nat} {text : List Char} (hpos : 0 < n)
    (hle : n ≤ text.length) (h : fault.Explains (text.take n) (text.drop n)) :
    (Scan.fault fault n).Reads text where
  pos := hpos
  le := hle
  valid kind h := by cases h
  explained fault' h' := by
    cases h'
    exact h

end Scan.Reads

theorem Kind.isWord_of_isReserved {k : Kind} (h : k.isReserved = true) : k.isWord = true := by
  cases k with
  | word | builtin => rfl
  | _ => cases h

/-- The kind of a word is that of a reserved word, or an identifier. -/
theorem wordKind_isWord (word : List Char) : (wordKind word).isWord = true := by
  rcases wordKind_cases word with hmem | ⟨hkind, -⟩
  · exact Kind.isWord_of_isReserved (mem_reservedWords.mp hmem).1
  · rw [hkind]
    rfl

theorem scanWord_reads {c : Char} (hc : isWordStart c = true) (rest : List Char) :
    (scanWord (c :: rest)).Reads (c :: rest) := by
  have hword := wordKind_isWord ((c :: rest).takeWhile isWordChar)
  refine .token ?_ (List.takeWhile_prefix _).length_le ?_ ?_
  · rw [List.takeWhile_cons_of_pos (isWordChar_of_isWordStart hc)]
    exact Nat.succ_pos _
  · intro hkind
    rw [hkind] at hword
    cases hword
  · intro hkind
    rw [hkind] at hword
    cases hword

theorem digitRun_length_le (isDigit : Char → Bool) (text : List Char) :
    (digitRun isDigit text).length ≤ text.length := (List.takeWhile_prefix _).length_le

/-- A run without a digit consists of underscores. -/
theorem eq_of_mem_digitRun {isDigit : Char → Bool} {text : List Char}
    (h : (digitRun isDigit text).any isDigit = false) : ∀ c ∈ digitRun isDigit text, c = '_' := by
  intro c hc
  have hnone := List.any_eq_false.mp h c hc
  have hrun : (isDigit c || c == '_') = true :=
    List.mem_takeWhile_imp (p := fun c => isDigit c || c == '_') hc
  rw [Bool.or_eq_true] at hrun
  exact beq_iff_eq.mp (hrun.resolve_left hnone)

theorem scanRadix_reads {isDigit : Char → Bool} {missing : LexicalFault} {first sign : Char}
    {text : List Char}
    (h : ∀ run : List Char, (∀ c ∈ run, c = '_') →
      missing.Explains (first :: sign :: run) (text.drop run.length)) :
    (scanRadix isDigit missing text).Reads (first :: sign :: text) := by
  have hle := digitRun_length_le isDigit text
  have hprefix : text.take (digitRun isDigit text).length = digitRun isDigit text :=
    (List.prefix_iff_eq_take.mp (List.takeWhile_prefix _)).symm
  rw [scanRadix]
  split
  · refine .token (by omega) ?_ (by simp) (by simp)
    simp only [List.length_cons]
    omega
  · next hany =>
    refine .fault (by omega) ?_ ?_
    · simp only [List.length_cons]
      omega
    · have hrun := h _ (eq_of_mem_digitRun (Bool.not_eq_true _ ▸ hany))
      rw [show 2 + (digitRun isDigit text).length = (digitRun isDigit text).length + 1 + 1 by omega,
        List.take_succ_cons, List.take_succ_cons, hprefix]
      exact hrun

theorem signLength_le (text : List Char) : signLength text ≤ text.length := by
  cases text with
  | nil => exact Nat.le_refl 0
  | cons c rest =>
      rw [signLength]
      split
      · exact Nat.succ_pos _
      · exact Nat.zero_le _

theorem fractionLength_le (text : List Char) : fractionLength text ≤ text.length := by
  unfold fractionLength
  split
  · next d rest =>
    split
    · have hle := digitRun_length_le Char.isDigit (d :: rest)
      rw [List.length_cons]
      omega
    · exact Nat.zero_le _
  · exact Nat.zero_le _

/-- A decimal number starts with a digit, with or without an exponent. -/
theorem scanExponent_reads {c : Char} (hc : c.isDigit = true) {n : Nat} {rest behind : List Char}
    (hn : 0 < n) (hbehind : (c :: rest).drop n = behind) (hle : n ≤ (c :: rest).length) :
    (scanExponent n behind).Reads (c :: rest) := by
  have hlength : behind.length = (c :: rest).length - n := by rw [← hbehind, List.length_drop]
  have htoken : (Scan.token .number n).Reads (c :: rest) := .token hn hle (by simp) (by simp)
  cases behind with
  | nil => exact htoken
  | cons e more =>
      rw [scanExponent]
      dsimp only
      have hsign := signLength_le more
      have hrun := digitRun_length_le Char.isDigit (more.drop (signLength more))
      rw [List.length_drop] at hrun
      rw [List.length_cons] at hlength
      split
      · split
        · exact .token (by omega) (by omega) (by simp) (by simp)
        · refine .fault (by omega) (by omega) ⟨c, ?_, hc⟩
          rw [List.head?_take, if_neg (by omega)]
          rfl
      · exact htoken

theorem scanDecimal_reads {c : Char} (hc : c.isDigit = true) (rest : List Char) :
    (scanDecimal (c :: rest)).Reads (c :: rest) := by
  have hwhole := digitRun_length_le Char.isDigit (c :: rest)
  have hpos : 0 < (digitRun Char.isDigit (c :: rest)).length := by
    rw [digitRun, List.takeWhile_cons_of_pos (by rw [hc]; rfl)]
    exact Nat.succ_pos _
  have hfraction :=
    fractionLength_le ((c :: rest).drop (digitRun Char.isDigit (c :: rest)).length)
  rw [List.length_drop] at hfraction
  rw [scanDecimal]
  exact scanExponent_reads hc (by omega) rfl (by omega)

theorem scanNumber_reads {c : Char} (hc : c.isDigit = true) (rest : List Char) :
    (scanNumber (c :: rest)).Reads (c :: rest) := by
  unfold scanNumber
  split
  · next d rest' heq =>
    cases heq
    split
    · next hsign => exact scanRadix_reads fun run hrun => ⟨d, run, rfl, hsign, hrun⟩
    · split
      · next hsign => exact scanRadix_reads fun run hrun => ⟨d, run, rfl, hsign, hrun⟩
      · exact scanDecimal_reads hc _
  · exact scanDecimal_reads hc rest

theorem closingLength_bounds {delimiter : Char} {n m : Nat} {text : List Char}
    (h : closingLength delimiter n text = some m) : n < m ∧ m ≤ n + text.length := by
  fun_induction closingLength delimiter n text with
  | case1 => cases h
  | case2 n =>
      cases h
      exact ⟨Nat.lt_succ_self n, Nat.le_refl _⟩
  | case3 => cases h
  | case4 n d rest =>
      cases h
      simp only [List.length_cons]
      omega
  | case5 n c d rest hc hescaped ih =>
      have hbounds := ih h
      simp only [List.length_cons]
      omega
  | case6 n c d rest hc hescaped ih =>
      have hbounds := ih h
      simp only [List.length_cons] at hbounds ⊢
      omega

theorem scanQuoted_reads {delimiter : Char} {kind : Kind} {unterminated : LexicalFault}
    {rest : List Char} (hinvalid : kind ≠ .invalid) (hend : kind ≠ .endOfFile)
    (h : unterminated.Explains (delimiter :: rest) []) :
    (scanQuoted delimiter kind unterminated rest).Reads (delimiter :: rest) := by
  have hlength : (delimiter :: rest).length = 1 + rest.length := by
    rw [List.length_cons, Nat.add_comm]
  unfold scanQuoted
  split
  · next n hclosing =>
    have hbounds := closingLength_bounds hclosing
    exact .token (by omega) (by omega) hinvalid hend
  · refine .fault (by omega) (Nat.le_of_eq hlength.symm) ?_
    rw [← hlength, List.take_length, List.drop_length]
    exact h

/-- A text that starts with a character of a mark or an operator starts with a mark or an operator. -/
theorem exists_symbol {c : Char} (hc : isSymbolChar c = true) (rest : List Char) :
    ∃ entry, symbolTable.find? (fun entry => entry.1.isPrefixOf (c :: rest)) = some entry := by
  have htable : (symbolTable.all fun entry => entry.1.all fun d =>
      symbolTable.any fun entry' => entry'.1 == [d]) = true := by decide +kernel
  obtain ⟨entry, hentry, hd⟩ := List.any_eq_true.mp hc
  have halone := List.all_eq_true.mp htable entry hentry
  obtain ⟨entry', hentry', heq⟩ :=
    List.any_eq_true.mp (List.all_eq_true.mp halone c (List.contains_iff_mem.mp hd))
  refine Option.isSome_iff_exists.mp (List.find?_isSome.mpr ⟨entry', hentry', ?_⟩)
  rw [beq_iff_eq.mp heq]
  simp

theorem scanSymbol_reads {c : Char} {rest : List Char}
    (h : isSymbolChar c = false → isStray c = true) :
    (scanSymbol (c :: rest)).Reads (c :: rest) := by
  have htable : ∀ entry ∈ symbolTable,
      0 < entry.1.length ∧ entry.2 ≠ .invalid ∧ entry.2 ≠ .endOfFile := by decide
  rw [scanSymbol_eq_longestSymbol]
  unfold longestSymbol
  split
  · next spelling kind hfind =>
    obtain ⟨hpos, hinvalid, hend⟩ := htable _ (List.mem_of_find?_eq_some hfind)
    have hfits := List.find?_some hfind
    exact .token hpos (List.isPrefixOf_iff_prefix.mp hfits).length_le hinvalid hend
  · next hnone =>
    refine .fault Nat.one_pos (by simp) ⟨c, rfl, h ?_⟩
    cases hsymbol : isSymbolChar c with
    | false => rfl
    | true =>
        obtain ⟨entry, hentry⟩ := exists_symbol hsymbol rest
        rw [hnone] at hentry
        cases hentry

/-- Whatever a text starts with apart from a blank, something is scanned. -/
theorem scan_reads {c : Char} (hc : Gap.isBlank c = false) (rest : List Char) :
    (scan c rest).Reads (c :: rest) := by
  unfold scan
  split
  · next hword => exact scanWord_reads hword rest
  · next hword =>
    split
    · next hdigit => exact scanNumber_reads hdigit rest
    · next hdigit =>
      split
      · next hquote =>
        subst hquote
        exact scanQuoted_reads (by simp) (by simp) ⟨rfl, rfl⟩
      · next hquote =>
        split
        · next hquote' =>
          subst hquote'
          exact scanQuoted_reads (by simp) (by simp) ⟨rfl, rfl⟩
        · next hquote' =>
          refine scanSymbol_reads fun hsymbol => ?_
          simp [isStray, hc, hword, hdigit, hquote, hquote', hsymbol]

/-! ## The next token

The text at a cursor is cut in three: the gap, the text of the token, and what is left. The
positions of the token and of the cursor behind it are those that the first two lead to. -/

namespace Cursor

/-- The number of characters in front of the next token. -/
def gapLength (c : Cursor) : Nat :=
  match gap c.rest with
  | .closed n => n
  | .unclosed start => start

/-- The number of characters of the next token. -/
def tokenLength (c : Cursor) : Nat :=
  match gap c.rest with
  | .closed n =>
    match c.rest.drop n with
    | [] => 0
    | first :: rest => (scan first rest).length
  | .unclosed start => (c.rest.drop start).length

/-- The gap in front of the next token. -/
def gapText (c : Cursor) : List Char := c.rest.take c.gapLength

/-- The text of the next token. -/
def ownText (c : Cursor) : List Char := (c.rest.drop c.gapLength).take c.tokenLength

variable (c : Cursor)

/-- The cursor behind the next token stands behind the gap and the text of the token. -/
theorem next_snd : c.next.2 = (c.skip c.gapLength).skip c.tokenLength := by
  unfold next gapLength tokenLength
  cases hgap : gap c.rest with
  | unclosed start => rfl
  | closed n =>
      dsimp only
      cases hrest : (c.skip n).rest with
      | nil =>
          have hdrop : c.rest.drop n = [] := hrest
          rw [hdrop]
          rfl
      | cons first rest =>
          have hdrop : c.rest.drop n = first :: rest := hrest
          rw [hdrop]

/-- What is left of the text falls into three parts. -/
theorem rest_eq : c.rest = c.gapText ++ (c.ownText ++ c.next.2.rest) := by
  rw [next_snd, skip, gapText, ownText]
  dsimp only [skip]
  rw [List.take_append_drop, List.take_append_drop]

/-- The token stands behind the gap. -/
theorem next_position : c.next.1.position = c.position.after c.gapText := by
  unfold next gapText gapLength
  cases hgap : gap c.rest with
  | unclosed start => rfl
  | closed n =>
      dsimp only
      split
      · rfl
      · rw [token]
        split
        · rfl
        · rfl

theorem behind_position : c.next.2.position = c.position.after (c.gapText ++ c.ownText) := by
  rw [next_snd, Position.after_append]
  rfl

/-- The gap is part of the text. -/
theorem gapText_length : c.gapText.length = c.gapLength := by
  obtain ⟨own, behind, heq, -, hends⟩ := gap_trivia c.rest
  have hle : own.length ≤ c.rest.length := by
    rw [heq, List.length_append]
    exact Nat.le_add_right _ _
  have hgap : c.gapLength = own.length := by
    unfold gapLength
    generalize gap c.rest = g at hends
    cases hends with
    | closed | unclosed => rfl
  rw [gapText, List.length_take, hgap]
  exact Nat.min_eq_left hle

/-- The gap in front of the next token consists of blanks and comments, and what is behind it does not
start with a blank. -/
theorem gapText_trivia :
    Trivia (c.ownText ++ c.next.2.rest) c.gapText ∧ StartsSolid (c.ownText ++ c.next.2.rest) := by
  obtain ⟨own, behind, heq, htrivia, hends⟩ := gap_trivia c.rest
  have hgap : c.gapText = own ∧ StartsSolid behind := by
    unfold gapText gapLength
    generalize gap c.rest = g at hends
    cases hends with
    | closed hplain =>
        exact ⟨by rw [heq, List.take_left], startsSolid_of_startsGap hplain⟩
    | unclosed hopens => exact ⟨by rw [heq, List.take_left], hopens.startsSolid⟩
  have hbehind : c.ownText ++ c.next.2.rest = behind := by
    have hrest := c.rest_eq
    rw [hgap.1, heq] at hrest
    exact (List.append_cancel_left hrest).symm
  rw [hgap.1, hbehind]
  exact ⟨htrivia, hgap.2⟩

/-- The next token is read from its text. -/
theorem next_covers : c.next.1.Covers c.next.2.rest c.ownText := by
  have hsolid := c.gapText_trivia.2
  have hrest := c.rest_eq
  obtain ⟨own, behind, heq, -, hends⟩ := gap_trivia c.rest
  unfold ownText tokenLength gapLength
  rw [next_snd]
  unfold next tokenLength gapLength
  cases hgap : gap c.rest with
  | unclosed start =>
      rw [hgap] at hends
      cases hends with
      | unclosed hopens =>
          dsimp only [skip]
          rw [heq, List.drop_left, List.take_length, List.drop_length]
          obtain ⟨sign, rest, hsign, rfl⟩ := hopens
          exact .invalid (List.cons_ne_nil _ _) ⟨⟨sign, rest, hsign, rfl⟩, rfl⟩
  | closed n =>
      rw [hgap] at hends
      cases hends with
      | closed hplain =>
          have hsolid := startsSolid_of_startsGap hplain
          dsimp only [skip]
          rw [heq, List.drop_left]
          cases behind with
          | nil => exact .endOfFile (by simp)
          | cons first rest =>
              -- each scanner takes a character at least, and says what its token or fault has read
              obtain ⟨hpos, hle, hvalid, hexplained⟩ := scan_reads (hsolid first rfl) rest
              have hown : (first :: rest).take (scan first rest).length ≠ [] := by
                rw [Ne, List.take_eq_nil_iff, not_or]
                exact ⟨Nat.ne_of_gt hpos, List.cons_ne_nil _ _⟩
              dsimp only [token]
              cases houtcome : (scan first rest).outcome with
              | ok kind => exact .valid hown (hvalid kind houtcome).1 (hvalid kind houtcome).2
              | error fault => exact .invalid hown (hexplained fault houtcome)

end Cursor

/-! ## What a token is read from

The text of a token decides the token: valid ones have it as their lexeme, and a fault is known by
its message. -/

theorem LexicalFault.message_injective : Function.Injective message := by
  intro fault fault' h
  revert h
  cases fault <;> cases fault' <;> decide

namespace Token.Covers

variable {behind own : List Char} {t : Token}

/-- Only the end of the file takes no text. -/
theorem own_eq_nil_iff (h : t.Covers behind own) : own = [] ↔ t.kind = .endOfFile := by
  cases h with
  | valid hown _ hend => exact ⟨fun he => absurd he hown, fun he => absurd he hend⟩
  | invalid hown => exact ⟨fun he => absurd he hown, nofun⟩
  | endOfFile => exact ⟨fun _ => rfl, fun _ => rfl⟩

/-- Nothing is left behind the end of the file. -/
theorem behind_eq_nil (h : t.Covers behind own) (hend : t.kind = .endOfFile) : behind = [] := by
  cases h with
  | valid _ _ hkind => exact absurd hend hkind
  | invalid => cases hend
  | endOfFile hbehind => exact hbehind

theorem eq_endOfFile (h : t.Covers behind own) (hend : t.kind = .endOfFile) :
    t = .endOfFile t.position := by
  cases h with
  | valid _ _ hkind => exact absurd hend hkind
  | invalid => cases hend
  | endOfFile => rfl

/-- A token that is not invalid is its text. -/
theorem lexeme_eq (h : t.Covers behind own) (hvalid : t.kind ≠ .invalid) :
    t.lexeme = String.ofList own := by
  cases h with
  | valid => rfl
  | invalid => exact absurd rfl hvalid
  | endOfFile => rfl

/-- The text of an invalid token explains its fault. -/
theorem explains (h : t.Covers behind own) {fault : LexicalFault} {p : Position}
    (ht : t = .invalid fault p) : fault.Explains own behind := by
  cases h with
  | valid _ hinvalid => exact absurd (congrArg Token.kind ht) hinvalid
  | endOfFile => cases congrArg Token.kind ht
  | invalid _ hfault =>
      rw [← LexicalFault.message_injective (congrArg Token.lexeme ht)]
      exact hfault

end Token.Covers

/-! ## Streams

A stream was read with as much fuel as there are characters. Every token takes one of these, so more
fuel gives the same stream, and the fuel can be forgotten. -/

namespace Cursor

/-- At the end of a text nothing changes any more. -/
theorem next_of_nil {c : Cursor} (h : c.rest = []) : c.next = (.endOfFile c.position, c) := by
  obtain ⟨rest, p⟩ := c
  obtain rfl : rest = [] := h
  rfl

/-- Behind the last token the same token is found again and again. -/
theorem next_next {c : Cursor} (h : c.next.1.kind = .endOfFile) : c.next.2.next = c.next := by
  have hcovers := c.next_covers
  have hown := hcovers.own_eq_nil_iff.mpr h
  have hrest := hcovers.behind_eq_nil h
  have hposition : c.next.2.position = c.next.1.position := by
    rw [behind_position, next_position, hown, List.append_nil]
  rw [next_of_nil hrest, hposition, ← hcovers.eq_endOfFile h]

/-- Every other token takes a character. -/
theorem next_lt {c : Cursor} (h : c.next.1.kind ≠ .endOfFile) :
    c.next.2.rest.length < c.rest.length := by
  have hown : c.ownText ≠ [] := fun he => h (c.next_covers.own_eq_nil_iff.mp he)
  have hpos := List.length_pos_iff.mpr hown
  have hlength := congrArg List.length c.rest_eq
  rw [List.length_append, List.length_append] at hlength
  omega

end Cursor

namespace Stream

/-- More fuel than characters changes nothing. -/
theorem upTo_eq {fuel : Nat} {c : Cursor} (h : c.rest.length < fuel) : upTo fuel c = ofCursor c := by
  suffices key : ∀ fuel (c : Cursor), c.rest.length < fuel → upTo (fuel + 1) c = upTo fuel c by
    rw [ofCursor]
    induction h with
    | refl => rfl
    | step hle ih => rw [key _ c hle, ih]
  intro fuel
  induction fuel with
  | zero => exact fun c hlt => absurd hlt (Nat.not_lt_zero _)
  | succ fuel ih =>
      intro c hlt
      rw [upTo, upTo]
      dsimp only
      split
      · rfl
      · next hend =>
        have hnext := Cursor.next_lt hend
        rw [ih c.next.2 (by omega)]

/-- A stream is its first token and the stream behind it. -/
theorem ofCursor_eq (c : Cursor) :
    ofCursor c =
      if c.next.1.kind = .endOfFile then ⟨[], c.next.1⟩ else cons c.next.1 (ofCursor c.next.2) := by
  rw [ofCursor, upTo]
  dsimp only
  split
  · rfl
  · next hend => rw [upTo_eq (Cursor.next_lt hend)]

theorem ofCursor_end {c : Cursor} (h : c.next.1.kind = .endOfFile) :
    ofCursor c = ⟨[], c.next.1⟩ := by rw [ofCursor_eq, if_pos h]

theorem ofCursor_cons {c : Cursor} (h : c.next.1.kind ≠ .endOfFile) :
    ofCursor c = cons c.next.1 (ofCursor c.next.2) := by rw [ofCursor_eq, if_neg h]

end Stream

end FrontEnd
