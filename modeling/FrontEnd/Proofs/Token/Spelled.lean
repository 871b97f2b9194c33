import FrontEnd.Proofs.Token.Lexemes
import FrontEnd.Grammar.Expression
import FrontEnd.Text.Quoted
import Mathlib.Data.List.Chain
import Mathlib.Data.List.Find

set_option autoImplicit false

/-! # Lexemes that scan

Words, marks and operators, decimal numbers and quoted literals are all found in front of a space.
For a literal this needs that every delimiter in it stands behind a backslash, and that none stands
at its end. Numbers and characters can be read back from their texts.

In front of a space no scanner goes on, so what it finds is a matter of the text alone. For words,
marks and operators this is checked against the tables; numbers are known by their digits, and for
literals the search for the closing delimiter is followed through the text.
-/

namespace FrontEnd

/-! ## Gaps

A lexeme is read where it stands if no gap starts with it, and if the gap in front of it ends there.
A space behind it is all that is known of what follows. -/

/-- The character at the start of a text begins neither a blank nor a comment. So a token starts
there, be it valid or not. -/
def startsToken : List Char → Bool
  | [] => false
  | c :: rest =>
    !Gap.isBlank c && (c != '/' || rest.head?.all fun d => d != '/' && !Gap.isCommentSign d)

theorem gap_scan {text rest : List Char} (h : startsToken text) (hrest : Apart rest) (n : Nat) :
    Gap.scan .blank n (text ++ rest) = .closed n := by
  cases text with
  | nil => cases h
  | cons c text =>
      rw [startsToken, Bool.and_eq_true, Bool.not_eq_true'] at h
      obtain ⟨hblank, hslash⟩ := h
      cases hmore : text ++ rest with
      | nil => simp [hmore, Gap.scan, hblank]
      | cons d more =>
          rw [List.cons_append, hmore, Gap.scan, if_neg (by simp [hblank])]
          split
          · next hc =>
            subst hc
            have hd : d ≠ '/' ∧ Gap.isCommentSign d = false := by
              cases text with
              | nil =>
                  have hspace := hrest d (by rw [← List.nil_append rest, hmore]; rfl)
                  subst hspace
                  decide
              | cons d' text =>
                  obtain ⟨rfl, -⟩ := List.cons.inj hmore
                  simpa using hslash
            rw [if_neg hd.1, if_neg (by simp [hd.2])]
          · rfl

/-- A class of characters that holds neither blanks nor the slash. -/
theorem startsToken_of_class {p : Char → Bool} {c : Char} {text : List Char}
    (hp : [' ', '\t', '\r', '\n', '/'].all fun d => !p d) (hc : p c) : startsToken (c :: text) := by
  have hne {d : Char} (hd : d ∈ [' ', '\t', '\r', '\n', '/']) : c ≠ d := by
    rintro rfl
    have := List.all_eq_true.mp hp c hd
    rw [hc] at this
    cases this
  rw [startsToken, Gap.isBlank]
  simp [hne]

theorem takeWhile_append_apart {p : Char → Bool} {text rest : List Char} (h : ∀ c ∈ text, p c)
    (hspace : p ' ' = false) (hrest : Apart rest) : (text ++ rest).takeWhile p = text := by
  rw [List.takeWhile_append_of_pos h]
  cases rest with
  | nil => simp
  | cons c rest =>
      obtain rfl := hrest c rfl
      simp [hspace]

/-! ## Words

A word is read up to the first character that belongs to no word, and a space is such a character.
What is left to ask is whether the word is reserved. -/

/-- A text that is read as a word: its first character starts a word, and all belong to one. -/
def isWordText (text : List Char) : Bool := text.head?.any isWordStart && text.all isWordChar

/-- A text that is read as an identifier. -/
def isName (name : String) : Bool :=
  isWordText name.toList && wordKind name.toList == .identifier

/-- A word is found, with its kind. -/
theorem scans_word (text : String) (h : isWordText text.toList)
    (hkind : (wordKind text.toList).isWord) : Lexeme.Scans ⟨wordKind text.toList, text⟩ := by
  rw [isWordText, Bool.and_eq_true, List.all_eq_true] at h
  obtain ⟨hstart, hchars⟩ := h
  have hne (kind : Kind) (hk : kind.isWord = false) : wordKind text.toList ≠ kind := by
    rintro rfl
    rw [hkind] at hk
    cases hk
  have hinner := hne .endOfFile rfl
  have hvalid := hne .invalid rfl
  cases htext : text.toList with
  | nil => rw [htext] at hstart; cases hstart
  | cons c cs =>
      rw [htext] at hstart hchars hinner hvalid
      have hc : isWordStart c := by simpa using hstart
      refine ⟨hinner, hvalid, ?_, fun n rest hrest => gap_scan ?_ hrest n, c, cs, htext,
        fun rest hrest => ?_⟩
      · dsimp only
        rw [htext]
        exact noCrLf_of_not_mem fun hr => absurd (hchars _ hr) (by decide)
      · dsimp only
        rw [htext]
        exact startsToken_of_class (by decide) hc
      · rw [scan, if_pos hc, scanWord, ← List.cons_append,
          takeWhile_append_apart hchars (by decide) hrest, htext]

theorem scans_name {name : String} (h : isName name) : Lexeme.Scans ⟨.identifier, name⟩ := by
  rw [isName, Bool.and_eq_true, beq_iff_eq] at h
  have hscans := scans_word name h.1 (by rw [h.2]; rfl)
  rwa [h.2] at hscans

/-! ## Fixed spellings

Words, marks, operators and steps have one spelling each. That the scanners find them is a matter of
finitely many kinds, once it is known that a space ends each of them. -/

/-- The lexeme of a kind with a spelling of its own. -/
def Lexeme.fixed (kind : Kind) : Lexeme := ⟨kind, kind.spelling⟩

/-- The reserved words are words, each of its own kind. -/
theorem wordKind_reserved (kind : Kind) (h : kind.isReserved = true) :
    isWordText kind.spelling.toList ∧ wordKind kind.spelling.toList = kind := by
  have hmem : (kind.spelling, kind) ∈ reservedWords := mem_reservedWords.mpr ⟨h, rfl⟩
  have htable : ∀ entry ∈ reservedWords, isWordText entry.1.toList := by decide
  exact ⟨htable (kind.spelling, kind) hmem, wordKind_of_mem hmem⟩

theorem wordKind_keyword (w : Keyword) :
    isWordText w.spelling.toList ∧ wordKind w.spelling.toList = .word w :=
  wordKind_reserved (.word w) rfl

theorem wordKind_builtin (b : BuiltinType) :
    isWordText b.spelling.toList ∧ wordKind b.spelling.toList = .builtin b :=
  wordKind_reserved (.builtin b) rfl

theorem scans_keyword (w : Keyword) : (Lexeme.fixed (.word w)).Scans := by
  obtain ⟨htext, hkind⟩ := wordKind_keyword w
  have hscans := scans_word w.spelling htext (by rw [hkind]; rfl)
  rwa [hkind] at hscans

theorem scans_builtin (b : BuiltinType) : (Lexeme.fixed (.builtin b)).Scans := by
  obtain ⟨htext, hkind⟩ := wordKind_builtin b
  have hscans := scans_word b.spelling htext (by rw [hkind]; rfl)
  rwa [hkind] at hscans

/-- What follows a text does not matter to a table without spaces. -/
theorem isPrefixOf_append_apart {entry text rest : List Char} (h : ' ' ∉ entry)
    (hrest : Apart rest) : entry.isPrefixOf (text ++ rest) = entry.isPrefixOf text := by
  induction entry generalizing text with
  | nil => rfl
  | cons c entry ih =>
      rw [List.mem_cons, not_or] at h
      obtain ⟨hc, hentry⟩ := h
      cases text with
      | nil =>
          cases rest with
          | nil => rfl
          | cons d rest =>
              obtain rfl := hrest d rfl
              rw [List.nil_append, List.isPrefixOf_cons_cons, beq_false_of_ne (Ne.symm hc)]
              rfl
      | cons d text =>
          rw [List.cons_append, List.isPrefixOf_cons_cons, List.isPrefixOf_cons_cons, ih hentry]

/-- A mark or an operator is found, although others start with the same signs. -/
theorem scans_symbol {kind : Kind} (h : kind ∈ symbolKinds) : (Lexeme.fixed kind).Scans := by
  have htable : ∀ k ∈ symbolKinds, k ≠ .endOfFile ∧ k ≠ .invalid ∧ '\r' ∉ k.spelling.toList ∧
      startsToken k.spelling.toList ∧
      (k.spelling.toList.head?.all fun c =>
        !isWordStart c && !c.isDigit && c != '"' && c != '\'') ∧
      symbolTable.find? (fun entry => entry.1.isPrefixOf k.spelling.toList) =
        some (k.spelling.toList, k) := by decide
  -- no symbol holds a space, so what follows a space cannot make it match
  have hspace : ∀ entry ∈ symbolTable, ' ' ∉ entry.1 := by decide
  obtain ⟨hinner, hvalid, hlines, htoken, hfirst, hfind⟩ := htable kind h
  have hfind' {rest : List Char} (hrest : Apart rest) :
      symbolTable.find? (fun entry => entry.1.isPrefixOf (kind.spelling.toList ++ rest)) =
        some (kind.spelling.toList, kind) := by
    rw [← hfind]
    exact List.find?_congr fun entry hentry => isPrefixOf_append_apart (hspace entry hentry) hrest
  cases htext : kind.spelling.toList with
  | nil => rw [htext] at htoken; cases htoken
  | cons c cs =>
      rw [htext] at hfirst
      refine ⟨hinner, hvalid, noCrLf_of_not_mem hlines,
        fun n rest hrest => gap_scan htoken hrest n, c, cs, htext, fun rest hrest => ?_⟩
      have hfirst' : isWordStart c = false ∧ c.isDigit = false ∧ c ≠ '"' ∧ c ≠ '\'' := by
        simpa [and_assoc] using hfirst
      obtain ⟨hword, hdigit, hquote, hquote'⟩ := hfirst'
      have hf := hfind' hrest
      rw [htext, List.cons_append] at hf
      rw [scan, if_neg (by simp [hword]), if_neg (by simp [hdigit]), if_neg hquote,
        if_neg hquote', scanSymbol_eq_longestSymbol, longestSymbol, hf, Lexeme.fixed, htext]

theorem scans_fixed {kind : Kind} (h : kind.isFixed) : (Lexeme.fixed kind).Scans := by
  cases kind with
  | word w => exact scans_keyword w
  | builtin b => exact scans_builtin b
  | mark m => exact scans_symbol (by cases m <;> decide)
  | operator op =>
      refine scans_symbol ?_
      cases op with
      | add o | sub o | mul o | shl o | addAssign o | subAssign o | mulAssign o | shlAssign o =>
          cases o <;> decide
      | _ => decide
  | step step overflow => exact scans_symbol (by cases step <;> cases overflow <;> decide)
  | _ => cases h

/-! ## Numbers

Numbers are written in decimal digits without a sign. They are read as they are written: the digits
of a number, read from the left, give the number again. -/

/-- A digit is none of the characters that are no digits. -/
theorem ne_of_isDigit {c d : Char} (h : c.isDigit) (hd : d.isDigit = false) : c ≠ d := by
  rintro rfl
  rw [h] at hd
  cases hd

theorem beq_of_isDigit {c d : Char} (h : c.isDigit) (hd : d.isDigit = false) : (c == d) = false :=
  beq_false_of_ne (ne_of_isDigit h hd)

/-- Digits and underscores announce no base. -/
theorem not_baseSign {c : Char} (h : (c.isDigit || c == '_') = true) :
    isHexSign c = false ∧ isOctalSign c = false := by
  rcases Bool.or_eq_true_iff.mp h with hdigit | hunderscore
  · simp [isHexSign, isOctalSign, beq_of_isDigit hdigit]
  · rw [beq_iff_eq.mp hunderscore]
    decide

/-- No digit makes a number a floating-point number. -/
theorem not_any_isFloatSign {digits : List Char} (h : ∀ c ∈ digits, c.isDigit) :
    digits.any Numeral.isFloatSign = false := by
  refine List.any_eq_false.mpr fun c hc => ?_
  simp [Numeral.isFloatSign, beq_of_isDigit (h c hc)]

theorem not_isWordStart_of_isDigit {c : Char} (h : c.isDigit) : isWordStart c = false := by
  have hdigits : ∀ n < 58, 48 ≤ n → isWordStart (Char.ofNat n) = false := by decide
  obtain ⟨hlow, hhigh⟩ := Char.isDigit_iff_toNat.mp h
  rw [← Char.ofNat_toNat c]
  exact hdigits c.toNat (Nat.lt_succ_of_le hhigh) hlow

/-- Digits are found as a decimal number. -/
theorem scanDecimal_digits {digits rest : List Char} (h : ∀ c ∈ digits, c.isDigit)
    (hrest : Apart rest) : scanDecimal (digits ++ rest) = .token .number digits.length := by
  have hrun : digitRun Char.isDigit (digits ++ rest) = digits :=
    takeWhile_append_apart (fun c hc => by rw [h c hc]; rfl) (by decide) hrest
  rw [scanDecimal, hrun, List.drop_left]
  cases rest with
  | nil =>
      rw [fractionLength, Nat.add_zero, List.append_nil, List.drop_length, scanExponent]
      simp
  | cons c rest =>
      obtain rfl := hrest c rfl
      rw [fractionLength, Nat.add_zero, List.drop_left, scanExponent, if_neg (by decide)]
      simp

/-- Digits and spaces announce no other base. -/
theorem no_base_sign {digits rest : List Char} (h : ∀ c ∈ digits, c.isDigit) (hrest : Apart rest) :
    ∀ c ∈ (digits ++ rest).head?, isHexSign c = false ∧ isOctalSign c = false := by
  intro c hc
  cases digits with
  | nil =>
      obtain rfl := hrest c hc
      decide
  | cons d digits =>
      obtain rfl : d = c := Option.some.inj hc
      exact not_baseSign (by rw [h d List.mem_cons_self]; rfl)

theorem scanNumber_digits {digits rest : List Char} (h : ∀ c ∈ digits, c.isDigit)
    (hrest : Apart rest) : scanNumber (digits ++ rest) = .token .number digits.length := by
  unfold scanNumber
  split
  · next c more heq =>
    -- a zero in front of another digit, or of a space
    have hsigns : isHexSign c = false ∧ isOctalSign c = false := by
      cases digits with
      | nil =>
          have hspace := hrest '0' (by rw [List.nil_append] at heq; rw [heq]; rfl)
          exact absurd hspace (by decide)
      | cons d digits =>
          rw [List.cons_append] at heq
          obtain ⟨-, hmore⟩ := List.cons.inj heq
          exact no_base_sign (fun c hc => h c (List.mem_cons_of_mem _ hc)) hrest c
            (by rw [hmore]; rfl)
    rw [if_neg (by rw [hsigns.1]; simp), if_neg (by rw [hsigns.2]; simp), ← heq]
    exact scanDecimal_digits h hrest
  · exact scanDecimal_digits h hrest

theorem toList_toString (n : Nat) : (toString n).toList = Nat.toDigits 10 n := by
  rw [Nat.toString_eq_ofList_toDigits, String.toList_ofList]

theorem isDigit_toString (n : Nat) : ∀ c ∈ (toString n).toList, c.isDigit := by
  rw [toList_toString]
  exact fun c hc => Nat.isDigit_of_mem_toDigits (by decide) (by decide) hc

/-- A decimal number is found. -/
theorem scans_number (n : Nat) : Lexeme.Scans ⟨.number, toString n⟩ := by
  have hdigits := isDigit_toString n
  cases htext : (toString n).toList with
  | nil =>
      rw [toList_toString] at htext
      exact absurd htext Nat.toDigits_ne_nil
  | cons c cs =>
      rw [htext] at hdigits
      have hc := hdigits c List.mem_cons_self
      refine ⟨by simp, by simp, ?_, fun n rest hrest => gap_scan ?_ hrest n, c, cs, htext,
        fun rest hrest => ?_⟩
      · dsimp only
        rw [htext]
        exact noCrLf_of_not_mem fun hr => absurd (hdigits _ hr) (by decide)
      · dsimp only
        rw [htext]
        exact startsToken_of_class (by decide) hc
      · rw [scan, if_neg (by rw [not_isWordStart_of_isDigit hc]; simp), if_pos hc,
          ← List.cons_append, scanNumber_digits hdigits hrest, htext]

/-- Digits have values. -/
theorem digitValue?_of_isDigit {c : Char} (h : c.isDigit) :
    digitValue? c = some (c.toNat - '0'.toNat) ∧ c.toNat - '0'.toNat < 10 := by
  simp only [Char.isDigit, Bool.and_eq_true, decide_eq_true_eq, ge_iff_le] at h
  have hrange : '0' ≤ c ∧ c ≤ '9' := h
  have hnine : c.toNat ≤ '9'.toNat := h.2
  have hvalue : '9'.toNat = 57 ∧ '0'.toNat = 48 := ⟨rfl, rfl⟩
  rw [digitValue?, if_pos hrange]
  exact ⟨rfl, by omega⟩

theorem appendDigits?_digits {digits : List Char} (h : ∀ c ∈ digits, c.isDigit) (n : Nat) :
    appendDigits? 10 n digits = some (Nat.ofDigitChars 10 digits n) := by
  induction digits generalizing n with
  | nil => rw [appendDigits?, Nat.ofDigitChars_nil]
  | cons c digits ih =>
      obtain ⟨hvalue, hlt⟩ := digitValue?_of_isDigit (h c List.mem_cons_self)
      rw [appendDigits?, hvalue]
      dsimp only
      rw [if_pos hlt, ih fun c hc => h c (List.mem_cons_of_mem _ hc), Nat.ofDigitChars_cons,
        Nat.mul_comm]

theorem splitBase_digits {digits : List Char} (h : ∀ c ∈ digits, c.isDigit) :
    Numeral.splitBase digits = none := by
  unfold Numeral.splitBase
  split
  · next c rest =>
    have hc : c.isDigit := h c (by simp)
    have hne {d : Char} (hd : d.isDigit = false) : c ≠ d := ne_of_isDigit hc hd
    rw [if_neg (by simp [hne]), if_neg (by simp [hne])]
  · rfl

theorem readNatural?_digits {digits : List Char} (hne : digits ≠ [])
    (h : ∀ c ∈ digits, c.isDigit) :
    readNatural? 10 digits = some (Nat.ofDigitChars 10 digits 0) := by
  unfold readNatural?
  split
  · exact absurd rfl hne
  · exact absurd (h '+' List.mem_cons_self) (by decide)
  · exact appendDigits?_digits h 0

/-- The value of a decimal number that fits. -/
theorem numeral?_toString {t : Token} {n : Nat} (hk : t.kind = .number)
    (htext : t.lexeme = toString n) (hn : n < UInt64.size) : t.numeral? = some (.int n.toUInt64) := by
  have hdigits := isDigit_toString n
  have hne : (toString n).toList ≠ [] := by
    rw [toList_toString]
    exact Nat.toDigits_ne_nil
  have hfilter : (toString n).toList.filter (· != '_') = (toString n).toList := by
    refine List.filter_eq_self.mpr fun c hc => ?_
    rw [bne_iff_ne]
    exact ne_of_isDigit (hdigits c hc) rfl
  have hvalue : Nat.ofDigitChars 10 (toString n).toList 0 = n := by
    rw [toList_toString]
    exact Nat.ofDigitChars_toDigits (by decide) (by decide)
  rw [Token.numeral?, hk]
  dsimp only
  rw [htext, Numeral.ofText?, hfilter, Numeral.ofChars?, splitBase_digits hdigits]
  dsimp only
  rw [not_any_isFloatSign hdigits, if_neg Bool.false_ne_true, readNatural?_digits hne hdigits,
    hvalue]
  exact if_pos hn

/-! ## Quoted literals

A text may stand between quotes if the scanner finds its end where it is. Escapes need not be known
for this, only the delimiters and the backslashes. -/

/-- A text that can stand between delimiters: each delimiter in it stands behind a backslash, and no
backslash stands in front of the one that closes it. -/
structure IsQuotable (delimiter : Char) (text : List Char) : Prop where
  inner : List.IsChain (fun c d => d = delimiter → c = '\\') (delimiter :: text)
  last : text.getLast? ≠ some '\\'

/-- The delimiter behind a quotable text closes it. -/
theorem closingLength_quotable {delimiter : Char} {text : List Char} (rest : List Char) (n : Nat)
    (hhead : text.head? ≠ some delimiter)
    (hinner : text.IsChain fun c d => d = delimiter → c = '\\')
    (hlast : text.getLast? ≠ some '\\') :
    closingLength delimiter n (text ++ delimiter :: rest) = some (n + text.length + 1) := by
  -- a backslash is read together with a delimiter behind it, so two characters are taken at once
  match text with
  | [] =>
      cases rest with
      | nil => rw [List.nil_append, closingLength, if_pos rfl]; rfl
      | cons d rest => rw [List.nil_append, closingLength, if_pos rfl]; rfl
  | [c] =>
      have hc : c ≠ delimiter := fun h => hhead (by rw [h]; rfl)
      have hslash : c ≠ '\\' := fun h => hlast (by rw [h]; rfl)
      rw [List.cons_append, List.nil_append, closingLength, if_neg hc,
        if_neg fun h => hslash h.1]
      have hempty : ([] : List Char).head? ≠ some delimiter := by simp
      exact closingLength_quotable rest (n + 1) hempty .nil (by simp)
  | c :: d :: text =>
      have hc : c ≠ delimiter := fun h => hhead (by rw [h]; rfl)
      obtain ⟨hcd, hmore⟩ := List.isChain_cons_cons.mp hinner
      have hlast' : (d :: text).getLast? ≠ some '\\' := by
        rwa [List.getLast?_cons_cons] at hlast
      rw [List.cons_append, List.cons_append, closingLength, if_neg hc]
      split
      · next hpair =>
        -- the pair is a backslash and a delimiter, so no delimiter follows
        have hd : d ≠ '\\' := by
          rintro rfl
          exact hc (hpair.1.trans hpair.2)
        have hnext : text.head? ≠ some delimiter := by
          intro h
          cases text with
          | nil => cases h
          | cons e text =>
              obtain rfl := Option.some.inj h
              exact hd ((List.isChain_cons_cons.mp hmore).1 rfl)
        have hlast'' : text.getLast? ≠ some '\\' := by
          cases text with
          | nil => simp
          | cons e text => rwa [List.getLast?_cons_cons] at hlast'
        rw [closingLength_quotable rest (n + 2) hnext hmore.of_cons hlast'']
        simp only [List.length_cons, Option.some.injEq]
        omega
      · next hpair =>
        have hd : (d :: text).head? ≠ some delimiter := by
          intro h
          obtain rfl := Option.some.inj h
          exact hpair ⟨hcd rfl, rfl⟩
        rw [← List.cons_append, closingLength_quotable rest (n + 1) hd hmore hlast']
        simp only [List.length_cons, Option.some.injEq]
        omega

/-- A quotable text between delimiters is found as a literal. -/
theorem scanQuoted_quotable {delimiter : Char} {text : List Char} (h : IsQuotable delimiter text)
    (hdelimiter : delimiter ≠ '\\') (kind : Kind) (unterminated : LexicalFault)
    (rest : List Char) :
    scanQuoted delimiter kind unterminated (text ++ delimiter :: rest) =
      .token kind (delimiter :: (text ++ [delimiter])).length := by
  have hhead : text.head? ≠ some delimiter := by
    intro hhead
    cases text with
    | nil => cases hhead
    | cons c text =>
        obtain rfl := Option.some.inj hhead
        exact hdelimiter ((List.isChain_cons_cons.mp h.inner).1 rfl)
  rw [scanQuoted, closingLength_quotable rest 1 hhead h.inner.of_cons h.last]
  simp only [List.length_cons, List.length_append, List.length_nil]
  congr 1
  omega

/-- A text with a quote on either side. -/
def quoted (delimiter : Char) (text : List Char) : String :=
  String.ofList (delimiter :: (text ++ [delimiter]))

@[simp] theorem toList_quoted (delimiter : Char) (text : List Char) :
    (quoted delimiter text).toList = delimiter :: (text ++ [delimiter]) := String.toList_ofList

theorem withoutDelimiters_quoted (delimiter : Char) (text : List Char) :
    Grammar.withoutDelimiters (quoted delimiter text) = text := by
  rw [Grammar.withoutDelimiters, toList_quoted, List.tail_cons, List.dropLast_concat]

theorem noCrLf_quoted {delimiter : Char} {text : List Char} (hreturn : delimiter ≠ '\r')
    (hfeed : delimiter ≠ '\n') (h : NoCrLf text) :
    NoCrLf (quoted delimiter text).toList := by
  rw [toList_quoted]
  refine List.isChain_cons.mpr ⟨fun _ _ he => absurd he hreturn, ?_⟩
  refine List.isChain_append.mpr ⟨h, .singleton _, ?_⟩
  rintro c - d ⟨⟩ -
  exact hfeed

/-- A string literal is found. -/
theorem scans_string {text : List Char} (h : IsQuotable '"' text) (hlines : NoCrLf text) :
    Lexeme.Scans ⟨.stringLiteral, quoted '"' text⟩ := by
  refine ⟨by simp, by simp, noCrLf_quoted (by decide) (by decide) hlines,
    fun n rest hrest => gap_scan ?_ hrest n, '"', text ++ ['"'], toList_quoted _ _, fun rest _ => ?_⟩
  · dsimp only
    rw [toList_quoted]
    rfl
  · rw [List.append_assoc, scan, if_neg (by decide), if_neg (by decide), if_pos rfl]
    dsimp only
    rw [toList_quoted]
    exact scanQuoted_quotable h (by decide) .stringLiteral .unterminatedString rest

/-- A character between the quotes of a literal. -/
def charText (c : Char) : List Char :=
  match escapeLetter? c with
  | some letter => ['\\', letter]
  | none => if c = '\'' then ['\\', c] else [c]

/-- A character is written by a letter that stands for it, or as it is. -/
theorem charText_cases {c : Char} (h : c ≠ '\\') :
    (∃ letter, charText c = ['\\', letter] ∧ letter ≠ '\\' ∧
      Grammar.unescapeLetter? letter = some c) ∨ (charText c = [c] ∧ c ≠ '\'') := by
  unfold charText escapeLetter?
  by_cases h0 : c = '\x00'
  · subst h0; exact .inl ⟨'0', rfl, by decide, rfl⟩
  by_cases h1 : c = '\t'
  · subst h1; exact .inl ⟨'t', rfl, by decide, rfl⟩
  by_cases h2 : c = '\n'
  · subst h2; exact .inl ⟨'n', rfl, by decide, rfl⟩
  by_cases h3 : c = '\r'
  · subst h3; exact .inl ⟨'r', rfl, by decide, rfl⟩
  by_cases h4 : c = '\''
  · subst h4; exact .inl ⟨'\'', rfl, by decide, rfl⟩
  · rw [if_neg h0, if_neg h1, if_neg h2, if_neg h3, if_neg h]
    exact .inr ⟨if_neg h4, h4⟩

theorem isQuotable_charText {c : Char} (h : c ≠ '\\') : IsQuotable '\'' (charText c) := by
  rcases charText_cases h with ⟨letter, htext, hletter, -⟩ | ⟨htext, hc⟩
  · rw [htext]
    exact ⟨.cons_cons (by decide) (.cons_cons (fun _ => rfl) (.singleton letter)),
      fun hlast => hletter (Option.some.inj hlast)⟩
  · rw [htext]
    exact ⟨.cons_cons (fun he => absurd he hc) (.singleton c),
      fun hlast => h (Option.some.inj hlast)⟩

theorem unescape?_charText {c : Char} (h : c ≠ '\\') :
    Grammar.unescape? (charText c) = some c := by
  rcases charText_cases h with ⟨letter, htext, -, hvalue⟩ | ⟨htext, -⟩
  · rw [htext]
    exact hvalue
  · rw [htext]
    show (if c = '\\' then none else some c) = some c
    exact if_neg h

theorem noCrLf_charText {c : Char} (h : c ≠ '\\') : NoCrLf (charText c) := by
  rcases charText_cases h with ⟨letter, htext, -, -⟩ | ⟨htext, -⟩
  · rw [htext]
    exact .cons_cons (by simp) (.singleton letter)
  · rw [htext]
    exact .singleton c

/-- A character literal is found. -/
theorem scans_char {c : Char} (h : c ≠ '\\') :
    Lexeme.Scans ⟨.charLiteral, quoted '\'' (charText c)⟩ := by
  refine ⟨by simp, by simp, noCrLf_quoted (by decide) (by decide) (noCrLf_charText h),
    fun n rest hrest => gap_scan ?_ hrest n, '\'', charText c ++ ['\''], toList_quoted _ _,
    fun rest _ => ?_⟩
  · dsimp only
    rw [toList_quoted]
    rfl
  · rw [List.append_assoc, scan, if_neg (by decide), if_neg (by decide), if_neg (by decide),
      if_pos rfl]
    dsimp only
    rw [toList_quoted]
    exact scanQuoted_quotable (isQuotable_charText h) (by decide) .charLiteral
      .unterminatedCharacter rest

end FrontEnd
