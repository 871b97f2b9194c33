import FrontEnd.Proofs.Token.Fading

set_option autoImplicit false

/-! # The longest mark or operator

Many marks and operators begin with the same characters: behind an at sign alone may stand a plus, a
minus, a star or two angles, and more of them behind these. The token that is read is the longest one
that stands at its place (`Kind.FitsBest`), and what is read next starts right behind it. Signs that
would only have been the beginning of a longer one are left to the tokens that follow.

The scanner decides by trees and knows no list of signs. That it finds what a search through the
table of all spellings finds is shown for the trees (`scanSymbol_eq_longestSymbol`); from there on
only the table matters, which is complete and has the longer spellings first.
-/

namespace FrontEnd

namespace Kind

/-- The kinds that are spelled with signs: marks, operators and steps. -/
def isSign : Kind → Bool
  | mark _ | operator _ | step _ _ => true
  | _ => false

/-- A sign that stands at the start of a text. Several may fit, of which one is the longest. -/
def Fits (k : Kind) (text : List Char) : Prop := k.isSign = true ∧ k.spelling.toList <+: text

/-- A sign that stands at the start of a text, where all others that stand there are shorter. There
is at most one, since two of the same length would have to be spelled alike. -/
structure FitsBest (k : Kind) (text : List Char) : Prop where
  fits : k.Fits text
  longest : ∀ k' : Kind, k'.Fits text → k' ≠ k → k'.spelling.length < k.spelling.length

/-- The table of signs is complete. -/
theorem mem_symbolKinds {k : Kind} (h : k.isSign = true) : k ∈ symbolKinds := by
  cases k with
  | mark m => cases m <;> decide
  | operator op =>
      cases op with
      | add o | sub o | mul o | shl o | addAssign o | subAssign o | mulAssign o | shlAssign o =>
          cases o <;> decide
      | _ => decide
  | step s o => cases s <;> cases o <;> decide
  | _ => cases h

theorem isSign_of_mem_symbolKinds {k : Kind} (h : k ∈ symbolKinds) : k.isSign = true := by
  revert k
  decide

theorem mem_symbolTable {k : Kind} (h : k.isSign = true) :
    (k.spelling.toList, k) ∈ symbolTable :=
  List.mem_map.mpr ⟨k, mem_symbolKinds h, rfl⟩

theorem isSymbolChar_of_mem {k : Kind} (h : k.isSign = true) {c : Char}
    (hc : c ∈ k.spelling.toList) : isSymbolChar c = true :=
  List.any_eq_true.mpr ⟨_, mem_symbolTable h, List.contains_iff_mem.mpr hc⟩

end Kind

/-- The first entry of the table that fits is the best one. -/
theorem fitsBest_of_find {text : List Char} {entry : List Char × Kind}
    (h : symbolTable.find? (fun entry => entry.1.isPrefixOf text) = some entry) :
    entry.2.FitsBest text := by
  obtain ⟨hfits, before, behind, htable, hbefore⟩ := List.find?_eq_some_iff_append.mp h
  obtain ⟨k, hk, rfl⟩ := List.mem_map.mp (List.mem_of_find?_eq_some h)
  have hprefix := List.isPrefixOf_iff_prefix.mp hfits
  refine ⟨⟨Kind.isSign_of_mem_symbolKinds hk, hprefix⟩, fun k' hk' hne => ?_⟩
  -- another sign that fits stands behind this one in the table
  have hmem := Kind.mem_symbolTable hk'.1
  rw [htable, List.mem_append, List.mem_cons] at hmem
  rcases hmem with hmem | heq | hmem
  · have hnot := hbefore _ hmem
    rw [Bool.not_eq_true', ← Bool.not_eq_true, List.isPrefixOf_iff_prefix] at hnot
    exact absurd hk'.2 hnot
  · exact absurd (congrArg Prod.snd heq) hne
  · have hsorted := symbolTable_sorted
    rw [htable] at hsorted
    obtain ⟨hle, hspelling⟩ :=
      (List.pairwise_cons.mp (List.pairwise_append.mp hsorted).2.1).1 _ hmem
    refine Nat.lt_of_le_of_ne hle fun hlength => hspelling ?_
    exact (List.prefix_of_prefix_length_le hk'.2 hprefix hle).eq_of_length hlength

/-- What holds of every character of the table holds of a character of a sign. -/
theorem of_isSymbolChar (p : Char → Bool) {c : Char} (hc : isSymbolChar c = true)
    (htable : symbolTable.all (fun entry => entry.1.all p) = true) : p c = true := by
  obtain ⟨entry, hentry, hmem⟩ := List.any_eq_true.mp hc
  exact List.all_eq_true.mp (List.all_eq_true.mp htable entry hentry) c
    (List.contains_iff_mem.mp hmem)

/-- A character of a sign starts no word, no number and no literal. -/
theorem scan_of_isSymbolChar {c : Char} (hc : isSymbolChar c = true) (rest : List Char) :
    scan c rest = scanSymbol (c :: rest) := by
  have hword : (!isWordStart c) = true :=
    of_isSymbolChar (fun d => !isWordStart d) hc (by decide +kernel)
  have hdigit : (!c.isDigit) = true := of_isSymbolChar (fun d => !d.isDigit) hc (by decide +kernel)
  have hquote : (c != '"') = true := of_isSymbolChar (· != '"') hc (by decide +kernel)
  have hquote' : (c != '\'') = true := of_isSymbolChar (· != '\'') hc (by decide +kernel)
  rw [Bool.not_eq_true'] at hword hdigit
  rw [scan, if_neg (by rw [hword]; exact Bool.false_ne_true),
    if_neg (by rw [hdigit]; exact Bool.false_ne_true), if_neg (bne_iff_ne.mp hquote),
    if_neg (bne_iff_ne.mp hquote')]

/-- A text that starts with a character of a sign, but not with a comment, starts with the best sign
that fits. -/
theorem scan_fitsBest {c : Char} (hc : isSymbolChar c = true) (rest : List Char) :
    ∃ k : Kind, k.FitsBest (c :: rest) ∧ scan c rest = .token k k.spelling.length := by
  obtain ⟨entry, hfind⟩ := exists_symbol hc rest
  obtain ⟨k, -, rfl⟩ := List.mem_map.mp (List.mem_of_find?_eq_some hfind)
  refine ⟨k, fitsBest_of_find hfind, ?_⟩
  rw [scan_of_isSymbolChar hc, scanSymbol_eq_longestSymbol, longestSymbol, hfind]
  rfl

/-- No gap stands in front of a sign. -/
theorem startsGap_of_isSymbolChar {c : Char} (hc : isSymbolChar c = true) {rest : List Char}
    (hcomment : ∀ opener ∈ ["//", "/-", "/*"], ¬ opener.toList <+: c :: rest) :
    startsGap (c :: rest) = false := by
  have hblank : (!Gap.isBlank c) = true :=
    of_isSymbolChar (fun d => !Gap.isBlank d) hc (by decide +kernel)
  rw [Bool.not_eq_true'] at hblank
  cases rest with
  | nil => exact hblank
  | cons d rest =>
      rw [startsGap, hblank, Bool.false_or, Bool.and_eq_false_imp]
      intro hslash
      obtain rfl := beq_iff_eq.mp hslash
      have hne {e : Char} (h : String.ofList ['/', e] ∈ ["//", "/-", "/*"]) : d ≠ e := by
        rintro rfl
        refine hcomment _ h ?_
        rw [String.toList_ofList]
        exact ⟨rest, rfl⟩
      have hline : d ≠ '/' := hne (by decide)
      have hdash : d ≠ '-' := hne (by decide)
      have hstar : d ≠ '*' := hne (by decide)
      simp [Gap.isCommentSign, hline, hdash, hstar]

/-- Where a text goes on with a character of a sign and opens no comment, the next token is the
longest sign that stands there, and the tokens behind it are those of the text behind its
spelling. -/
theorem Cursor.next_sign {c : Cursor}
    (hsign : ∃ k : Kind, k.isSign = true ∧ ∃ first ∈ k.spelling.toList, c.rest.head? = some first)
    (hcomment : ∀ opener ∈ ["//", "/-", "/*"], ¬ opener.toList <+: c.rest) :
    ∃ k : Kind, k.FitsBest c.rest ∧
      c.next = (⟨k, k.spelling, c.position⟩, c.skip k.spelling.length) ∧
      Stream.ofCursor c =
        .cons ⟨k, k.spelling, c.position⟩ (Stream.ofCursor (c.skip k.spelling.length)) := by
  obtain ⟨text, p⟩ := c
  obtain ⟨kind, hkind, first, hfirst, hhead⟩ := hsign
  obtain ⟨rest, rfl⟩ : ∃ rest, text = first :: rest := List.head?_eq_some_iff.mp hhead
  have hc := Kind.isSymbolChar_of_mem hkind hfirst
  obtain ⟨k, hbest, hscan⟩ := scan_fitsBest hc rest
  have hnext := Cursor.next_plain (startsGap_of_isSymbolChar hc hcomment) p
  have hown : (first :: rest).take k.spelling.length = k.spelling.toList := by
    rw [← String.length_toList]
    exact (List.prefix_iff_eq_take.mp hbest.fits.2).symm
  rw [hscan, Cursor.token, Scan.token] at hnext
  dsimp only at hnext
  rw [hown, String.ofList_toList] at hnext
  refine ⟨k, hbest, hnext, ?_⟩
  have hend : k ≠ .endOfFile := by
    rintro rfl
    cases hbest.fits.1
  rw [Stream.ofCursor_cons (by rw [hnext]; exact hend), hnext]

/-- An at sign is not read on over the angle behind it, which alone is not part of its operator. -/
theorem Cursor.next_sign_atSign :
    let c : Cursor := .ofText "@<%<= y".toList
    (∃ k : Kind, k.isSign = true ∧ ∃ first ∈ k.spelling.toList, c.rest.head? = some first) ∧
      (∀ opener ∈ ["//", "/-", "/*"], ¬ opener.toList <+: c.rest) ∧
      ∃ k : Kind, k = .mark .atSign ∧ k.FitsBest c.rest ∧
        c.next = (⟨k, k.spelling, c.position⟩, c.skip k.spelling.length) ∧
        Stream.ofCursor c =
          .cons ⟨k, k.spelling, c.position⟩ (Stream.ofCursor (c.skip k.spelling.length)) := by
  intro c
  have hsign : ∃ k : Kind, k.isSign = true ∧
      ∃ first ∈ k.spelling.toList, c.rest.head? = some first :=
    ⟨.mark .atSign, rfl, '@', by decide, rfl⟩
  have hcomment : ∀ opener ∈ ["//", "/-", "/*"], ¬ opener.toList <+: c.rest := by decide
  obtain ⟨k, hbest, hnext, hstream⟩ := Cursor.next_sign hsign hcomment
  have hkind : k = c.next.1.kind := by rw [hnext]
  exact ⟨hsign, hcomment, k, hkind.trans (by decide +kernel), hbest, hnext, hstream⟩

end FrontEnd
