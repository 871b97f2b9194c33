import FrontEnd.Proofs.Token.Spots

set_option autoImplicit false

/-! # Gaps in the bytes of a text

The lexer skips blanks and comments in one loop, and the characters within a block comment in another.
`Gap.scan` does the same with characters, in one function that knows what it is in the middle of.

Both are compared step by step. One round of a loop takes the lexer to a later place from which both
go on alike, or both end there (`ClosesAlike`, `SkipsAlike`); there is one case for each thing that a
gap may go on with. By induction on what is left of the text the lexer reaches the end of the gap, or
stops at the block comment that is never closed (`skipTrivia_spot`).
-/

namespace FrontEnd

namespace Lexer

variable {read text rest : List Char} {n : Nat} {c : Char}

/-! ## Gaps -/

theorem closeComment_zero (l : Lexer) : l.closeComment 0 = (true, l) := by
  rw [closeComment]

theorem closeComment_nil {outer : Nat} {l : Lexer} (h : l.peek? = none) :
    l.closeComment (outer + 1) = (false, l) := by
  rw [closeComment, h]
  exact dif_neg Bool.false_ne_true

theorem closeComment_cons {outer : Nat} {l : Lexer} (h : l.peek?.isSome = true) :
    l.closeComment (outer + 1) =
      if l.sees (· == '/') && l.seesNext Gap.isCommentSign then
        l.advance.advance.closeComment (outer + 2)
      else if l.sees Gap.isCommentSign && l.seesNext (· == '/') then
        l.advance.advance.closeComment outer
      else l.advance.closeComment (outer + 1) := by
  rw [closeComment, dif_pos h]

theorem isSome_peek?_spot (h : text.drop n = c :: rest) : (spot read text n).peek?.isSome = true := by
  obtain ⟨b, hb, -⟩ := peek?_spot_cons read h
  rw [hb]
  rfl

/-- Where a character and the one behind it are no sign together, a comment goes on. -/
theorem closeComment_step {outer : Nat} (h : text.drop n = c :: rest)
    (hopen : ¬ (c = '/' ∧ rest.head?.any Gap.isCommentSign = true))
    (hclose : ¬ (Gap.isCommentSign c = true ∧ rest.head?.any (· == '/') = true)) :
    (spot read text n).closeComment (outer + 1) =
      (spot read text (n + 1)).closeComment (outer + 1) := by
  refine step_spot h ?_ fun hc => ?_
  · intro l b hb hle
    rw [closeComment_cons (by rw [hb]; rfl), sees_of_le (onlyAscii_beq rfl) hb hle,
      sees_of_le onlyAscii_isCommentSign hb hle]
    rfl
  · rw [closeComment_cons (isSome_peek?_spot h), sees_spot (onlyAscii_beq rfl),
      sees_spot onlyAscii_isCommentSign, seesNext_spot (onlyAscii_beq rfl) h hc,
      seesNext_spot onlyAscii_isCommentSign h hc, h, List.head?_cons, Option.any_some,
      Option.any_some]
    rw [if_neg, if_neg]
    · simpa using hclose
    · simpa using hopen

/-- From a place within `outer + 1` comments, the first of which starts behind `start` characters, the
lexer gets to where the gap goes on, or both find the end of the text. -/
def ClosesAlike (read text : List Char) (outer start n : Nat) : Prop :=
  (∃ m, n ≤ m ∧ (spot read text n).closeComment (outer + 1) = (true, spot read text m) ∧
      Gap.scan (.block outer start) n (text.drop n) = Gap.scan .blank m (text.drop m)) ∨
    ((spot read text n).closeComment (outer + 1) = (false, spot read text text.length) ∧
      Gap.scan (.block outer start) n (text.drop n) = .unclosed start)

theorem ClosesAlike.step {outer outer' start n n' : Nat} (h : ClosesAlike read text outer' start n')
    (hle : n ≤ n')
    (hclose : (spot read text n).closeComment (outer + 1) =
      (spot read text n').closeComment (outer' + 1))
    (hscan : Gap.scan (.block outer start) n (text.drop n) =
      Gap.scan (.block outer' start) n' (text.drop n')) :
    ClosesAlike read text outer start n := by
  unfold ClosesAlike
  rw [hclose, hscan]
  rcases h with ⟨m, hm, hend⟩ | hend
  · exact .inl ⟨m, hle.trans hm, hend⟩
  · exact .inr hend

/-- Within block comments the lexer and the gap go on in the same steps. The induction is on what is
left of the text; a step takes one character, or two that open or close a comment. -/
theorem closesAlike (read : List Char) (start : Nat) :
    ∀ (l : List Char) (outer n : Nat), text.drop n = l → ClosesAlike read text outer start n
  | [], outer, n, hl => by
    right
    rw [closeComment_nil (peek?_spot_nil hl), spot_of_drop_nil hl, hl]
    exact ⟨rfl, by cases outer <;> rfl⟩
  | [c], outer, n, hl => by
    have hrest := drop_succ_of_drop hl
    right
    rw [closeComment_step hl (by simp) (by simp), closeComment_nil (peek?_spot_nil hrest),
      spot_of_drop_nil hrest, hl]
    exact ⟨rfl, by cases outer <;> rfl⟩
  | c :: d :: rest, outer, n, hl => by
    have hd := drop_succ_of_drop hl
    have hrest := drop_succ_of_drop hd
    have hsees (p : Char → Bool) (hp : OnlyAscii p) : (spot read text n).sees p = p c := by
      rw [sees_spot hp, hl]
      rfl
    have hnext (p : Char → Bool) (hp : OnlyAscii p) (hc : isAscii c = true) :
        (spot read text n).seesNext p = p d := seesNext_spot hp hl hc
    by_cases hopen : c = '/' ∧ Gap.isCommentSign d = true
    · -- one more comment is opened
      refine (closesAlike read start rest (outer + 1) (n + 2) hrest).step (Nat.le_add_right n 2) ?_ ?_
      · obtain ⟨rfl, hsign⟩ := hopen
        rw [closeComment_cons (isSome_peek?_spot hl), hsees _ (onlyAscii_beq rfl),
          hnext _ onlyAscii_isCommentSign rfl, hsign, advance_spot hl rfl,
          advance_spot hd (onlyAscii_isCommentSign d hsign)]
        rfl
      · rw [hl, Gap.scan_nest hopen, hrest]
    · by_cases hclose : Gap.isCommentSign c = true ∧ d = '/'
      · have hadvance : (spot read text n).closeComment (outer + 1) =
            (spot read text (n + 2)).closeComment outer := by
          obtain ⟨hsign, rfl⟩ := hclose
          have hslash : (c == '/') = false := by
            rw [beq_eq_false_iff_ne]
            rintro rfl
            cases hsign
          rw [closeComment_cons (isSome_peek?_spot hl), hsees _ (onlyAscii_beq rfl), hslash,
            hsees _ onlyAscii_isCommentSign, hsign,
            hnext _ (onlyAscii_beq rfl) (onlyAscii_isCommentSign c hsign),
            advance_spot hl (onlyAscii_isCommentSign c hsign), advance_spot hd rfl]
          rfl
        cases outer with
        | zero =>
            -- the outermost comment is closed
            refine .inl ⟨n + 2, Nat.le_add_right n 2, hadvance.trans (closeComment_zero _), ?_⟩
            rw [hl, Gap.scan, if_neg hopen, if_pos hclose, hrest]
        | succ outer =>
            refine (closesAlike read start rest outer (n + 2) hrest).step (Nat.le_add_right n 2)
              hadvance ?_
            rw [hl, Gap.scan, if_neg hopen, if_pos hclose, hrest]
      · refine (closesAlike read start (d :: rest) outer (n + 1) hd).step (Nat.le_succ n) ?_ ?_
        · exact closeComment_step hl (by simpa using hopen) (by simpa using hclose)
        · rw [hl, Gap.scan_within hopen hclose, hd]

/-- The characters that a line comment consists of. -/
theorem scan_line_takeWhile (n : Nat) (text : List Char) :
    Gap.scan .line n text = Gap.scan .blank (n + (text.takeWhile (· != '\n')).length)
      (text.drop (text.takeWhile (· != '\n')).length) := by
  have hsplit : text = text.takeWhile (· != '\n') ++ text.dropWhile (· != '\n') :=
    List.takeWhile_append_dropWhile.symm
  have hbody : '\n' ∉ text.takeWhile (· != '\n') := by
    intro hmem
    have hne := List.mem_takeWhile_imp hmem
    cases hne
  have hend : ∀ c ∈ (text.dropWhile (· != '\n')).head?, c = '\n' := by
    intro c hc
    have hnot := List.head?_dropWhile_not (· != '\n') text
    rw [hc] at hnot
    simpa using hnot
  have hdrop : text.drop (text.takeWhile (· != '\n')).length = text.dropWhile (· != '\n') := by
    have hleft := congrArg (List.drop (text.takeWhile (· != '\n')).length) hsplit
    rwa [List.drop_left] at hleft
  rw [hdrop, ← Gap.scan_line hbody hend, ← hsplit]

theorem skipTrivia_blank {l : Lexer} (h : l.sees Gap.isBlank = true) :
    l.skipTrivia = l.advance.skipTrivia := by
  rw [skipTrivia]
  exact dif_pos h

section

variable {l behind : Lexer} (hblank : l.sees Gap.isBlank = false)

include hblank

theorem skipTrivia_plain (h : l.sees (· == '/') = false ∨
    l.seesNext (· == '/') = false ∧ l.seesNext Gap.isCommentSign = false) :
    l.skipTrivia = .ok l := by
  rw [skipTrivia, hblank, dif_neg Bool.false_ne_true]
  split
  · next hslash =>
    rcases h with hother | ⟨hline, hsign⟩
    · rw [hslash] at hother
      cases hother
    · rw [hline, hsign, if_neg Bool.false_ne_true, if_neg Bool.false_ne_true]
  · rfl

variable (hslash : l.sees (· == '/') = true)

include hslash

theorem skipTrivia_line (h : l.seesNext (· == '/') = true) :
    l.skipTrivia = (l.advance.advanceWhile (Char.ofUInt8 · != '\n')).skipTrivia := by
  rw [skipTrivia, hblank, dif_neg Bool.false_ne_true, dif_pos hslash, if_pos h]

variable (hline : l.seesNext (· == '/') = false) (hsign : l.seesNext Gap.isCommentSign = true)

include hline hsign

theorem skipTrivia_closed (h : l.advance.advance.closeComment 1 = (true, behind)) :
    l.skipTrivia = behind.skipTrivia := by
  rw [skipTrivia, hblank, dif_neg Bool.false_ne_true, dif_pos hslash, hline,
    if_neg Bool.false_ne_true, if_pos hsign]
  split
  · next heq =>
    rw [h] at heq
    cases heq
    rfl
  · next heq =>
    rw [h] at heq
    cases heq

theorem skipTrivia_unclosed (h : l.advance.advance.closeComment 1 = (false, behind)) :
    l.skipTrivia = .error (l, behind) := by
  rw [skipTrivia, hblank, dif_neg Bool.false_ne_true, dif_pos hslash, hline,
    if_neg Bool.false_ne_true, if_pos hsign]
  split
  · next heq =>
    rw [h] at heq
    cases heq
  · next heq =>
    rw [h] at heq
    cases heq
    rfl

end

/-- Whether a gap starts with a character is seen from this one and the next. -/
theorem startsGap_cons (c : Char) (rest : List Char) :
    startsGap (c :: rest) =
      (Gap.isBlank c || (c == '/' &&
        (rest.head?.any (· == '/') || rest.head?.any Gap.isCommentSign))) := by
  cases rest with
  | nil => simp [startsGap]
  | cons d rest => rfl

/-- Where no gap starts the lexer stays. -/
theorem skipTrivia_of_plain (h : startsGap (text.drop n) = false) :
    (spot read text n).skipTrivia = .ok (spot read text n) := by
  cases hl : text.drop n with
  | nil => exact skipTrivia_plain (sees_spot_nil hl) (.inl (sees_spot_nil hl))
  | cons c rest =>
      rw [hl, startsGap_cons, Bool.or_eq_false_iff] at h
      obtain ⟨hblank, hcomment⟩ := h
      refine skipTrivia_plain ((sees_spot_cons onlyAscii_isBlank hl).trans hblank) ?_
      by_cases hslash : c = '/'
      · subst hslash
        right
        rw [seesNext_spot (onlyAscii_beq rfl) hl rfl, seesNext_spot onlyAscii_isCommentSign hl rfl]
        exact Bool.or_eq_false_iff.mp hcomment
      · left
        rw [sees_spot_cons (onlyAscii_beq rfl) hl]
        exact beq_false_of_ne hslash

/-- From `n` characters on the lexer and the gap go on from a place behind, or both end: the lexer
behind the gap, or at the block comment that is not closed. -/
def SkipsAlike (read text : List Char) (n : Nat) : Prop :=
  (∃ m, n < m ∧ n < text.length ∧
      (spot read text n).skipTrivia = (spot read text m).skipTrivia ∧
      Gap.scan .blank n (text.drop n) = Gap.scan .blank m (text.drop m)) ∨
    ((spot read text n).skipTrivia = .ok (spot read text n) ∧
      Gap.scan .blank n (text.drop n) = .closed n) ∨
    ((spot read text n).skipTrivia = .error (spot read text n, spot read text text.length) ∧
      Gap.scan .blank n (text.drop n) = .unclosed n)

theorem lt_length_of_drop (h : text.drop n = c :: rest) : n < text.length := by
  have hlength := congrArg List.length h
  rw [List.length_drop, List.length_cons] at hlength
  omega

/-- A line comment is skipped up to the end of its line. -/
theorem skipsAlike_line (h : text.drop n = '/' :: '/' :: rest) : SkipsAlike read text n := by
  have hrest := drop_succ_of_drop h
  have hlast : ∀ c, isAscii c = false → (c != '\n') = true := by
    intro c hc
    rw [bne_iff_ne]
    rintro rfl
    cases hc
  have hslash : (spot read text n).sees (· == '/') = true := sees_spot_cons (onlyAscii_beq rfl) h
  have hline : (spot read text n).seesNext (· == '/') = true :=
    seesNext_spot (onlyAscii_beq rfl) h rfl
  have hend : n + 1 + (('/' :: rest).takeWhile (· != '\n')).length =
      n + 2 + (rest.takeWhile (· != '\n')).length := by
    rw [List.takeWhile_cons_of_pos rfl, List.length_cons]
    omega
  have hrun : (spot read text (n + 1)).advanceWhile (Char.ofUInt8 · != '\n') =
      spot read text (n + 2 + (rest.takeWhile (· != '\n')).length) := by
    rw [advanceWhile_spot hlast, hrest, hend]
  refine .inl ⟨n + 2 + (rest.takeWhile (· != '\n')).length, by omega, lt_length_of_drop h, ?_, ?_⟩
  · rw [skipTrivia_line (sees_spot_cons onlyAscii_isBlank h) hslash hline, advance_spot h rfl, hrun]
  · rw [h, ← List.drop_drop, drop_succ_of_drop hrest, ← scan_line_takeWhile]
    rfl

/-- A block comment is skipped up to the sign that closes it, if there is one. -/
theorem skipsAlike_comment {d : Char} (h : text.drop n = '/' :: d :: rest)
    (hsign : Gap.isCommentSign d = true) : SkipsAlike read text n := by
  have hrest := drop_succ_of_drop h
  have hmore := drop_succ_of_drop hrest
  have hne : d ≠ '/' := by
    rintro rfl
    cases hsign
  have hblank : (spot read text n).sees Gap.isBlank = false := sees_spot_cons onlyAscii_isBlank h
  have hslash : (spot read text n).sees (· == '/') = true := sees_spot_cons (onlyAscii_beq rfl) h
  have hline : (spot read text n).seesNext (· == '/') = false :=
    (seesNext_spot (onlyAscii_beq rfl) h rfl).trans (beq_false_of_ne hne)
  have hopen : (spot read text n).seesNext Gap.isCommentSign = true :=
    (seesNext_spot onlyAscii_isCommentSign h rfl).trans hsign
  have hadvance : (spot read text n).advance.advance = spot read text (n + 2) := by
    rw [advance_spot h rfl, advance_spot hrest (onlyAscii_isCommentSign d hsign)]
  have hscan : Gap.scan .blank n (text.drop n) =
      Gap.scan (.block 0 n) (n + 2) (text.drop (n + 2)) := by
    have hslash : ¬ Gap.isBlank '/' = true := by decide
    rw [h, Gap.scan, if_neg hslash, if_pos rfl, if_neg hne, if_pos hsign, hmore]
  rcases closesAlike read n rest 0 (n + 2) hmore with ⟨m, hle, hclose, hgap⟩ | ⟨hclose, hgap⟩
  · rw [← hadvance] at hclose
    refine .inl ⟨m, by omega, lt_length_of_drop h, ?_, hscan.trans hgap⟩
    exact skipTrivia_closed hblank hslash hline hopen hclose
  · rw [← hadvance] at hclose
    refine .inr (.inr ⟨?_, hscan.trans hgap⟩)
    exact skipTrivia_unclosed hblank hslash hline hopen hclose

theorem skipsAlike (read text : List Char) (n : Nat) : SkipsAlike read text n := by
  cases hgap : startsGap (text.drop n) with
  | false => exact .inr (.inl ⟨skipTrivia_of_plain hgap, Gap.scan_of_plain hgap n⟩)
  | true =>
      cases hl : text.drop n with
      | nil =>
          rw [hl] at hgap
          cases hgap
      | cons c rest =>
          rw [hl, startsGap_cons] at hgap
          rcases Bool.or_eq_true_iff.mp hgap with hblank | hcomment
          · refine .inl ⟨n + 1, Nat.lt_succ_self n, lt_length_of_drop hl, ?_, ?_⟩
            · rw [skipTrivia_blank ((sees_spot_cons onlyAscii_isBlank hl).trans hblank),
                advance_spot hl (onlyAscii_isBlank c hblank)]
            · rw [hl, Gap.scan_cons_blank hblank, drop_succ_of_drop hl]
          · obtain ⟨hslash, hcomment⟩ := Bool.and_eq_true_iff.mp hcomment
            obtain rfl : c = '/' := beq_iff_eq.mp hslash
            cases rest with
            | nil => cases hcomment
            | cons d rest =>
                rcases Bool.or_eq_true_iff.mp hcomment with hline | hsign
                · obtain rfl : d = '/' := beq_iff_eq.mp hline
                  exact skipsAlike_line hl
                · exact skipsAlike_comment hl hsign

/-- What the lexer makes of the gap. A comment that is not closed is reported from its start, and
the text has been read to its end. -/
def gapResult (read text : List Char) : Gap → Except (Lexer × Lexer) Lexer
  | .closed m => .ok (spot read text m)
  | .unclosed m => .error (spot read text m, spot read text text.length)

/-- The lexer skips the gap, or finds the comment in it that is not closed. -/
theorem skipTrivia_spot (n : Nat) :
    (spot read text n).skipTrivia = gapResult read text (Gap.scan .blank n (text.drop n)) := by
  induction hlength : text.length - n using Nat.strong_induction_on generalizing n with
  | h k ih =>
  rcases skipsAlike read text n with ⟨m, hlt, hlt', hskip, hgap⟩ | ⟨hskip, hgap⟩ | ⟨hskip, hgap⟩
  · rw [hskip, hgap, ih (text.length - m) (by omega) m rfl]
  · rw [hskip, hgap]
    rfl
  · rw [hskip, hgap]
    rfl

end Lexer

end FrontEnd
