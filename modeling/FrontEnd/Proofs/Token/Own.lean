import FrontEnd.Proofs.Token.Fading

set_option autoImplicit false

/-! # A token in its own text

A valid token is found in its own text, without what stands behind it (`scan_own`). The scanners look
at what follows only to see whether they go on, and at the end of a text they stop as they do in front
of a character that they do not want.

The lemmas are stated for a text in two parts, of which the scanner takes no more than the first.
Each part of a number is looked at in turn, since the scanner decides between them: a point may be
the end of a number or the start of its fraction, and a sign is read only behind the letter of an
exponent.
-/

namespace FrontEnd

/-- A run that ends within a part of a text is found in this part. -/
theorem takeWhile_own {p : Char → Bool} {own behind : List Char}
    (h : ((own ++ behind).takeWhile p).length ≤ own.length) :
    (own ++ behind).takeWhile p = own.takeWhile p := by
  induction own with
  | nil => exact List.eq_nil_of_length_eq_zero (Nat.le_zero.mp h)
  | cons c own ih =>
      rw [List.cons_append, List.takeWhile_cons] at h ⊢
      rw [List.takeWhile_cons]
      split
      · next hc =>
        rw [if_pos hc, List.length_cons, List.length_cons] at h
        rw [ih (Nat.le_of_succ_le_succ h)]
      · rfl

section

variable {own behind : List Char}

theorem fractionLength_own (h : fractionLength (own ++ behind) ≤ own.length) :
    fractionLength (own ++ behind) = fractionLength own := by
  cases own with
  | nil => exact Nat.le_zero.mp h
  | cons c own =>
      by_cases hc : c = '.'
      case neg => rw [List.cons_append, fractionLength_of_ne hc, fractionLength_of_ne hc]
      subst hc
      cases own with
      | cons d own =>
          rw [List.cons_append, List.cons_append, fractionLength] at h ⊢
          rw [fractionLength]
          split
          · next hd =>
            rw [if_pos hd, List.length_cons] at h
            rw [digitRun, ← List.cons_append] at h ⊢
            rw [takeWhile_own (by omega)]
            rfl
          · rfl
      | nil =>
          cases behind with
          | nil => rfl
          | cons d behind =>
              -- a fraction takes two characters at least
              rw [List.singleton_append, fractionLength] at h ⊢
              by_cases hd : d.isDigit = true
              · rw [if_pos hd, digitRun, List.takeWhile_cons_of_pos (by rw [hd]; rfl)] at h
                simp only [List.length_cons, List.length_nil] at h
                omega
              · rw [if_neg hd]
                rfl

/-- The letter of an exponent is read. -/
theorem lt_scanExponent_length {c : Char} (hc : isExponentSign c = true) (n : Nat)
    (rest : List Char) : n < (scanExponent n (c :: rest)).length := by
  rw [scanExponent, if_pos hc]
  dsimp only
  split
  · simp only [Scan.token]
    omega
  · simp only [Scan.fault]
    omega

theorem scanExponent_length_le (n : Nat) (text : List Char) : n ≤ (scanExponent n text).length := by
  cases text with
  | nil => exact Nat.le_refl n
  | cons c rest =>
      by_cases hc : isExponentSign c = true
      · exact Nat.le_of_lt (lt_scanExponent_length hc n rest)
      · rw [scanExponent, if_neg hc]
        exact Nat.le_refl n

theorem scanExponent_own {n : Nat} {kind : Kind}
    (hvalid : (scanExponent n (own ++ behind)).outcome = .ok kind)
    (h : (scanExponent n (own ++ behind)).length = n + own.length) :
    scanExponent n own = scanExponent n (own ++ behind) := by
  cases own with
  | nil =>
      cases behind with
      | nil => rfl
      | cons c behind =>
          by_cases hc : isExponentSign c = true
          · exact absurd h (Nat.ne_of_gt (lt_scanExponent_length hc n behind))
          · rw [List.nil_append, scanExponent, scanExponent, if_neg hc]
  | cons c own =>
      rw [List.cons_append, scanExponent] at h hvalid ⊢
      rw [scanExponent]
      split
      · next hc =>
        rw [if_pos hc] at h hvalid
        dsimp only at h hvalid ⊢
        split at hvalid
        case isFalse => cases hvalid
        next hany =>
        rw [if_pos hany, Scan.token] at h
        dsimp only at h
        have hne :
            digitRun Char.isDigit ((own ++ behind).drop (signLength (own ++ behind))) ≠ [] := by
          intro hnil
          rw [hnil] at hany
          cases hany
        -- there is a digit behind the sign, so the sign lies within the text itself
        have hpos := List.length_pos_iff.mpr hne
        rw [List.length_cons] at h
        have hsign : signLength (own ++ behind) = signLength own := by
          cases own with
          | nil =>
              rw [List.length_nil] at h
              omega
          | cons d own => rfl
        rw [hsign] at h hany ⊢
        have hdrop : (own ++ behind).drop (signLength own) = own.drop (signLength own) ++ behind :=
          List.drop_append_of_le_length (by omega)
        have hrun : digitRun Char.isDigit (own.drop (signLength own) ++ behind) =
            digitRun Char.isDigit (own.drop (signLength own)) := by
          refine takeWhile_own ?_
          rw [← digitRun, ← hdrop, List.length_drop]
          omega
        rw [hdrop, hrun]
      · rfl

theorem scanDecimal_own {kind : Kind} (hvalid : (scanDecimal (own ++ behind)).outcome = .ok kind)
    (h : (scanDecimal (own ++ behind)).length = own.length) :
    scanDecimal own = scanDecimal (own ++ behind) := by
  rw [scanDecimal] at h hvalid ⊢
  rw [scanDecimal]
  have hle := scanExponent_length_le ((digitRun Char.isDigit (own ++ behind)).length +
      fractionLength ((own ++ behind).drop (digitRun Char.isDigit (own ++ behind)).length))
    ((own ++ behind).drop ((digitRun Char.isDigit (own ++ behind)).length +
      fractionLength ((own ++ behind).drop (digitRun Char.isDigit (own ++ behind)).length)))
  rw [h] at hle
  have hwhole : digitRun Char.isDigit (own ++ behind) = digitRun Char.isDigit own :=
    takeWhile_own (by rw [← digitRun]; omega)
  have hdrop {n : Nat} (hn : n ≤ own.length) : (own ++ behind).drop n = own.drop n ++ behind :=
    List.drop_append_of_le_length hn
  rw [hwhole, hdrop (by omega)] at h hvalid hle ⊢
  have hfraction : fractionLength (own.drop (digitRun Char.isDigit own).length ++ behind) =
      fractionLength (own.drop (digitRun Char.isDigit own).length) :=
    fractionLength_own (by rw [List.length_drop]; omega)
  rw [hfraction, hdrop (by omega)] at h hvalid ⊢
  refine scanExponent_own hvalid ?_
  rw [h, List.length_drop]
  omega

theorem scanRadix_length (isDigit : Char → Bool) (missing : LexicalFault) (text : List Char) :
    (scanRadix isDigit missing text).length = 2 + (digitRun isDigit text).length := by
  rw [scanRadix]
  split <;> rfl

theorem scanRadix_own {isDigit : Char → Bool} {missing : LexicalFault}
    (h : (scanRadix isDigit missing (own ++ behind)).length = 2 + own.length) :
    scanRadix isDigit missing own = scanRadix isDigit missing (own ++ behind) := by
  rw [scanRadix_length] at h
  have hrun : digitRun isDigit (own ++ behind) = digitRun isDigit own :=
    takeWhile_own (by rw [← digitRun]; omega)
  rw [scanRadix, scanRadix, hrun]

/-- A zero that is a number alone is followed by no sign of another base, which would be read as
well. -/
theorem scanNumber_zero_own {kind : Kind}
    (hvalid : (scanNumber ('0' :: behind)).outcome = .ok kind)
    (h : (scanNumber ('0' :: behind)).length = 1) :
    scanNumber ['0'] = scanNumber ('0' :: behind) := by
  cases behind with
  | nil => rfl
  | cons c behind =>
      have hradix (isDigit : Char → Bool) (missing : LexicalFault) :
          (scanRadix isDigit missing behind).length ≠ 1 := by
        rw [scanRadix_length]
        omega
      rw [scanNumber] at h hvalid ⊢
      rw [scanNumber_singleton]
      split
      · next hc =>
        rw [if_pos hc] at h
        exact absurd h (hradix _ _)
      · next hc =>
        rw [if_neg hc] at h hvalid
        split
        · next hc' =>
          rw [if_pos hc'] at h
          exact absurd h (hradix _ _)
        · next hc' =>
          rw [if_neg hc'] at h hvalid
          have hown : scanDecimal ['0'] = scanDecimal (['0'] ++ c :: behind) :=
            scanDecimal_own hvalid h
          exact hown

theorem scanNumber_own {kind : Kind} (hown : own ≠ [])
    (hvalid : (scanNumber (own ++ behind)).outcome = .ok kind)
    (h : (scanNumber (own ++ behind)).length = own.length) :
    scanNumber own = scanNumber (own ++ behind) := by
  cases own with
  | nil => exact absurd rfl hown
  | cons c own =>
      rw [List.cons_append] at h hvalid ⊢
      by_cases hc : c = '0'
      case neg =>
        rw [scanNumber_of_ne hc] at h hvalid ⊢
        rw [scanNumber_of_ne hc]
        exact scanDecimal_own hvalid h
      subst hc
      cases own with
      | cons d own =>
          rw [List.cons_append, scanNumber] at h hvalid ⊢
          rw [scanNumber]
          -- the sign of a base is the second character, which is within the text itself
          split
          · next hd =>
            rw [if_pos hd] at h
            exact scanRadix_own (by rw [h, List.length_cons, List.length_cons]; omega)
          · next hd =>
            rw [if_neg hd] at h hvalid
            split
            · next hd' =>
              rw [if_pos hd'] at h
              exact scanRadix_own (by rw [h, List.length_cons, List.length_cons]; omega)
            · next hd' =>
              rw [if_neg hd'] at h hvalid
              have hown : scanDecimal ('0' :: d :: own) = scanDecimal (('0' :: d :: own) ++ behind) :=
                scanDecimal_own hvalid h
              exact hown
      | nil => exact scanNumber_zero_own hvalid h

theorem scanWord_own (h : (scanWord (own ++ behind)).length = own.length) :
    scanWord own = scanWord (own ++ behind) := by
  have hword : (own ++ behind).takeWhile isWordChar = own.takeWhile isWordChar :=
    takeWhile_own (Nat.le_of_eq h)
  rw [scanWord, scanWord, hword]

theorem scanSymbol_own {kind : Kind} (hvalid : (scanSymbol (own ++ behind)).outcome = .ok kind)
    (h : (scanSymbol (own ++ behind)).length = own.length) :
    scanSymbol own = scanSymbol (own ++ behind) := by
  rw [scanSymbol_eq_longestSymbol] at h hvalid ⊢
  rw [scanSymbol_eq_longestSymbol]
  unfold longestSymbol at h hvalid ⊢
  cases hfind : symbolTable.find? (fun entry => entry.1.isPrefixOf (own ++ behind)) with
  | none =>
      rw [hfind] at hvalid
      cases hvalid
  | some entry =>
      rw [hfind] at h
      obtain ⟨hfits, before, after, htable, hbefore⟩ := List.find?_eq_some_iff_append.mp hfind
      have hspelling : entry.1 = own := by
        have hprefix := List.isPrefixOf_iff_prefix.mp hfits
        exact (List.prefix_of_prefix_length_le hprefix (List.prefix_append own behind)
          (Nat.le_of_eq h)).eq_of_length h
      -- what is no prefix of the longer text is none of its own part
      have hfind' : symbolTable.find? (fun entry => entry.1.isPrefixOf own) = some entry := by
        refine List.find?_eq_some_iff_append.mpr ⟨?_, before, after, htable, fun e he => ?_⟩
        · rw [hspelling]
          exact List.isPrefixOf_iff_prefix.mpr List.prefix_rfl
        · have hnot := hbefore e he
          rw [Bool.not_eq_true', ← Bool.not_eq_true, List.isPrefixOf_iff_prefix] at hnot ⊢
          exact fun hle => hnot (hle.trans (List.prefix_append own behind))
      rw [hfind']

end

/-- A valid token is found in its own text. -/
theorem scan_own {c : Char} {own behind : List Char} {kind : Kind}
    (hvalid : (scan c (own ++ behind)).outcome = .ok kind)
    (h : (scan c (own ++ behind)).length = own.length + 1) :
    scan c own = scan c (own ++ behind) := by
  have hquoted {delimiter : Char} {kind : Kind} {unterminated : LexicalFault}
      (h : (scanQuoted delimiter kind unterminated (own ++ behind)).length = own.length + 1) :
      scanQuoted delimiter kind unterminated own =
        scanQuoted delimiter kind unterminated (own ++ behind) := by
    have hown : scanQuoted delimiter kind unterminated (own ++ []) =
        scanQuoted delimiter kind unterminated (own ++ behind) :=
      scanQuoted_own (fun _ => rfl) (h.trans (Nat.add_comm _ 1))
    rwa [List.append_nil] at hown
  unfold scan at h hvalid ⊢
  rw [← List.cons_append] at h hvalid ⊢
  -- the scanner is chosen by the first character alone
  split
  · next hword =>
    rw [if_pos hword] at h
    exact scanWord_own h
  · next hword =>
    rw [if_neg hword] at h hvalid
    split
    · next hdigit =>
      rw [if_pos hdigit] at h hvalid
      exact scanNumber_own (List.cons_ne_nil c own) hvalid h
    · next hdigit =>
      rw [if_neg hdigit] at h hvalid
      split
      · next hquote =>
        rw [if_pos hquote] at h
        exact hquoted h
      · next hquote =>
        rw [if_neg hquote] at h hvalid
        split
        · next hquote' =>
          rw [if_pos hquote'] at h
          exact hquoted h
        · next hquote' =>
          rw [if_neg hquote'] at h hvalid
          exact scanSymbol_own hvalid h

end FrontEnd
