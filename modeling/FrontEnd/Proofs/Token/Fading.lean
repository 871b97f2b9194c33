import FrontEnd.Proofs.Token.Extended
import FrontEnd.Proofs.Token.Pieces

set_option autoImplicit false

/-! # Stray characters behind a token

A stray character ends what is in front of it, just as a space does. So a token is read in the same
way if spaces take the place of stray characters behind it (`Cursor.next_faded`), as long as its own
text stays as it is: literals and comments may hold stray characters.

A scanner asks for classes of characters, and no class that ends a run holds a stray character or a
space (`Steady`). So the two texts are alike up to the first stray character, and both stop there
for every scanner. Literals are scanned up to a delimiter, which does not change.
-/

namespace FrontEnd

/-- A stray character may have been replaced by a space. One that belongs to a literal or a comment
is no token of its own, and stays. -/
def Fades (c d : Char) : Prop := d = c ∨ isStray c = true ∧ d = ' '

/-- The second text may have spaces in place of stray characters of the first one. -/
def Faded (text text' : List Char) : Prop := List.Forall₂ Fades text text'

/-- A class of characters that holds neither stray characters nor the space. Whether a character
belongs to it is the same before and after stray characters are replaced. -/
structure Steady (p : Char → Bool) : Prop where
  solid : ∀ c, p c = true → isStray c = false
  space : p ' ' = false

namespace Steady

variable {p : Char → Bool} {c d : Char}

/-- The characters of the class stay what they are. -/
theorem char_eq (h : Steady p) (hfades : Fades c d) (hp : p c = true ∨ p d = true) : d = c := by
  rcases hfades with rfl | ⟨hstray, rfl⟩
  · rfl
  · rcases hp with hp | hp
    · rw [h.solid c hp] at hstray
      cases hstray
    · rw [h.space] at hp
      cases hp

theorem eq (h : Steady p) (hfades : Fades c d) : p d = p c := by
  rw [Bool.eq_iff_iff]
  exact ⟨fun hd => h.char_eq hfades (.inr hd) ▸ hd, fun hc => h.char_eq hfades (.inl hc) ▸ hc⟩

/-- One character that is not stray. -/
theorem char (hstray : isStray c = false) (hspace : c ≠ ' ') : Steady (· == c) where
  solid d hd := by rw [beq_iff_eq.mp hd, hstray]
  space := beq_false_of_ne (Ne.symm hspace)

theorem or {q : Char → Bool} (hp : Steady p) (hq : Steady q) : Steady fun c => p c || q c where
  solid c hc := (Bool.or_eq_true_iff.mp hc).elim (hp.solid c) (hq.solid c)
  space := by rw [hp.space, hq.space]; rfl

theorem of_imp {q : Char → Bool} (hq : Steady q) (h : ∀ c, p c = true → q c = true)
    (hspace : p ' ' = false) : Steady p where
  solid c hc := hq.solid c (h c hc)
  space := hspace

theorem isWordStart : Steady FrontEnd.isWordStart where
  solid c hc := by simp [isStray, hc]
  space := by decide

theorem isDigit : Steady Char.isDigit where
  solid c hc := by simp [isStray, hc]
  space := by decide

theorem isSymbolChar : Steady FrontEnd.isSymbolChar where
  solid c hc := by simp [isStray, hc]
  space := by decide

theorem isWordChar : Steady FrontEnd.isWordChar := by
  refine (isWordStart.or isDigit).of_imp (fun c hc => ?_) (by decide)
  simp only [FrontEnd.isWordChar, Char.isAlphanum, FrontEnd.isWordStart, Bool.or_eq_true] at hc ⊢
  tauto

theorem isNumberChar : Steady FrontEnd.isNumberChar :=
  ((isWordChar.or (.char (by decide) (by decide))).or (.char (by decide) (by decide))).or
    (.char (by decide) (by decide))

end Steady

namespace Faded

variable {text text' : List Char}

theorem refl (text : List Char) : Faded text text := List.forall₂_same.mpr fun _ _ => .inl rfl

theorem append {more more' : List Char} (h : Faded text text') (hmore : Faded more more') :
    Faded (text ++ more) (text' ++ more') := List.rel_append h hmore

theorem eq_nil (h : Faded [] text') : text' = [] := List.forall₂_nil_left_iff.mp h

/-- Both texts start alike, up to a stray character of the first one. -/
theorem exists_append (h : Faded text text') :
    ∃ own rest rest', text = own ++ rest ∧ text' = own ++ rest' ∧
      ∀ p, Steady p → StopsAt p rest ∧ StopsAt p rest' := by
  induction h with
  | nil => exact ⟨[], [], [], rfl, rfl, fun p _ => ⟨.nil p, .nil p⟩⟩
  | @cons c d text text' hfades _ ih =>
      rcases hfades with rfl | ⟨hstray, rfl⟩
      · obtain ⟨own, rest, rest', rfl, rfl, hstop⟩ := ih
        exact ⟨d :: own, rest, rest', rfl, rfl, hstop⟩
      · refine ⟨[], c :: text, ' ' :: text', rfl, rfl, fun p hp => ⟨.cons ?_ _, .cons hp.space _⟩⟩
        rw [← hp.eq (d := ' ') (.inr ⟨hstray, rfl⟩), hp.space]

/-- What is ended by every stray character and by the space is found alike. -/
theorem find_eq (h : Faded text text') {α : Type} {p : Char → Bool} (hp : Steady p)
    {find : List Char → α}
    (hfind : ∀ own behind, StopsAt p behind → find (own ++ behind) = find own) :
    find text' = find text := by
  obtain ⟨own, rest, rest', rfl, rfl, hstop⟩ := h.exists_append
  rw [hfind own rest (hstop p hp).1, hfind own rest' (hstop p hp).2]

theorem scanWord_eq (h : Faded text text') : scanWord text' = scanWord text :=
  h.find_eq .isWordChar fun own _ hstop => scanWord_append_stop hstop own

theorem scanNumber_eq (h : Faded text text') : scanNumber text' = scanNumber text :=
  h.find_eq .isNumberChar fun own _ hstop => hstop.scanNumber_append own

theorem scanSymbol_eq (h : Faded text text') : scanSymbol text' = scanSymbol text :=
  h.find_eq .isSymbolChar fun own _ hstop => scanSymbol_append_stop hstop own

end Faded

/-! ## Literals

The end of a literal is looked for in the text itself. Behind it nothing was looked at, so it does
not matter what stands there. -/

/-- The end of a literal is found without what is behind it. -/
theorem closingLength_own {delimiter : Char} {n : Nat} {own behind : List Char}
    (h : closingLength delimiter n (own ++ behind) = some (n + own.length)) :
    closingLength delimiter n own = some (n + own.length) := by
  fun_induction closingLength delimiter n own with
  | case1 n =>
      have hbounds := closingLength_bounds h
      rw [List.length_nil] at hbounds
      omega
  | case2 n => rfl
  | case3 n c hc =>
      -- a single character that is no delimiter would leave the end behind the text
      exfalso
      cases behind with
      | nil =>
          rw [List.append_nil, closingLength, if_neg hc] at h
          cases h
      | cons d rest =>
          rw [List.singleton_append, closingLength, if_neg hc] at h
          split at h
          · have hbounds := closingLength_bounds h
            rw [List.length_singleton] at hbounds
            omega
          · have hbounds := closingLength_bounds h
            rw [List.length_singleton] at hbounds
            omega
  | case4 n d rest =>
      rw [List.cons_append, List.cons_append, closingLength, if_pos rfl] at h
      exact h
  | case5 n c d rest hc hescaped ih =>
      rw [List.cons_append, List.cons_append, closingLength, if_neg hc, if_pos hescaped] at h
      rw [show n + (c :: d :: rest).length = n + 2 + rest.length by
        simp only [List.length_cons]; omega] at h ⊢
      exact ih h
  | case6 n c d rest hc hescaped ih =>
      rw [List.cons_append, List.cons_append, closingLength, if_neg hc, if_neg hescaped] at h
      rw [show n + (c :: d :: rest).length = n + 1 + (d :: rest).length by
        simp only [List.length_cons]; omega] at h ⊢
      exact ih h

/-- A literal is read in the same way whatever stands behind it, unless it goes on to the end of the
text. -/
theorem scanQuoted_own {delimiter : Char} {kind : Kind} {unterminated : LexicalFault}
    {own behind behind' : List Char} (hnil : behind = [] → behind' = [])
    (h : (scanQuoted delimiter kind unterminated (own ++ behind)).length = 1 + own.length) :
    scanQuoted delimiter kind unterminated (own ++ behind') =
      scanQuoted delimiter kind unterminated (own ++ behind) := by
  by_cases hbehind : behind = []
  · rw [hbehind, hnil hbehind]
  · rw [scanQuoted, scanQuoted]
    rw [scanQuoted] at h
    cases hclosing : closingLength delimiter 1 (own ++ behind) with
    | none =>
        rw [hclosing] at h
        have hlength : 1 + (own ++ behind).length = 1 + own.length := h
        rw [List.length_append] at hlength
        exact absurd (List.length_eq_zero_iff.mp (by omega)) hbehind
    | some n =>
        rw [hclosing] at h
        obtain rfl : n = 1 + own.length := h
        rw [(closingLength_append behind' (closingLength_own hclosing)).1]

/-! ## All tokens

Behind a token a stray character and a space stop the scanners alike, so one may take the place of
the other. -/

/-- A token is found in the same way if spaces take the place of stray characters behind it. -/
theorem scan_faded {c : Char} {own behind behind' : List Char} (h : Faded behind behind')
    (hlength : (scan c (own ++ behind)).length = 1 + own.length) :
    scan c (own ++ behind') = scan c (own ++ behind) := by
  have hfaded : Faded (c :: (own ++ behind)) (c :: (own ++ behind')) :=
    (Faded.refl (c :: own)).append h
  have hnil : behind = [] → behind' = [] := by
    rintro rfl
    exact h.eq_nil
  unfold scan at hlength ⊢
  split
  · exact hfaded.scanWord_eq
  · next hword =>
    rw [if_neg hword] at hlength
    split
    · exact hfaded.scanNumber_eq
    · next hdigit =>
      rw [if_neg hdigit] at hlength
      split
      · next hquote =>
        rw [if_pos hquote] at hlength
        exact scanQuoted_own hnil hlength
      · next hquote =>
        rw [if_neg hquote] at hlength
        split
        · next hquote' =>
          rw [if_pos hquote'] at hlength
          exact scanQuoted_own hnil hlength
        · exact hfaded.scanSymbol_eq

/-- No comment starts where none has started. -/
theorem startsGap_faded {c : Char} {rest rest' : List Char} (h : Faded rest rest') :
    startsGap (c :: rest') = startsGap (c :: rest) := by
  have hslash : Steady (· == '/') := .char (by decide) (by decide)
  have hsign : Steady Gap.isCommentSign := .or (.char (by decide) (by decide))
    (.char (by decide) (by decide))
  cases h with
  | nil => rfl
  | cons hfades =>
      have heq := (hslash.or hsign).eq hfades
      rw [startsGap, startsGap]
      exact congrArg (fun opens => Gap.isBlank c || c == '/' && opens) heq

namespace Cursor

/-- Behind blanks and comments the next token is the same as without them. -/
theorem next_trivia {own behind : List Char} (h : Trivia behind own) (p : Position) :
    (Cursor.mk (own ++ behind) p).next = (Cursor.mk behind (p.after own)).next := by
  have hskip (n : Nat) : (Cursor.mk (own ++ behind) p).skip (n + own.length) =
      (Cursor.mk behind (p.after own)).skip n := by
    rw [skip, skip, Nat.add_comm, List.take_length_add_append, ← Position.after_append,
      List.drop_length_add_append]
  unfold next
  rw [h.gap_append]
  cases gap behind with
  | closed n =>
      dsimp only [Gap.shift]
      rw [hskip]
  | unclosed start =>
      dsimp only [Gap.shift]
      rw [hskip]

/-- A token that is found at once. -/
theorem next_plain {c : Char} {rest : List Char} (h : startsGap (c :: rest) = false) (p : Position) :
    (Cursor.mk (c :: rest) p).next = ((Cursor.mk (c :: rest) p).token (scan c rest),
      (Cursor.mk (c :: rest) p).skip (scan c rest).length) := by
  have hgap : gap (c :: rest) = .closed 0 := Gap.scan_of_plain h 0
  exact next_token (c := ⟨c :: rest, p⟩) hgap rfl

/-- A comment that is never closed takes all of the text. -/
theorem next_unclosed {text : List Char} (h : gap text = .unclosed 0) (p : Position) :
    (Cursor.mk text p).next = (.invalid .unterminatedComment p, ⟨[], p.after text⟩) := by
  rw [next, h]
  simp [skip]

/-- What is left of a text starts, behind its gap, with a token that is found at once, or with a
comment that is never closed. -/
theorem ownText_cases (c : Cursor) :
    startsGap (c.ownText ++ c.next.2.rest) = false ∨
      gap (c.ownText ++ c.next.2.rest) = .unclosed 0 ∧ c.next.2.rest = [] := by
  obtain ⟨own, behind, heq, htrivia, hends⟩ := gap_trivia c.rest
  have hgap := htrivia.gap_append
  rw [← heq] at hgap
  have hlength : c.gapLength = own.length := by
    unfold gapLength
    generalize gap c.rest = g at hends
    cases hends with
    | closed | unclosed => rfl
  have hbehind : c.ownText ++ c.next.2.rest = behind := by
    have hrest := c.rest_eq
    rw [gapText, hlength, heq, List.take_left] at hrest
    exact (List.append_cancel_left hrest).symm
  have hends' : Gap.EndsAt 0 behind (gap behind) := (hgap ▸ hends).unshift
  rw [hbehind]
  generalize hscan : gap behind = g at hends'
  cases hends' with
  | closed hplain => exact .inl hplain
  | unclosed =>
      refine .inr ⟨rfl, ?_⟩
      rw [hscan] at hgap
      rw [next, hgap]
      exact List.drop_length

/-- The gap in front of a token does not matter to it. -/
theorem next_ownText (c : Cursor) :
    (Cursor.mk (c.ownText ++ c.next.2.rest) c.next.1.position).next = c.next := by
  have hnext := next_trivia c.gapText_trivia.1 c.position
  rw [← c.rest_eq, ← c.next_position] at hnext
  exact hnext.symm

/-- A token that is found at once takes what is scanned at its place. -/
theorem scan_ownText (c : Cursor) (hend : c.next.1.kind ≠ .endOfFile)
    (hplain : startsGap (c.ownText ++ c.next.2.rest) = false) :
    ∃ first own, c.ownText = first :: own ∧
      (scan first (own ++ c.next.2.rest)).length = own.length + 1 ∧
      c.next.1 = (Cursor.mk (c.ownText ++ c.next.2.rest) c.next.1.position).token
        (scan first (own ++ c.next.2.rest)) := by
  have hbase := c.next_ownText
  obtain ⟨first, own, hown⟩ :=
    List.exists_cons_of_ne_nil fun he => hend (c.next_covers.own_eq_nil_iff.mp he)
  rw [hown, List.cons_append] at hbase hplain
  rw [next_plain hplain] at hbase
  have hread := scan_reads (startsSolid_of_startsGap hplain first rfl) (own ++ c.next.2.rest)
  -- the length of the token follows from what is left behind it
  have hrest : (first :: (own ++ c.next.2.rest)).drop (scan first (own ++ c.next.2.rest)).length =
      c.next.2.rest := congrArg (fun found => found.2.rest) hbase
  have hlength : (scan first (own ++ c.next.2.rest)).length = own.length + 1 := by
    have hle := hread.le
    have hdrop := congrArg List.length hrest
    simp only [List.length_drop, List.length_cons, List.length_append] at hdrop hle
    omega
  refine ⟨first, own, hown, hlength, ?_⟩
  rw [hown, List.cons_append]
  exact (congrArg Prod.fst hbase).symm

/-- A token is read in the same way in front of another text, if the same scan finds it there. -/
theorem next_behind (c : Cursor) (hend : c.next.1.kind ≠ .endOfFile)
    (hplain : startsGap (c.ownText ++ c.next.2.rest) = false) {first : Char}
    {own behind : List Char} (hown : c.ownText = first :: own)
    (hplain' : startsGap (first :: (own ++ behind)) = false)
    (hscan : scan first (own ++ behind) = scan first (own ++ c.next.2.rest)) :
    (Cursor.mk (c.ownText ++ behind) c.next.1.position).next =
      (c.next.1, ⟨behind, c.next.2.position⟩) := by
  obtain ⟨first', own', hown', hlength, htoken⟩ := c.scan_ownText hend hplain
  obtain ⟨rfl, rfl⟩ := List.cons.inj (hown'.symm.trans hown)
  have htake (more : List Char) :
      (first' :: (own' ++ more)).take (own'.length + 1) = first' :: own' := by
    rw [List.take_succ_cons, List.take_left]
  have hdrop (more : List Char) : (first' :: (own' ++ more)).drop (own'.length + 1) = more := by
    rw [List.drop_succ_cons, List.drop_left]
  rw [hown, List.cons_append] at htoken
  rw [hown, List.cons_append, next_plain hplain', hscan, Prod.ext_iff]
  constructor
  · show _ = c.next.1
    refine Eq.trans ?_ htoken.symm
    dsimp only [token]
    rw [hlength, htake, htake]
  · rw [skip, hlength]
    dsimp only
    rw [htake, hdrop, ← hown, c.behind_position, Position.after_append, ← c.next_position]

/-- A token is read in the same way if spaces take the place of stray characters behind it. -/
theorem next_faded (c : Cursor) (hend : c.next.1.kind ≠ .endOfFile) {behind : List Char}
    (h : Faded c.next.2.rest behind) :
    (Cursor.mk (c.ownText ++ behind) c.next.1.position).next =
      (c.next.1, ⟨behind, c.next.2.position⟩) := by
  rcases c.ownText_cases with hplain | ⟨-, hnil⟩
  · obtain ⟨first, own, hown, hlength, -⟩ := c.scan_ownText hend hplain
    refine c.next_behind hend hplain hown ?_ (scan_faded h (hlength.trans (Nat.add_comm _ 1)))
    rw [hown, List.cons_append] at hplain
    exact (startsGap_faded ((Faded.refl own).append h)).trans hplain
  · have hbase := c.next_ownText
    have hbehind : behind = [] := by
      rw [hnil] at h
      exact h.eq_nil
    rw [hnil] at hbase
    rw [hbehind, hbase, ← hnil]

end Cursor

end FrontEnd
