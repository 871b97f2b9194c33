import FrontEnd.Proofs.Token.Fading

set_option autoImplicit false

/-! # Line ends and tokens

A text and its form with normalised line ends have the same tokens at the same places, apart from the
line ends in the texts of literals (`tokens_ofText_buffer`). A line end may stand anywhere: in a
gap, in a literal, even behind a backslash, or at the edge of a comment, and a carriage return may
stand alone.

The two texts are read side by side. What is left of the one is always the normalised form of what is
left of the other, because no token ends between the two characters of a line end.

For one token there are three cases. A token that is no literal ends before the first carriage return,
where the texts have not parted yet. A literal goes over line ends, and its delimiter is found at
corresponding places (`ClosesAlike`). A gap is followed through its blanks and comments, in both
directions for comments, as it has to be known too that no comment is closed by normalising.
-/

namespace FrontEnd

/-! ## Normalised texts

Only a carriage return in front of a line feed is left out. Whatever starts with another character
starts with the same character when it is normalised. -/

section

variable {text : List Char}

/-- The first character stays, unless it is a carriage return that gives way to the line feed behind
it. -/
theorem head?_normalizeNewlines (text : List Char) :
    (normalizeNewlines text).head? = text.head? ∨
      text.head? = some '\r' ∧ (normalizeNewlines text).head? = some '\n' := by
  cases text with
  | nil => exact .inl rfl
  | cons c rest =>
      rcases normalizeNewlines_cons c rest with ⟨rfl, hfeed, heq⟩ | ⟨-, heq⟩
      · obtain ⟨more, rfl⟩ := List.head?_eq_some_iff.mp hfeed
        exact .inr ⟨rfl, rfl⟩
      · rw [heq]
        exact .inl rfl

theorem normalizeNewlines_cons_of_ne {c : Char} (hc : c ≠ '\r') (rest : List Char) :
    normalizeNewlines (c :: rest) = c :: normalizeNewlines rest :=
  (normalizeNewlines_cons c rest).elim (fun h => absurd h.1 hc) And.right

/-- A text that starts with a character that is not part of a line end came from one that does. -/
theorem exists_cons_of_normalizeNewlines {c : Char} {rest : List Char} (hc : c ≠ '\n')
    (h : normalizeNewlines text = c :: rest) :
    ∃ rest', text = c :: rest' ∧ normalizeNewlines rest' = rest := by
  cases text with
  | nil => cases h
  | cons d rest' =>
      rcases normalizeNewlines_cons d rest' with ⟨-, hfeed, heq⟩ | ⟨-, heq⟩
      · obtain ⟨more, rfl⟩ := List.head?_eq_some_iff.mp hfeed
        rw [heq, normalizeNewlines_cons_of_ne (by decide)] at h
        exact absurd (List.cons.inj h).1.symm hc
      · obtain ⟨rfl, rfl⟩ := List.cons.inj (heq.symm.trans h)
        exact ⟨rest', rfl, rfl⟩

theorem normalizeNewlines_of_not_mem (h : '\r' ∉ text) : normalizeNewlines text = text :=
  normalizeNewlines_eq (noCrLf_of_not_mem h)

/-- A line feed leads to the same place with a carriage return in front of it. -/
theorem Position.after_normalizeNewlines (p : Position) (text : List Char) :
    p.after (normalizeNewlines text) = p.after text := by
  induction text generalizing p with
  | nil => rfl
  | cons c rest ih =>
      rcases normalizeNewlines_cons c rest with ⟨rfl, hfeed, heq⟩ | ⟨-, heq⟩
      · obtain ⟨more, rfl⟩ := List.head?_eq_some_iff.mp hfeed
        rw [heq, ih]
        rfl
      · rw [heq, after_cons, ih, after_cons]

end

/-! ## Tokens that are no literals

Such a token holds no carriage return, so it is the same in both texts. What stands behind it
differs only in line ends, at which every scanner stops. -/

/-- A scan finds the same in the normalised text as another one in the text itself. The lengths may
differ, so what is compared is the text that was taken and the text that is left. -/
structure Scan.Normalized (text : List Char) (s s' : Scan) : Prop where
  outcome_eq : s'.outcome = s.outcome
  take_eq : (normalizeNewlines text).take s'.length = normalizeNewlines (text.take s.length)
  drop_eq : (normalizeNewlines text).drop s'.length = normalizeNewlines (text.drop s.length)

/-- What is read from a first part of a text is read from its normalised form as well. -/
theorem Scan.Normalized.of_append {s s' : Scan} {own rest : List Char}
    (houtcome : s'.outcome = s.outcome) (hlength : s.length = own.length)
    (hlength' : s'.length = (normalizeNewlines own).length)
    (hends : own.getLast? = some '\r' → rest.head? ≠ some '\n') :
    Normalized (own ++ rest) s s' where
  outcome_eq := houtcome
  take_eq := by rw [normalizeNewlines_append hends, hlength, hlength', List.take_left, List.take_left]
  drop_eq := by rw [normalizeNewlines_append hends, hlength, hlength', List.drop_left, List.drop_left]

/-- Up to its first carriage return a text is left as it is. -/
theorem exists_append_normalizeNewlines (text : List Char) :
    ∃ own rest, text = own ++ rest ∧ '\r' ∉ own ∧ StartsBlank rest ∧
      normalizeNewlines text = own ++ normalizeNewlines rest ∧
      StartsBlank (normalizeNewlines rest) := by
  have hown : '\r' ∉ text.takeWhile (· != '\r') := fun hmem => by
    have hne := List.mem_takeWhile_imp hmem
    simp at hne
  have hlast : (text.takeWhile (· != '\r')).getLast? = some '\r' →
      (text.dropWhile (· != '\r')).head? ≠ some '\n' :=
    fun hr => absurd (List.mem_of_getLast? hr) hown
  have hhead : ∀ c ∈ (text.dropWhile (· != '\r')).head?, c = '\r' := fun c hc => by
    have hstop := List.head?_dropWhile_not (· != '\r') text
    rw [Option.mem_def.mp hc] at hstop
    simpa using hstop
  refine ⟨text.takeWhile (· != '\r'), text.dropWhile (· != '\r'),
    List.takeWhile_append_dropWhile.symm, hown, fun c hc => by rw [hhead c hc]; rfl, ?_, ?_⟩
  · have happend := normalizeNewlines_append hlast
    rwa [List.takeWhile_append_dropWhile, normalizeNewlines_of_not_mem hown] at happend
  · intro c hc
    rcases head?_normalizeNewlines (text.dropWhile (· != '\r')) with heq | ⟨-, heq⟩
    · rw [heq] at hc
      rw [hhead c hc]
      rfl
    · rw [Option.mem_def.mp hc] at heq
      cases heq
      rfl

/-- A token that is no literal ends in front of the first carriage return. -/
theorem scan_normalizeNewlines_plain {c : Char} (hblank : Gap.isBlank c = false)
    (hc : c ≠ '"' ∧ c ≠ '\'') (text : List Char) :
    Scan.Normalized (c :: text) (scan c text) (scan c (normalizeNewlines text)) := by
  obtain ⟨own, rest, rfl, hown, hrest, heq, hrest'⟩ := exists_append_normalizeNewlines text
  have hreturn : '\r' ∉ c :: own := by
    rw [List.mem_cons, not_or]
    refine ⟨?_, hown⟩
    rintro rfl
    cases hblank
  have hle : (scan c own).length ≤ (c :: own).length := (scan_reads hblank own).le
  rw [heq, hrest.scan_append hc, hrest'.scan_append hc]
  have hsplit : c :: (own ++ rest) = (c :: own).take (scan c own).length ++
      ((c :: own).drop (scan c own).length ++ rest) := by
    rw [← List.append_assoc, List.take_append_drop, List.cons_append]
  have htake : '\r' ∉ (c :: own).take (scan c own).length :=
    fun hmem => hreturn (List.mem_of_mem_take hmem)
  have hlength : (scan c own).length = ((c :: own).take (scan c own).length).length := by
    rw [List.length_take, Nat.min_eq_left hle]
  rw [hsplit]
  refine .of_append rfl hlength ?_ fun hr => absurd (List.mem_of_getLast? hr) htake
  rw [normalizeNewlines_of_not_mem htake, ← hlength]

/-! ## Literals

A literal may go over line ends. Its closing delimiter is the same one in both texts, although fewer
characters may stand in front of it in the normalised text. -/

theorem closingLength_close (delimiter : Char) (n : Nat) (rest : List Char) :
    closingLength delimiter n (delimiter :: rest) = some (n + 1) := by
  cases rest with
  | nil => exact if_pos rfl
  | cons d rest => exact if_pos rfl

theorem closingLength_escaped {delimiter : Char} (h : delimiter ≠ '\\') (n : Nat)
    (rest : List Char) :
    closingLength delimiter n ('\\' :: delimiter :: rest) = closingLength delimiter (n + 2) rest := by
  rw [closingLength, if_neg (Ne.symm h), if_pos ⟨rfl, rfl⟩]

theorem closingLength_other {delimiter c : Char} {rest : List Char} (hc : c ≠ delimiter)
    (hescaped : c = '\\' → rest.head? ≠ some delimiter) (n : Nat) :
    closingLength delimiter n (c :: rest) = closingLength delimiter (n + 1) rest := by
  cases rest with
  | nil => exact if_neg hc
  | cons d rest =>
      rw [closingLength, if_neg hc, if_neg fun h => hescaped h.1 (by rw [h.2]; rfl)]

/-- From a place within a literal on, it ends at the same place of a text and of the normalised
text, or in neither of them. -/
inductive ClosesAlike (delimiter : Char) (n k : Nat) (text : List Char) : Prop where
  | unclosed (h : closingLength delimiter n text = none)
      (h' : closingLength delimiter k (normalizeNewlines text) = none)
  | closed {own rest : List Char} (htext : text = own ++ rest) (hlast : own.getLast? = some delimiter)
      (h : closingLength delimiter n text = some (n + own.length))
      (h' : closingLength delimiter k (normalizeNewlines text) =
        some (k + (normalizeNewlines own).length))

/-- A first part of a literal in front of the rest of it. -/
theorem ClosesAlike.within {delimiter : Char} {n k : Nat} {rest : List Char} (part part' : List Char)
    (hnorm : ∀ own behind, own ≠ [] → rest = own ++ behind →
      normalizeNewlines (part ++ own) = part' ++ normalizeNewlines own)
    (hstep : closingLength delimiter n (part ++ rest) =
      closingLength delimiter (n + part.length) rest)
    (hstep' : closingLength delimiter k (normalizeNewlines (part ++ rest)) =
      closingLength delimiter (k + part'.length) (normalizeNewlines rest))
    (h : ClosesAlike delimiter (n + part.length) (k + part'.length) rest) :
    ClosesAlike delimiter n k (part ++ rest) := by
  cases h with
  | unclosed h h' => exact .unclosed (hstep.trans h) (hstep'.trans h')
  | @closed own behind htext hlast h h' =>
      have hown : own ≠ [] := by
        rintro rfl
        cases hlast
      have hall : part ++ rest = (part ++ own) ++ behind := by rw [htext, List.append_assoc]
      refine .closed hall ?_ ?_ ?_
      · rw [List.getLast?_append, hlast]
        rfl
      · rw [hstep, h, List.length_append, Nat.add_assoc]
      · rw [hstep', h', hnorm own behind hown htext, List.length_append, Nat.add_assoc]

section

variable {delimiter c : Char} {n k : Nat} {rest : List Char}

theorem ClosesAlike.close (hreturn : delimiter ≠ '\r') :
    ClosesAlike delimiter n k (delimiter :: rest) := by
  have hown : delimiter :: rest = [delimiter] ++ rest := rfl
  refine .closed hown rfl (closingLength_close delimiter n rest) ?_
  rw [normalizeNewlines_cons_of_ne hreturn, closingLength_close, normalizeNewlines_cons_of_ne hreturn]
  rfl

theorem ClosesAlike.escaped (hreturn : delimiter ≠ '\r') (hslash : delimiter ≠ '\\')
    (h : ClosesAlike delimiter (n + 2) (k + 2) rest) :
    ClosesAlike delimiter n k ('\\' :: delimiter :: rest) := by
  have hpair (more : List Char) : normalizeNewlines ('\\' :: delimiter :: more) =
      '\\' :: delimiter :: normalizeNewlines more := by
    rw [normalizeNewlines_cons_of_ne (by decide), normalizeNewlines_cons_of_ne hreturn]
  refine .within ['\\', delimiter] ['\\', delimiter] (fun own _ _ _ => hpair own)
    (closingLength_escaped hslash n rest) ?_ h
  exact (congrArg _ (hpair rest)).trans (closingLength_escaped hslash k _)

theorem ClosesAlike.other (hfeed : delimiter ≠ '\n') (hc : c ≠ delimiter)
    (hescaped : c = '\\' → rest.head? ≠ some delimiter)
    (h : ∀ n k, ClosesAlike delimiter n k rest) : ClosesAlike delimiter n k (c :: rest) := by
  have hstep := closingLength_other hc hescaped n
  rcases normalizeNewlines_cons c rest with ⟨rfl, hhead, heq⟩ | ⟨hne, heq⟩
  · refine .within ['\r'] [] (fun own behind hown hsplit => ?_) hstep (congrArg _ heq) (h _ _)
    -- what is left of the literal starts with the line feed
    obtain ⟨d, own, rfl⟩ := List.exists_cons_of_ne_nil hown
    rw [hsplit] at hhead
    obtain rfl : d = '\n' := Option.some.inj hhead
    rfl
  · have hescaped' : c = '\\' → (normalizeNewlines rest).head? ≠ some delimiter := by
      intro hback hhead
      rcases head?_normalizeNewlines rest with hsame | ⟨-, hline⟩
      · exact hescaped hback (hsame ▸ hhead)
      · exact hfeed (Option.some.inj (hhead.symm.trans hline))
    refine .within [c] [c] (fun own behind hown hsplit => ?_) hstep ?_ (h _ _)
    · obtain ⟨d, own, rfl⟩ := List.exists_cons_of_ne_nil hown
      rcases normalizeNewlines_cons c (d :: own) with ⟨hcr, hhead, -⟩ | ⟨-, heq'⟩
      · exact absurd (hsplit ▸ hhead) (hne hcr)
      · exact heq'
    · exact (congrArg _ heq).trans (closingLength_other hc hescaped' k)

end

/-- The text is read from delimiter to delimiter, an escaped one as a pair. A carriage return behind a
backslash is no delimiter, so it does not matter that it may be left out. -/
theorem closesAlike {delimiter : Char} (hreturn : delimiter ≠ '\r') (hfeed : delimiter ≠ '\n')
    (hslash : delimiter ≠ '\\') (n k : Nat) (text : List Char) :
    ClosesAlike delimiter n k text := by
  induction hlength : text.length using Nat.strong_induction_on generalizing n k text with
  | h length ih =>
    cases text with
    | nil => exact .unclosed rfl rfl
    | cons c rest =>
        have hrest : rest.length < length := by
          rw [← hlength, List.length_cons]
          omega
        by_cases hc : c = delimiter
        · subst hc
          exact .close hreturn
        by_cases hescaped : c = '\\' ∧ rest.head? = some delimiter
        · obtain ⟨rfl, hhead⟩ := hescaped
          obtain ⟨rest, rfl⟩ := List.head?_eq_some_iff.mp hhead
          exact .escaped hreturn hslash (ih _ (Nat.lt_of_succ_lt hrest) _ _ rest rfl)
        · rw [not_and] at hescaped
          exact .other hfeed hc hescaped fun n k => ih _ hrest n k rest rfl

theorem scanQuoted_normalizeNewlines {delimiter : Char} (hreturn : delimiter ≠ '\r')
    (hfeed : delimiter ≠ '\n') (hslash : delimiter ≠ '\\') (kind : Kind)
    (unterminated : LexicalFault) (text : List Char) :
    Scan.Normalized (delimiter :: text) (scanQuoted delimiter kind unterminated text)
      (scanQuoted delimiter kind unterminated (normalizeNewlines text)) := by
  rw [scanQuoted, scanQuoted]
  cases closesAlike hreturn hfeed hslash 1 1 text with
  | unclosed h h' =>
      rw [h, h']
      have hnorm : normalizeNewlines (delimiter :: text) = delimiter :: normalizeNewlines text :=
        normalizeNewlines_cons_of_ne hreturn text
      have hall : Scan.Normalized (delimiter :: text ++ [])
          (.fault unterminated (1 + text.length))
          (.fault unterminated (1 + (normalizeNewlines text).length)) :=
        .of_append rfl (Nat.add_comm 1 _) (by rw [hnorm]; exact Nat.add_comm 1 _) (fun _ => by simp)
      rwa [List.append_nil] at hall
  | @closed own rest htext hlast h h' =>
      rw [h, h', htext, ← List.cons_append]
      refine .of_append rfl (Nat.add_comm 1 _) ?_ fun hr => ?_
      · rw [normalizeNewlines_cons_of_ne hreturn]
        exact Nat.add_comm 1 _
      · rw [List.getLast?_cons, hlast] at hr
        exact absurd (Option.some.inj hr) hreturn

/-- Whatever starts a token, the same is found in the normalised text. -/
theorem scan_normalizeNewlines {c : Char} (hblank : Gap.isBlank c = false) (text : List Char) :
    Scan.Normalized (c :: text) (scan c text) (scan c (normalizeNewlines text)) := by
  by_cases hstring : c = '"'
  · subst hstring
    exact scanQuoted_normalizeNewlines (by decide) (by decide) (by decide) _ _ text
  by_cases hchar : c = '\''
  · subst hchar
    exact scanQuoted_normalizeNewlines (by decide) (by decide) (by decide) _ _ text
  · exact scan_normalizeNewlines_plain hblank ⟨hstring, hchar⟩ text

/-! ## Gaps

A carriage return is a blank, and within a comment it is passed over. So a gap ends at the same
place in both texts, and a comment that is not closed stays open. -/

namespace CommentTail

variable {depth : Nat} {body : List Char}

theorem getLast?_eq (h : CommentTail depth body) : body.getLast? = some '/' := by
  induction h with
  | last hsign => rfl
  | close hsign _ ih | nest hsign _ ih => rw [List.getLast?_cons, List.getLast?_cons, ih]; rfl
  | other hopen hclose _ ih => rw [List.getLast?_cons, ih]; rfl

/-- A character that has nothing to do with comments in front of the rest of one. -/
theorem skip (h : CommentTail depth body) {c : Char} (hslash : c ≠ '/')
    (hsign : Gap.isCommentSign c = false) : CommentTail depth (c :: body) := by
  obtain ⟨d, rest, rfl⟩ := h.exists_cons
  exact .other (fun hopen => hslash hopen.1) (fun hclose => by rw [hsign] at hclose; cases hclose.1) h

/-- What may stand behind a character in a comment may also be part of a line end. -/
theorem other_head (h : CommentTail depth body) {c d : Char}
    (hopen : ¬ (c = '/' ∧ Gap.isCommentSign d = true))
    (hclose : ¬ (Gap.isCommentSign c = true ∧ d = '/'))
    (hhead : ∀ e ∈ body.head?, e = d ∨ e = '\r' ∨ e = '\n') : CommentTail depth (c :: body) := by
  obtain ⟨e, rest, rfl⟩ := h.exists_cons
  rcases hhead e rfl with rfl | rfl | rfl
  · exact .other hopen hclose h
  · exact .other (fun hopen => by cases hopen.2) (fun hclose => by cases hclose.2) h
  · exact .other (fun hopen => by cases hopen.2) (fun hclose => by cases hclose.2) h

theorem normalizeNewlines (h : CommentTail depth body) :
    CommentTail depth (FrontEnd.normalizeNewlines body) := by
  have hne {sign : Char} (hsign : Gap.isCommentSign sign = true) : sign ≠ '\r' := by
    rintro rfl
    cases hsign
  induction h with
  | last hsign =>
      rw [normalizeNewlines_cons_of_ne (hne hsign), normalizeNewlines_cons_of_ne (by decide)]
      exact .last hsign
  | close hsign _ ih =>
      rw [normalizeNewlines_cons_of_ne (hne hsign), normalizeNewlines_cons_of_ne (by decide)]
      exact .close hsign ih
  | nest hsign _ ih =>
      rw [normalizeNewlines_cons_of_ne (by decide), normalizeNewlines_cons_of_ne (hne hsign)]
      exact .nest hsign ih
  | @other depth c d rest hopen hclose _ ih =>
      rcases normalizeNewlines_cons c (d :: rest) with ⟨-, -, heq⟩ | ⟨-, heq⟩
      · rwa [heq]
      · rw [heq]
        refine ih.other_head hopen hclose fun e he => ?_
        rcases head?_normalizeNewlines (d :: rest) with hsame | ⟨-, hline⟩
        · exact .inl (Option.some.inj (he.symm.trans hsame))
        · exact .inr (.inr (Option.some.inj (he.symm.trans hline)))

/-- A comment that ends in a normalised text ends in the text itself. -/
theorem of_normalizeNewlines (h : CommentTail depth body) {text more : List Char}
    (htext : FrontEnd.normalizeNewlines text = body ++ more) :
    ∃ body' more', text = body' ++ more' ∧ CommentTail depth body' := by
  have hne {sign : Char} (hsign : Gap.isCommentSign sign = true) : sign ≠ '\n' := by
    rintro rfl
    cases hsign
  -- the signs of a comment are no line ends, so they stand in the text as well; between them the
  -- text may have carriage returns that are left out
  induction h generalizing text with
  | @last sign hsign =>
      obtain ⟨rest, rfl, hrest⟩ := exists_cons_of_normalizeNewlines (hne hsign) htext
      obtain ⟨rest, rfl, -⟩ := exists_cons_of_normalizeNewlines (by decide) hrest
      exact ⟨[sign, '/'], rest, rfl, .last hsign⟩
  | @close depth sign body hsign _ ih =>
      obtain ⟨rest, rfl, hrest⟩ := exists_cons_of_normalizeNewlines (hne hsign) htext
      obtain ⟨rest, rfl, hrest'⟩ := exists_cons_of_normalizeNewlines (by decide) hrest
      obtain ⟨body', more', rfl, hbody⟩ := ih hrest'
      exact ⟨sign :: '/' :: body', more', rfl, .close hsign hbody⟩
  | @nest depth sign body hsign _ ih =>
      obtain ⟨rest, rfl, hrest⟩ := exists_cons_of_normalizeNewlines (by decide) htext
      obtain ⟨rest, rfl, hrest'⟩ := exists_cons_of_normalizeNewlines (hne hsign) hrest
      obtain ⟨body', more', rfl, hbody⟩ := ih hrest'
      exact ⟨'/' :: sign :: body', more', rfl, .nest hsign hbody⟩
  | @other depth c d body hopen hclose _ ih =>
      cases text with
      | nil => cases htext
      | cons x rest =>
          rcases normalizeNewlines_cons x rest with ⟨rfl, hfeed, heq⟩ | ⟨-, heq⟩
          · -- a line end, both characters of which are passed over
            obtain ⟨rest, rfl⟩ := List.head?_eq_some_iff.mp hfeed
            rw [heq, normalizeNewlines_cons_of_ne (by decide)] at htext
            obtain ⟨body', more', rfl, hbody⟩ := ih (List.cons.inj htext).2
            exact ⟨'\r' :: '\n' :: body', more', rfl,
              (hbody.skip (by decide) rfl).skip (by decide) rfl⟩
          · obtain ⟨rfl, hrest⟩ := List.cons.inj (heq.symm.trans htext)
            obtain ⟨body', more', rfl, hbody⟩ := ih hrest
            refine ⟨x :: body', more', rfl, hbody.other_head hopen hclose fun e he => ?_⟩
            have hhead : (body' ++ more').head? = some e := by
              rw [List.head?_append, Option.mem_def.mp he]
              rfl
            rcases head?_normalizeNewlines (body' ++ more') with hsame | ⟨hline, -⟩
            · rw [hrest, hhead] at hsame
              exact .inl (Option.some.inj hsame).symm
            · exact .inr (.inl (Option.some.inj (hhead.symm.trans hline)))

end CommentTail

/-- The body of a line comment keeps to its line. -/
theorem exists_line_normalizeNewlines {body : List Char} (hbody : '\n' ∉ body) (rest : List Char) :
    ∃ body', '\n' ∉ body' ∧
      normalizeNewlines (body ++ rest) = body' ++ normalizeNewlines rest := by
  induction body with
  | nil => exact ⟨[], hbody, rfl⟩
  | cons c body ih =>
      rw [List.mem_cons, not_or] at hbody
      obtain ⟨body', hbody', heq⟩ := ih hbody.2
      rw [List.cons_append]
      rcases normalizeNewlines_cons c (body ++ rest) with ⟨-, -, hpair⟩ | ⟨-, hkept⟩
      · exact ⟨body', hbody', hpair.trans heq⟩
      · refine ⟨c :: body', ?_, by rw [hkept, heq, List.cons_append]⟩
        rw [List.mem_cons, not_or]
        exact ⟨hbody.1, hbody'⟩

/-- A gap stays a gap. -/
theorem Trivia.normalizeNewlines {behind own : List Char} (h : Trivia behind own)
    (hsolid : StartsSolid behind) :
    Trivia (FrontEnd.normalizeNewlines behind) (FrontEnd.normalizeNewlines own) := by
  induction h with
  | nil => exact .nil
  | @blank c rest hc _ ih =>
      rcases normalizeNewlines_cons c rest with ⟨-, -, heq⟩ | ⟨-, heq⟩
      · rwa [heq]
      · rw [heq]
        exact .blank hc ih
  | @line body rest hbody hend _ ih =>
      obtain ⟨body', hbody', heq⟩ := exists_line_normalizeNewlines hbody rest
      rw [normalizeNewlines_cons_of_ne (by decide), normalizeNewlines_cons_of_ne (by decide), heq]
      refine .line hbody' ?_ ih
      cases rest with
      | cons c rest =>
          obtain rfl := hend c rfl
          rw [normalizeNewlines_cons_of_ne (by decide)]
          rintro d ⟨⟩
          rfl
      | nil =>
          cases behind with
          | nil => nofun
          | cons c behind =>
              -- a line feed is a blank
              have hblank := hsolid c rfl
              rw [hend c rfl] at hblank
              cases hblank
  | @comment sign body rest hsign hbody _ ih =>
      have hne : sign ≠ '\r' := by
        rintro rfl
        cases hsign
      rw [normalizeNewlines_cons_of_ne (by decide), normalizeNewlines_cons_of_ne hne,
        normalizeNewlines_append fun hr => absurd (hbody.getLast?_eq.symm.trans hr) (by decide)]
      exact .comment hsign hbody.normalizeNewlines ih

/-- No gap starts where none has started. -/
theorem startsGap_normalizeNewlines {c : Char} {rest : List Char}
    (h : startsGap (c :: rest) = false) : startsGap (c :: normalizeNewlines rest) = false := by
  have hblank := startsSolid_of_startsGap h c rfl
  rcases head?_normalizeNewlines rest with hsame | ⟨-, hline⟩
  · cases rest with
    | nil => exact h
    | cons d rest =>
        obtain ⟨more, hmore⟩ := List.head?_eq_some_iff.mp hsame
        rw [hmore]
        exact h
  · obtain ⟨more, hmore⟩ := List.head?_eq_some_iff.mp hline
    rw [hmore, startsGap, hblank]
    exact Bool.and_false _

/-- A comment that is never closed is not closed in the normalised text either. -/
theorem gap_normalizeNewlines_unclosed {text : List Char} (h : gap text = .unclosed 0) :
    gap (normalizeNewlines text) = .unclosed 0 := by
  obtain ⟨own, behind, rfl, -, hends⟩ := gap_trivia text
  rw [h] at hends
  generalize hown : own.length = n at hends
  cases hends with
  | unclosed hopens =>
      obtain rfl := List.eq_nil_of_length_eq_zero hown
      obtain ⟨sign, body, hsign, rfl⟩ := hopens
      have hne : sign ≠ '\r' ∧ sign ≠ '/' := by
        constructor
        · rintro rfl
          cases hsign
        · rintro rfl
          cases hsign
      have hblank : ¬ Gap.isBlank '/' = true := by decide
      have hscan (rest : List Char) :
          gap ('/' :: sign :: rest) = Gap.scan (.block 0 0) 2 rest := by
        rw [gap, Gap.scan, if_neg hblank, if_pos rfl, if_neg hne.2, if_pos hsign]
      rw [List.nil_append, hscan] at h
      -- the signs that open the comment are no line ends, so they are kept
      rw [List.nil_append, normalizeNewlines_cons_of_ne (by decide),
        normalizeNewlines_cons_of_ne hne.1, hscan]
      rcases Gap.scan_found (.block 0 0) 2 (normalizeNewlines body) with
        hunclosed | ⟨tail, own, behind, htext, htail, -, -⟩
      · exact hunclosed
      · -- otherwise it would be closed in the text itself
        obtain ⟨body', more', rfl, hbody⟩ := htail.of_normalizeNewlines htext
        rw [hbody.scan] at h
        obtain ⟨own', behind', -, -, hends⟩ := Gap.scan_found .blank (2 + body'.length) more'
        rw [h] at hends
        generalize hn : 2 + body'.length + own'.length = n at hends
        cases hends with
        | unclosed => omega

/-! ## Streams

The two cursors stay side by side from token to token. Their positions agree at every token, as a
carriage return that is left out has only moved the column of a line that ends there. -/

/-- The token with the line ends of its text normalised. Only the text of a literal can hold a line
end. -/
def Token.normalized (t : Token) : Token :=
  { t with lexeme := String.ofList (normalizeNewlines t.lexeme.toList) }

/-- The cursor with the line ends of what is left normalised. -/
def Cursor.normalized (c : Cursor) : Cursor := ⟨normalizeNewlines c.rest, c.position⟩

/-- No message has a line end. -/
theorem Token.normalized_invalid (fault : LexicalFault) (p : Position) :
    (invalid fault p).normalized = invalid fault p := by
  have hreturn : '\r' ∉ fault.message.toList := by
    cases fault <;> decide
  rw [normalized, invalid, normalizeNewlines_of_not_mem hreturn, String.ofList_toList]

namespace Cursor

/-- A token that is found at once is found in the normalised text. -/
theorem next_normalized_plain {text : List Char} (h : startsGap text = false) (p : Position) :
    (Cursor.mk text p).normalized.next =
      ((Cursor.mk text p).next.1.normalized, (Cursor.mk text p).next.2.normalized) := by
  cases text with
  | nil => rfl
  | cons c rest =>
      have hblank := startsSolid_of_startsGap h c rfl
      have hreturn : c ≠ '\r' := by
        rintro rfl
        cases hblank
      have hnorm := normalizeNewlines_cons_of_ne hreturn rest
      have hscan := scan_normalizeNewlines hblank rest
      rw [normalized, hnorm, next_plain (startsGap_normalizeNewlines h), next_plain h, Prod.mk.injEq,
        ← hnorm]
      constructor
      · rw [token, token, hscan.outcome_eq]
        cases (scan c rest).outcome with
        | error fault => exact (Token.normalized_invalid fault p).symm
        | ok kind =>
            dsimp only [Token.normalized]
            rw [hscan.take_eq, String.toList_ofList]
      · dsimp only [skip, normalized]
        rw [hscan.drop_eq, hscan.take_eq, Position.after_normalizeNewlines]

/-- The next token of the normalised text is the next token of the text, and what is left of the one
is the normalised form of what is left of the other. -/
theorem next_normalized (c : Cursor) :
    c.normalized.next = (c.next.1.normalized, c.next.2.normalized) := by
  obtain ⟨htrivia, hsolid⟩ := c.gapText_trivia
  have hsplit : normalizeNewlines c.rest = normalizeNewlines c.gapText ++
      normalizeNewlines (c.ownText ++ c.next.2.rest) := by
    rw [← normalizeNewlines_append fun _ hfeed => Bool.noConfusion (hsolid _ hfeed), ← c.rest_eq]
  have hnext : c.normalized.next =
      (Cursor.mk (c.ownText ++ c.next.2.rest) c.next.1.position).normalized.next := by
    rw [normalized, hsplit, next_trivia (htrivia.normalizeNewlines hsolid),
      Position.after_normalizeNewlines, ← c.next_position]
    rfl
  have hbase := c.next_ownText
  rw [hnext]
  rcases c.ownText_cases with hplain | ⟨hunclosed, -⟩
  · rw [next_normalized_plain hplain, hbase]
  · rw [next_unclosed hunclosed] at hbase
    rw [normalized, next_unclosed (gap_normalizeNewlines_unclosed hunclosed),
      Position.after_normalizeNewlines, hbase]
    conv_rhs => rw [← hbase, Token.normalized_invalid]
    exact hbase.symm

end Cursor

/-- The text of an invalid token is a message. -/
theorem Cursor.normalized_of_invalid {c : Cursor} (h : c.next.1.kind = .invalid) :
    c.next.1.normalized = c.next.1 := by
  have hcovers := c.next_covers
  generalize c.next.1 = t, c.ownText = own at h hcovers
  cases hcovers with
  | valid _ hinvalid => exact absurd h hinvalid
  | invalid => exact Token.normalized_invalid _ _
  | endOfFile => cases h

theorem Stream.ofCursor_normalized (c : Cursor) :
    (ofCursor c.normalized).all = (ofCursor c).all.map Token.normalized := by
  induction hlength : c.rest.length using Nat.strong_induction_on generalizing c with
  | h n ih =>
    have hnext := c.next_normalized
    by_cases hend : c.next.1.kind = .endOfFile
    · have hend' : c.normalized.next.1.kind = .endOfFile := by rw [hnext]; exact hend
      rw [ofCursor_end hend', ofCursor_end hend, hnext]
      rfl
    · have hend' : c.normalized.next.1.kind ≠ .endOfFile := by rw [hnext]; exact hend
      rw [ofCursor_cons hend', ofCursor_cons hend, hnext]
      exact congrArg (c.next.1.normalized :: ·) (ih _ (hlength ▸ Cursor.next_lt hend) c.next.2 rfl)

/-- A text and the buffer made of it have the same tokens, of the same kinds and at the same places.
Their texts are the same up to line ends, and those of invalid tokens, which are the messages of their
faults, are the same altogether. -/
theorem tokens_ofText_buffer (name text : String) :
    (Stream.ofText (Buffer.ofText name text).chars).all =
        (Stream.ofText text.toList).all.map Token.normalized ∧
      ∀ t ∈ (Stream.ofText text.toList).all, t.kind = .invalid → t.normalized = t := by
  constructor
  · rw [Buffer.chars_ofText]
    exact Stream.ofCursor_normalized (.ofText text.toList)
  · intro t ht hinvalid
    rcases List.mem_append.mp ht with ht | ht
    · obtain ⟨-, c, rfl⟩ := Stream.upTo_tokens ht
      exact Cursor.normalized_of_invalid hinvalid
    · -- the last token is the end of the file
      obtain rfl := List.mem_singleton.mp ht
      have hend : (Stream.ofText text.toList).finish.kind = .endOfFile := Stream.upTo_finish _ _
      rw [hend] at hinvalid
      cases hinvalid

/-- A literal with a line end in it, and a character behind it that starts no token. -/
theorem tokens_ofText_buffer_lines :
    let raw := (Stream.ofText "\"a\r\nb\" $".toList).all
    (Stream.ofText (Buffer.ofText "lines.tp" "\"a\r\nb\" $").chars).all = raw.map Token.normalized ∧
      raw.map Token.normalized = [⟨.stringLiteral, "\"a\nb\"", ⟨1, 1⟩⟩,
        .invalid .unexpectedCharacter ⟨2, 4⟩, .endOfFile ⟨2, 5⟩] ∧
      .invalid .unexpectedCharacter ⟨2, 4⟩ ∈ raw ∧
      (Token.invalid .unexpectedCharacter ⟨2, 4⟩).normalized =
        .invalid .unexpectedCharacter ⟨2, 4⟩ := by
  intro raw
  obtain ⟨htokens, hinvalid⟩ := tokens_ofText_buffer "lines.tp" "\"a\r\nb\" $"
  have hmem : Token.invalid .unexpectedCharacter ⟨2, 4⟩ ∈ raw := by decide +kernel
  exact ⟨htokens, by decide +kernel, hmem, hinvalid _ hmem rfl⟩

end FrontEnd
