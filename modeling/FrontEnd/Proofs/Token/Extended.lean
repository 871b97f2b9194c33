import FrontEnd.Proofs.Token.Bounded
import FrontEnd.Proofs.Token.Lexemes

set_option autoImplicit false

/-! # Texts that go on

No token but a semicolon or a brace holds these characters, apart from literals, and no token is found
with a look behind one of them. A text that ends in one of them, with nothing left behind its last
token, therefore keeps its tokens if more text stands behind it (`Stream.ofText_append`).

For the scanners that stop at the end of a class this is the lemma on what ends a token, with the
last character as the one outside of the class. Literals and gaps have no such class. A literal that
is closed stays closed, and a gap that ends before the end of the text ends there in any longer one.
-/

namespace FrontEnd

/-- The characters that end a statement or a block. -/
def isCloser (c : Char) : Bool := c == ';' || c == '\x7d'

/-- The text ends in a semicolon or a closing brace. Neither can be the start of a longer token, so
the last token ends with the text. -/
def EndsInCloser (text : List Char) : Prop := ∃ c ∈ text.getLast?, isCloser c = true

theorem getLast?_ne_of_cons {c d : Char} {text : List Char} (h : (c :: text).getLast? ≠ some d) :
    text.getLast? ≠ some d := by
  cases text with
  | nil => simp
  | cons e text => rwa [List.getLast?_cons_cons] at h

namespace EndsInCloser

variable {text : List Char}

theorem ne_nil (h : EndsInCloser text) : text ≠ [] := by
  rintro rfl
  obtain ⟨c, hc, -⟩ := h
  cases hc

theorem drop {n : Nat} (h : EndsInCloser text) (hn : n < text.length) :
    EndsInCloser (text.drop n) := by
  obtain ⟨d, hd, hcloser⟩ := h
  refine ⟨d, ?_, hcloser⟩
  rwa [List.getLast?_drop, if_neg (Nat.not_le_of_lt hn)]

/-- What a character outside of a class ends is found before the last character, so more text behind
that does not matter. -/
theorem append_eq (h : EndsInCloser text) {α : Type} {p : Char → Bool} {find : List Char → α}
    (hfind : ∀ own behind, StopsAt p behind → find (own ++ behind) = find own)
    (hp : p ';' = false ∧ p '\x7d' = false) (rest : List Char) : find (text ++ rest) = find text := by
  obtain ⟨c, hc, hcloser⟩ := h
  obtain ⟨own, rfl⟩ := List.getLast?_eq_some_iff.mp hc
  have hstop (behind : List Char) : StopsAt p (c :: behind) := by
    refine .cons ?_ behind
    rw [isCloser, Bool.or_eq_true, beq_iff_eq, beq_iff_eq] at hcloser
    rcases hcloser with rfl | rfl
    · exact hp.1
    · exact hp.2
  rw [List.append_assoc, List.singleton_append, hfind own _ (hstop rest), hfind own _ (hstop [])]

end EndsInCloser

variable {text : List Char}

/-! ## Literals -/

theorem closingLength_append {delimiter : Char} {n m : Nat} (rest : List Char)
    (h : closingLength delimiter n text = some m) :
    closingLength delimiter n (text ++ rest) = some m ∧ m ≤ n + text.length := by
  fun_induction closingLength delimiter n text with
  | case1 => cases h
  | case2 n =>
      cases h
      refine ⟨?_, Nat.le_refl _⟩
      cases rest with
      | nil => exact if_pos rfl
      | cons d rest => exact if_pos rfl
  | case3 => cases h
  | case4 n d text =>
      cases h
      exact ⟨if_pos rfl, by simp only [List.length_cons]; omega⟩
  | case5 n c d text hc hescaped ih =>
      obtain ⟨heq, hle⟩ := ih h
      refine ⟨?_, by simp only [List.length_cons]; omega⟩
      rw [List.cons_append, List.cons_append, closingLength, if_neg hc, if_pos hescaped]
      exact heq
  | case6 n c d text hc hescaped ih =>
      obtain ⟨heq, hle⟩ := ih h
      refine ⟨?_, by simp only [List.length_cons] at hle ⊢; omega⟩
      rw [List.cons_append, List.cons_append, closingLength, if_neg hc, if_neg hescaped]
      exact heq

theorem scanQuoted_append {delimiter : Char} {kind kind' : Kind} {unterminated : LexicalFault}
    (h : (scanQuoted delimiter kind unterminated text).outcome = .ok kind') (rest : List Char) :
    scanQuoted delimiter kind unterminated (text ++ rest) =
        scanQuoted delimiter kind unterminated text ∧
      (scanQuoted delimiter kind unterminated text).length ≤ text.length + 1 := by
  unfold scanQuoted at h ⊢
  cases hclosing : closingLength delimiter 1 text with
  | none => rw [hclosing] at h; cases h
  | some m =>
      obtain ⟨heq, hle⟩ := closingLength_append rest hclosing
      rw [heq]
      exact ⟨rfl, Nat.le_trans hle (Nat.le_of_eq (Nat.add_comm 1 _))⟩

/-! ## Marks and operators -/

theorem isPrefixOf_append_closer {entry : List Char} (h : EndsInCloser text) (rest : List Char)
    (hentry : entry.length = 1 ∨ entry.any isCloser = false) :
    entry.isPrefixOf (text ++ rest) = entry.isPrefixOf text := by
  rw [Bool.eq_iff_iff, List.isPrefixOf_iff_prefix, List.isPrefixOf_iff_prefix]
  refine ⟨fun hentryLe => ?_, fun hentryLe => hentryLe.trans (List.prefix_append text rest)⟩
  refine List.prefix_of_prefix_length_le hentryLe (List.prefix_append text rest) ?_
  -- an entry that goes on behind the text would hold its last character and others
  refine Nat.le_of_not_lt fun hlt => ?_
  have hle := List.prefix_of_prefix_length_le (List.prefix_append text rest) hentryLe
    (Nat.le_of_lt hlt)
  obtain ⟨c, hc, hcloser⟩ := h
  have hmem := List.mem_of_getLast? hc
  rcases hentry with hone | hnone
  · have hpos := List.length_pos_of_mem hmem
    omega
  · exact List.any_eq_false.mp hnone c (hle.subset hmem) hcloser

/-- A closing character is a mark by itself and part of no other one. -/
theorem symbolTable_closer :
    ∀ entry ∈ symbolTable, entry.1.length = 1 ∨ entry.1.any isCloser = false := by decide

theorem scanSymbol_append (h : EndsInCloser text) (rest : List Char) :
    scanSymbol (text ++ rest) = scanSymbol text ∧ (scanSymbol text).length ≤ text.length := by
  have hfind : symbolTable.find? (fun entry => entry.1.isPrefixOf (text ++ rest)) =
      symbolTable.find? (fun entry => entry.1.isPrefixOf text) :=
    List.find?_congr fun entry hentry =>
      isPrefixOf_append_closer h rest (symbolTable_closer entry hentry)
  rw [scanSymbol_eq_longestSymbol, scanSymbol_eq_longestSymbol, longestSymbol, hfind,
    longestSymbol]
  refine ⟨rfl, ?_⟩
  split
  · next spelling kind hsome =>
    have hfits := List.find?_some hsome
    exact (List.isPrefixOf_iff_prefix.mp hfits).length_le
  · exact List.length_pos_iff.mpr h.ne_nil

/-! ## Tokens and gaps -/

/-- A valid token in front of a closing character, or this character itself, is found whatever stands
behind that character. -/
theorem scan_append {c : Char} {kind : Kind} (h : EndsInCloser (c :: text))
    (hvalid : (scan c text).outcome = .ok kind) (rest : List Char) :
    scan c (text ++ rest) = scan c text ∧ (scan c text).length ≤ text.length + 1 := by
  unfold scan at hvalid ⊢
  -- the scanner is chosen by the first character, which is the same in both texts
  split
  · next hword =>
    exact ⟨h.append_eq (fun own _ hstop => scanWord_append_stop hstop own) ⟨rfl, rfl⟩ rest,
      (scanWord_reads hword text).le⟩
  · next hword =>
    rw [if_neg hword] at hvalid
    split
    · next hdigit =>
      exact ⟨h.append_eq (fun own _ hstop => hstop.scanNumber_append own) ⟨rfl, rfl⟩ rest,
        (scanNumber_reads hdigit text).le⟩
    · next hdigit =>
      rw [if_neg hdigit] at hvalid
      split
      · next hquote =>
        rw [if_pos hquote] at hvalid
        exact scanQuoted_append hvalid rest
      · next hquote =>
        rw [if_neg hquote] at hvalid
        split
        · next hquote' =>
          rw [if_pos hquote'] at hvalid
          exact scanQuoted_append hvalid rest
        · exact scanSymbol_append h rest

/-- A gap in front of other characters is the same if more text stands behind them. The last character
must not be a slash, which might open a comment together with the text behind it. -/
theorem Gap.scan_append {mode : Mode} {n m : Nat} (hlast : text.getLast? ≠ some '/')
    (h : scan mode n text = .closed m) (hm : m < n + text.length) (rest : List Char) :
    scan mode n (text ++ rest) = .closed m := by
  fun_induction scan mode n text with
  -- the gap would reach to the end of the text
  | case1 | case2 | case9 =>
      cases h
      exact absurd hm (Nat.lt_irrefl _)
  | case12 | case13 => cases h
  -- the last character is no slash, so it does not start a comment
  | case3 n c hblank =>
      have hslash : c ≠ '/' := fun hc => hlast (by rw [hc]; rfl)
      cases rest with
      | nil => rw [List.append_nil, scan, if_neg hblank]; exact h
      | cons d rest =>
          rw [List.singleton_append, scan, if_neg hblank, if_neg hslash]
          exact h
  | case7 n d text hslash hsign hblank =>
      rw [List.cons_append, List.cons_append, scan, if_neg hblank, if_pos rfl, if_neg hslash,
        if_neg hsign]
      exact h
  | case8 n c d text hblank hslash =>
      rw [List.cons_append, List.cons_append, scan, if_neg hblank, if_neg hslash]
      exact h
  -- reading goes on in the gap
  | case4 n c d text hblank ih =>
      rw [List.cons_append, List.cons_append, scan, if_pos hblank]
      exact ih (getLast?_ne_of_cons hlast) h (by simp only [List.length_cons] at hm ⊢; omega)
  | case5 n text hblank ih =>
      rw [List.cons_append, List.cons_append, scan, if_neg hblank, if_pos rfl, if_pos rfl]
      exact ih (getLast?_ne_of_cons (getLast?_ne_of_cons hlast)) h
        (by simp only [List.length_cons] at hm; omega)
  | case6 n d text hslash hsign hblank ih =>
      rw [List.cons_append, List.cons_append, scan, if_neg hblank, if_pos rfl, if_neg hslash,
        if_pos hsign]
      exact ih (getLast?_ne_of_cons (getLast?_ne_of_cons hlast)) h
        (by simp only [List.length_cons] at hm; omega)
  | case10 n text ih =>
      rw [List.cons_append, scan, if_pos rfl]
      exact ih (getLast?_ne_of_cons hlast) h (by simp only [List.length_cons] at hm; omega)
  | case11 n c text hfeed ih =>
      rw [List.cons_append, scan, if_neg hfeed]
      exact ih (getLast?_ne_of_cons hlast) h (by simp only [List.length_cons] at hm; omega)
  | case14 depth start n c d text hopens ih =>
      have hscan : scan (.block depth start) n (c :: d :: (text ++ rest)) =
          scan (.block (depth + 1) start) (n + 2) (text ++ rest) := by
        cases depth with
        | zero => rw [scan, if_pos hopens]
        | succ depth => rw [scan, if_pos hopens]
      rw [List.cons_append, List.cons_append, hscan]
      exact ih (getLast?_ne_of_cons (getLast?_ne_of_cons hlast)) h
        (by simp only [List.length_cons] at hm; omega)
  | case15 start n c d text hopens hcloses ih =>
      rw [List.cons_append, List.cons_append, scan, if_neg hopens, if_pos hcloses]
      exact ih (getLast?_ne_of_cons (getLast?_ne_of_cons hlast)) h
        (by simp only [List.length_cons] at hm; omega)
  | case16 start n c d text hopens hcloses outer ih =>
      rw [List.cons_append, List.cons_append, scan, if_neg hopens, if_pos hcloses]
      exact ih (getLast?_ne_of_cons (getLast?_ne_of_cons hlast)) h
        (by simp only [List.length_cons] at hm; omega)
  | case17 depth start n c d text hopens hcloses ih =>
      have hscan : scan (.block depth start) n (c :: d :: (text ++ rest)) =
          scan (.block depth start) (n + 1) (d :: (text ++ rest)) := by
        cases depth with
        | zero => rw [scan, if_neg hopens, if_neg hcloses]
        | succ depth => rw [scan, if_neg hopens, if_neg hcloses]
      rw [List.cons_append, List.cons_append, hscan]
      exact ih (getLast?_ne_of_cons hlast) h (by simp only [List.length_cons] at hm ⊢; omega)

/-! ## Streams -/

/-- The cursor with more text behind its own. -/
def Cursor.extend (c : Cursor) (text : List Char) : Cursor := ⟨c.rest ++ text, c.position⟩

theorem Cursor.skip_extend {c : Cursor} {n : Nat} (hn : n ≤ c.rest.length) (text : List Char) :
    (c.extend text).skip n = (c.skip n).extend text := by
  rw [skip, skip, extend, extend, List.drop_append_of_le_length hn, List.take_append_of_le_length hn]

theorem Cursor.token_extend {c : Cursor} {s : Scan} (hs : s.length ≤ c.rest.length)
    (text : List Char) : (c.extend text).token s = c.token s := by
  rw [token, token, extend, List.take_append_of_le_length hs]

/-- A valid token is read in the same way if more text follows. -/
theorem Cursor.next_extend {c : Cursor} (h : EndsInCloser c.rest)
    (hinvalid : c.next.1.kind ≠ .invalid) (hend : c.next.1.kind ≠ .endOfFile) (text : List Char) :
    (c.extend text).next = (c.next.1, c.next.2.extend text) := by
  -- a slash at the end might become the start of a comment
  have hslash : c.rest.getLast? ≠ some '/' := by
    obtain ⟨d, hd, hcloser⟩ := h
    intro hslash
    rw [Option.mem_def.mp hd] at hslash
    cases hslash
    cases hcloser
  cases hgap : gap c.rest with
  | unclosed start =>
      rw [next, hgap] at hinvalid
      exact absurd rfl hinvalid
  | closed n =>
      cases hrest : (c.skip n).rest with
      | nil =>
          rw [next, hgap] at hend
          dsimp only at hend
          rw [hrest] at hend
          exact absurd rfl hend
      | cons first rest =>
          have hdrop : c.rest.drop n = first :: rest := hrest
          have hn : n < c.rest.length := by
            refine Nat.lt_of_not_le fun hle => ?_
            rw [List.drop_eq_nil_of_le hle] at hdrop
            cases hdrop
          have hskip := skip_extend (Nat.le_of_lt hn) text
          have hgap' : gap (c.extend text).rest = .closed n :=
            Gap.scan_append hslash hgap (by omega) text
          have hrest' : ((c.extend text).skip n).rest = first :: (rest ++ text) := by
            rw [hskip, extend, hrest]
            rfl
          rw [next_token hgap hrest] at hinvalid ⊢
          obtain ⟨kind, hkind⟩ : ∃ kind, (scan first rest).outcome = .ok kind := by
            cases houtcome : (scan first rest).outcome with
            | ok kind => exact ⟨kind, rfl⟩
            | error fault =>
                rw [token, houtcome] at hinvalid
                exact absurd rfl hinvalid
          -- the scanner stops within the shorter text, and with it the gap in front of the token
          obtain ⟨hscan, hle⟩ := scan_append (hdrop ▸ h.drop hn) hkind text
          have hle' : (scan first rest).length ≤ (c.skip n).rest.length := by
            rw [hrest]
            exact hle
          rw [next_token hgap' hrest', hscan, hskip, token_extend hle', skip_extend hle']

/-- What is left behind a token is an end of the text before it. -/
theorem Cursor.exists_drop (c : Cursor) : ∃ n, c.next.2.rest = c.rest.drop n := by
  rw [next]
  split
  · next start _ =>
    exact ⟨start + (c.rest.drop start).length, by simp only [skip, List.drop_drop]⟩
  · next n _ =>
    dsimp only
    split
    · exact ⟨n, rfl⟩
    · next first rest _ =>
      exact ⟨n + (scan first rest).length, by simp only [skip, List.drop_drop]⟩

theorem Stream.upTo_nil {c : Cursor} (h : c.next.1.kind = .endOfFile) (fuel : Nat) :
    (upTo fuel c).tokens = [] := by
  cases fuel with
  | zero => rfl
  | succ fuel =>
      rw [upTo]
      exact congrArg Stream.tokens (if_pos h)

theorem Stream.upTo_succ {fuel : Nat} {c : Cursor} (h : c.next.1.kind ≠ .endOfFile) :
    (upTo (fuel + 1) c).tokens = c.next.1 :: (upTo fuel c.next.2).tokens := by
  rw [upTo]
  exact congrArg Stream.tokens (if_neg h)

/-- The tokens are kept if more text follows, and others follow them. -/
theorem Stream.upTo_extend {fuel fuel' : Nat} {c : Cursor} (h : EndsInCloser c.rest)
    (hvalid : ∀ t ∈ (upTo fuel c).tokens, t.kind ≠ .invalid)
    (hlast : (c.skipTokens (upTo fuel c).tokens.length).rest = []) (hfuel : fuel ≤ fuel')
    (text : List Char) :
    ∃ behind, (upTo fuel' (c.extend text)).tokens = (upTo fuel c).tokens ++ behind := by
  induction fuel generalizing fuel' c with
  | zero => exact absurd hlast h.ne_nil
  | succ fuel ih =>
      by_cases hend : c.next.1.kind = .endOfFile
      · rw [upTo_nil hend] at hlast
        exact absurd hlast h.ne_nil
      · obtain ⟨fuel', rfl⟩ : ∃ more, fuel' = more + 1 := ⟨fuel' - 1, by omega⟩
        rw [upTo_succ hend] at hvalid hlast ⊢
        have hnext := Cursor.next_extend h (hvalid _ List.mem_cons_self) hend text
        rw [upTo_succ (by rw [hnext]; exact hend), hnext]
        obtain ⟨n, hdrop⟩ := c.exists_drop
        by_cases hrest : c.next.2.rest = []
        · -- this was the last token
          rw [upTo_nil (Cursor.next_end hrest)]
          exact ⟨_, rfl⟩
        · have hn : n < c.rest.length := by
            refine Nat.lt_of_not_le fun hle => hrest ?_
            rw [hdrop, List.drop_eq_nil_of_le hle]
          obtain ⟨behind, hbehind⟩ := ih (hdrop ▸ h.drop hn)
            (fun t ht => hvalid t (List.mem_cons_of_mem _ ht)) hlast (Nat.le_of_succ_le_succ hfuel)
          exact ⟨behind, by rw [hbehind]; rfl⟩

/-- The tokens of a text that ends in a semicolon or a closing brace, with nothing left behind its
last token, are the first tokens of every text that starts with it. -/
theorem Stream.ofText_append (h : EndsInCloser text)
    (hvalid : ∀ t ∈ (ofText text).tokens, t.kind ≠ .invalid)
    (hlast : ((Cursor.ofText text).skipTokens (ofText text).tokens.length).rest = [])
    (more : List Char) :
    ∃ behind, (ofText (text ++ more)).tokens = (ofText text).tokens ++ behind := by
  refine upTo_extend h hvalid hlast ?_ more
  simp only [Cursor.ofText, List.length_append]
  omega

/-! ## Line ends -/

/-- A character in front of a text stays there, unless the two form a line end. -/
theorem normalizeNewlines_cons (c : Char) (rest : List Char) :
    (c = '\r' ∧ rest.head? = some '\n' ∧ normalizeNewlines (c :: rest) = normalizeNewlines rest) ∨
      ((c = '\r' → rest.head? ≠ some '\n') ∧
        normalizeNewlines (c :: rest) = c :: normalizeNewlines rest) := by
  by_cases hpair : c = '\r' ∧ rest.head? = some '\n'
  · obtain ⟨rfl, hhead⟩ := hpair
    obtain ⟨more, rfl⟩ : ∃ more, rest = '\n' :: more := List.head?_eq_some_iff.mp hhead
    refine .inl ⟨rfl, hhead, ?_⟩
    rw [normalizeNewlines, normalizeNewlines]
    simp
  · rw [not_and] at hpair
    refine .inr ⟨hpair, normalizeNewlines.eq_3 c rest fun more hc hrest => hpair hc ?_⟩
    rw [hrest]
    rfl

/-- Line ends are normalised part by part, unless one is split. -/
theorem normalizeNewlines_append {more : List Char}
    (h : text.getLast? = some '\r' → more.head? ≠ some '\n') :
    normalizeNewlines (text ++ more) = normalizeNewlines text ++ normalizeNewlines more := by
  induction text with
  | nil => rfl
  | cons c rest ih =>
      have hrest : rest.getLast? = some '\r' → more.head? ≠ some '\n' := fun hr => h (by
        rw [List.getLast?_cons, hr]
        rfl)
      have hhead : (c = '\r' → rest.head? ≠ some '\n') →
          (c = '\r' → (rest ++ more).head? ≠ some '\n') := by
        rintro hc rfl
        cases rest with
        | nil => exact h rfl
        | cons d rest => exact hc rfl
      rw [List.cons_append]
      rcases normalizeNewlines_cons c rest with ⟨rfl, hfeed, heq⟩ | ⟨hne, heq⟩
      · rcases normalizeNewlines_cons '\r' (rest ++ more) with ⟨-, -, heq'⟩ | ⟨hne', -⟩
        · rw [heq', heq, ih hrest]
        · exact absurd (by rw [List.head?_append, hfeed]; rfl) (hne' rfl)
      · rcases normalizeNewlines_cons c (rest ++ more) with ⟨rfl, hfeed', -⟩ | ⟨-, heq'⟩
        · exact absurd hfeed' (hhead hne rfl)
        · rw [heq', heq, ih hrest, List.cons_append]

end FrontEnd
