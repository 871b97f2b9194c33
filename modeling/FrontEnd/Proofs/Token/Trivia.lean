import FrontEnd.Token.Gap

set_option autoImplicit false

/-! # What a gap consists of

The gap in front of a token consists of blanks, line comments and complete block comments
(`Trivia`). A line comment reaches to the end of its line, and a block comment to the sign that
closes the outermost of the comments in it. The gap ends where the text ends, at a character that is
no blank and starts no comment, or at a block comment that is never closed (`gap_trivia`).

`Trivia` is a grammar of gaps and does not mention scanning. One direction goes through the scan,
with a statement for each thing that it can be in the middle of (`Gap.Found`): whatever is found
consists of such parts. The other goes through the grammar: such parts are scanned over, and the
scan goes on behind them (`Trivia.scan`).
-/

namespace FrontEnd

/-- What is left of a block comment within `depth` others: the text up to and including the sign that
closes the outermost one. -/
inductive CommentTail : Nat → List Char → Prop where
  | last {sign : Char} (hsign : Gap.isCommentSign sign = true) : CommentTail 0 [sign, '/']
  | close {depth : Nat} {sign : Char} {rest : List Char} (hsign : Gap.isCommentSign sign = true)
      (h : CommentTail depth rest) : CommentTail (depth + 1) (sign :: '/' :: rest)
  | nest {depth : Nat} {sign : Char} {rest : List Char} (hsign : Gap.isCommentSign sign = true)
      (h : CommentTail (depth + 1) rest) : CommentTail depth ('/' :: sign :: rest)
  /-- A character that neither opens nor closes a comment together with the one behind it. -/
  | other {depth : Nat} {c d : Char} {rest : List Char}
      (hopen : ¬ (c = '/' ∧ Gap.isCommentSign d = true))
      (hclose : ¬ (Gap.isCommentSign c = true ∧ d = '/')) (h : CommentTail depth (d :: rest)) :
      CommentTail depth (c :: d :: rest)

theorem CommentTail.exists_cons {depth : Nat} {text : List Char} (h : CommentTail depth text) :
    ∃ c rest, text = c :: rest := by
  cases h with
  | last | close | nest | other => exact ⟨_, _, rfl⟩

/-- Blanks, line comments and complete block comments, in front of the text `behind`. The text
behind them matters for the last of them only: a line comment needs a line feed behind it, or the
end of the text. -/
inductive Trivia (behind : List Char) : List Char → Prop where
  | nil : Trivia behind []
  | blank {c : Char} {rest : List Char} (hc : Gap.isBlank c = true) (h : Trivia behind rest) :
      Trivia behind (c :: rest)
  /-- A line comment, up to the next line feed or the end of the text. -/
  | line {body rest : List Char} (hbody : '\n' ∉ body)
      (hend : ∀ c ∈ (rest ++ behind).head?, c = '\n') (h : Trivia behind rest) :
      Trivia behind ('/' :: '/' :: (body ++ rest))
  | comment {sign : Char} {body rest : List Char} (hsign : Gap.isCommentSign sign = true)
      (hbody : CommentTail 0 body) (h : Trivia behind rest) :
      Trivia behind ('/' :: sign :: (body ++ rest))

/-- A text that starts with a blank or a comment. -/
def startsGap : List Char → Bool
  | [] => false
  | [c] => Gap.isBlank c
  | c :: d :: _ => Gap.isBlank c || c == '/' && (d == '/' || Gap.isCommentSign d)

/-- A text that does not start with a blank. -/
def StartsSolid (text : List Char) : Prop := ∀ c ∈ text.head?, Gap.isBlank c = false

/-- A text that starts with the sign that opens a block comment. -/
def OpensComment (text : List Char) : Prop :=
  ∃ sign rest, Gap.isCommentSign sign = true ∧ text = '/' :: sign :: rest

theorem startsSolid_of_startsGap {text : List Char} (h : startsGap text = false) :
    StartsSolid text := by
  intro c hc
  cases text with
  | nil => cases hc
  | cons d rest =>
      cases hc
      cases rest with
      | nil => exact h
      | cons e rest => exact (Bool.or_eq_false_iff.mp h).1

theorem OpensComment.startsSolid {text : List Char} (h : OpensComment text) : StartsSolid text := by
  obtain ⟨sign, rest, -, rfl⟩ := h
  intro c hc
  cases hc
  rfl

namespace Gap

/-- The gap ends `m` characters from where counting has started, in front of the text `behind`. -/
inductive EndsAt (m : Nat) (behind : List Char) : Gap → Prop where
  | closed (hplain : startsGap behind = false) : EndsAt m behind (.closed m)
  | unclosed (hopens : OpensComment behind) : EndsAt m behind (.unclosed m)

/-- What is found from a place within a gap on. The mode says what the place is in the middle of,
and so which part of a comment has to come first. -/
def Found : Mode → Nat → List Char → Gap → Prop
  | .blank, n, text, g =>
    ∃ own behind, text = own ++ behind ∧ Trivia behind own ∧ EndsAt (n + own.length) behind g
  | .line, n, text, g =>
    ∃ body own behind, text = body ++ (own ++ behind) ∧ '\n' ∉ body ∧
      (∀ c ∈ (own ++ behind).head?, c = '\n') ∧ Trivia behind own ∧
      EndsAt (n + body.length + own.length) behind g
  | .block depth start, n, text, g =>
    g = .unclosed start ∨
      ∃ body own behind, text = body ++ (own ++ behind) ∧ CommentTail depth body ∧
        Trivia behind own ∧ EndsAt (n + body.length + own.length) behind g

theorem Found.here {n : Nat} {text : List Char} {g : Gap} (h : EndsAt n text g) :
    Found .blank n text g := ⟨[], text, rfl, .nil, h⟩

/-- A blank in front of what is found. -/
theorem Found.blank {n : Nat} {c : Char} {text : List Char} {g : Gap} (hc : isBlank c = true)
    (h : Found .blank (n + 1) text g) : Found .blank n (c :: text) g := by
  obtain ⟨own, behind, rfl, htrivia, hends⟩ := h
  refine ⟨c :: own, behind, rfl, .blank hc htrivia, ?_⟩
  rw [List.length_cons, show n + (own.length + 1) = n + 1 + own.length by omega]
  exact hends

/-- The signs of a line comment in front of it. -/
theorem Found.line {n : Nat} {text : List Char} {g : Gap} (h : Found .line (n + 2) text g) :
    Found .blank n ('/' :: '/' :: text) g := by
  obtain ⟨body, own, behind, rfl, hbody, hend, htrivia, hends⟩ := h
  refine ⟨'/' :: '/' :: (body ++ own), behind, by simp, .line hbody hend htrivia, ?_⟩
  have hlength : ('/' :: '/' :: (body ++ own)).length = 2 + body.length + own.length := by
    simp only [List.length_cons, List.length_append]
    omega
  rw [hlength, show n + (2 + body.length + own.length) = n + 2 + body.length + own.length by omega]
  exact hends

/-- The signs that open a block comment in front of it. -/
theorem Found.comment {n : Nat} {sign : Char} {text : List Char} {g : Gap}
    (hsign : isCommentSign sign = true) (h : Found (.block 0 n) (n + 2) text g) :
    Found .blank n ('/' :: sign :: text) g := by
  rcases h with rfl | ⟨body, own, behind, rfl, hbody, htrivia, hends⟩
  · exact .here (.unclosed ⟨sign, text, hsign, rfl⟩)
  · refine ⟨'/' :: sign :: (body ++ own), behind, by simp, .comment hsign hbody htrivia, ?_⟩
    have hlength : ('/' :: sign :: (body ++ own)).length = 2 + body.length + own.length := by
      simp only [List.length_cons, List.length_append]
      omega
    rw [hlength,
      show n + (2 + body.length + own.length) = n + 2 + body.length + own.length by omega]
    exact hends

/-- A first part of a block comment in front of the rest of it. -/
theorem Found.within {depth depth' start n : Nat} (part : List Char) {text : List Char} {g : Gap}
    (hpart : ∀ body rest, text = body ++ rest → CommentTail depth' body →
      CommentTail depth (part ++ body))
    (h : Found (.block depth' start) (n + part.length) text g) :
    Found (.block depth start) n (part ++ text) g := by
  rcases h with rfl | ⟨body, own, behind, rfl, hbody, htrivia, hends⟩
  · exact .inl rfl
  · refine .inr ⟨part ++ body, own, behind, by simp, hpart body _ rfl hbody, htrivia, ?_⟩
    rw [List.length_append, ← Nat.add_assoc]
    exact hends

/-- Whatever is scanned, a gap is found that consists of blanks and comments alone. -/
theorem scan_found (mode : Mode) (n : Nat) (text : List Char) :
    Found mode n text (scan mode n text) := by
  fun_induction scan mode n text with
  | case1 n => exact .here (.closed rfl)
  | case2 n c hblank => exact .blank hblank (.here (.closed rfl))
  | case3 n c hblank => exact .here (.closed (eq_false_of_ne_true hblank))
  | case4 n c d rest hblank ih => exact .blank hblank ih
  | case5 n rest hblank ih => exact .line ih
  | case6 n d rest hslash hsign hblank ih => exact .comment hsign ih
  | case7 n d rest hslash hsign hblank =>
      refine .here (.closed ?_)
      rw [startsGap, beq_false_of_ne hslash, eq_false_of_ne_true hsign]
      rfl
  | case8 n c d rest hblank hslash =>
      refine .here (.closed ?_)
      rw [startsGap, eq_false_of_ne_true hblank, beq_false_of_ne hslash]
      rfl
  | case9 n => exact ⟨[], [], [], rfl, List.not_mem_nil, nofun, .nil, .closed rfl⟩
  | case10 n rest ih =>
      obtain ⟨own, behind, heq, htrivia, hends⟩ := Found.blank (show isBlank '\n' = true from rfl) ih
      refine ⟨[], own, behind, heq, List.not_mem_nil, fun c hc => ?_, htrivia, hends⟩
      rw [← heq] at hc
      cases hc
      rfl
  | case11 n c rest hline ih =>
      obtain ⟨body, own, behind, rfl, hbody, hend, htrivia, hends⟩ := ih
      refine ⟨c :: body, own, behind, rfl, ?_, hend, htrivia, ?_⟩
      · rw [List.mem_cons, not_or]
        exact ⟨Ne.symm hline, hbody⟩
      · rw [List.length_cons, show n + (body.length + 1) = n + 1 + body.length by omega]
        exact hends
  | case12 | case13 => exact .inl rfl
  | case14 n start depth c d rest hopen ih =>
      obtain ⟨rfl, hsign⟩ := hopen
      exact .within ['/', d] (fun _ _ _ hbody => .nest hsign hbody) ih
  | case15 n start c d rest hopen hclose ih =>
      obtain ⟨hsign, rfl⟩ := hclose
      obtain ⟨own, behind, rfl, htrivia, hends⟩ := ih
      exact .inr ⟨[c, '/'], own, behind, rfl, .last hsign, htrivia, hends⟩
  | case16 n start c d rest hopen hclose outer ih =>
      obtain ⟨hsign, rfl⟩ := hclose
      exact .within [c, '/'] (fun _ _ _ hbody => .close hsign hbody) ih
  | case17 n start depth c d rest hopen hclose ih =>
      refine .within [c] (fun body more heq hbody => ?_) ih
      -- the rest of the comment is not empty, so it starts with `d`
      obtain ⟨e, tail, rfl⟩ := hbody.exists_cons
      cases heq
      exact .other hopen hclose hbody

end Gap

/-- The gap at the start of a text consists of blanks and comments alone, up to the end of the text, a
character that is no blank, or a block comment that is not closed. -/
theorem gap_trivia (text : List Char) :
    ∃ own behind, text = own ++ behind ∧ Trivia behind own ∧
      Gap.EndsAt own.length behind (gap text) := by
  obtain ⟨own, behind, heq, htrivia, hends⟩ := Gap.scan_found .blank 0 text
  rw [Nat.zero_add] at hends
  exact ⟨own, behind, heq, htrivia, hends⟩

/-! ## Scanning over a gap

The converse: a text that consists of blanks and comments is scanned over, whatever stands behind
it. Within a comment the scan goes on with the comments that are still open. -/

/-- A comment is opened within another one. -/
theorem Gap.scan_nest {c d : Char} (h : c = '/' ∧ isCommentSign d) (depth start n : Nat)
    (rest : List Char) :
    scan (.block depth start) n (c :: d :: rest) = scan (.block (depth + 1) start) (n + 2) rest := by
  cases depth <;> exact if_pos h

/-- A character within a comment neither opens nor closes one. -/
theorem Gap.scan_within {c d : Char} (hopen : ¬ (c = '/' ∧ isCommentSign d))
    (hclose : ¬ (isCommentSign c ∧ d = '/')) (depth start n : Nat) (rest : List Char) :
    scan (.block depth start) n (c :: d :: rest) = scan (.block depth start) (n + 1) (d :: rest) := by
  cases depth <;> exact (if_neg hopen).trans (if_neg hclose)

/-- The rest of a block comment is scanned up to the sign that closes it. -/
theorem CommentTail.scan {depth : Nat} {body : List Char} (h : CommentTail depth body) (start n : Nat)
    (rest : List Char) :
    Gap.scan (.block depth start) n (body ++ rest) = Gap.scan .blank (n + body.length) rest := by
  have hslash : ¬ Gap.isCommentSign '/' = true := by decide
  induction h generalizing n with
  | last hsign =>
      rw [List.cons_append, List.singleton_append, Gap.scan, if_neg fun hopen => hslash hopen.2,
        if_pos ⟨hsign, rfl⟩]
      rfl
  | @close depth sign body hsign _ ih =>
      rw [List.cons_append, List.cons_append, Gap.scan, if_neg fun hopen => hslash hopen.2,
        if_pos ⟨hsign, rfl⟩, ih]
      simp only [List.length_cons]
      congr 1
      omega
  | @nest depth sign body hsign _ ih =>
      rw [List.cons_append, List.cons_append, Gap.scan_nest ⟨rfl, hsign⟩, ih]
      simp only [List.length_cons]
      congr 1
      omega
  | @other depth c d body hopen hclose _ ih =>
      rw [List.cons_append, List.cons_append, Gap.scan_within hopen hclose, ← List.cons_append, ih]
      simp only [List.length_cons]
      congr 1
      omega

/-- A line comment is scanned up to the end of its line. -/
theorem Gap.scan_line {body rest : List Char} (hbody : '\n' ∉ body)
    (hend : ∀ c ∈ rest.head?, c = '\n') (n : Nat) :
    scan .line n (body ++ rest) = scan .blank (n + body.length) rest := by
  induction body generalizing n with
  | nil =>
      cases rest with
      | nil => rfl
      | cons c rest =>
          obtain rfl := hend c rfl
          rw [List.nil_append, scan, if_pos rfl]
          cases rest with
          | nil => rfl
          | cons d rest => rfl
  | cons c body ih =>
      rw [List.mem_cons, not_or] at hbody
      rw [List.cons_append, scan, if_neg (Ne.symm hbody.1), ih hbody.2]
      rw [List.length_cons]
      congr 1
      omega

/-- A blank is scanned over. -/
theorem Gap.scan_cons_blank {c : Char} (hc : isBlank c = true) (n : Nat) (rest : List Char) :
    scan .blank n (c :: rest) = scan .blank (n + 1) rest := by
  cases rest with
  | nil => exact if_pos hc
  | cons d rest => exact if_pos hc

/-- Blanks and comments are scanned over. -/
theorem Trivia.scan {behind own : List Char} (h : Trivia behind own) (n : Nat) :
    Gap.scan .blank n (own ++ behind) = Gap.scan .blank (n + own.length) behind := by
  induction h generalizing n with
  | nil => rfl
  | @blank c own hc _ ih =>
      rw [List.cons_append, Gap.scan_cons_blank hc, ih, List.length_cons]
      congr 1
      omega
  | @line body own hbody hend _ ih =>
      have hblank : ¬ Gap.isBlank '/' = true := by decide
      rw [List.cons_append, List.cons_append, Gap.scan, if_neg hblank, if_pos rfl, if_pos rfl,
        List.append_assoc, Gap.scan_line hbody hend, ih]
      simp only [List.length_cons, List.length_append]
      congr 1
      omega
  | @comment sign body own hsign hbody _ ih =>
      have hblank : ¬ Gap.isBlank '/' = true := by decide
      have hline : sign ≠ '/' := by
        rintro rfl
        cases hsign
      rw [List.cons_append, List.cons_append, Gap.scan, if_neg hblank, if_pos rfl, if_neg hline,
        if_pos hsign, List.append_assoc, hbody.scan, ih]
      simp only [List.length_cons, List.length_append]
      congr 1
      omega

/-- Where no gap starts none is found. -/
theorem Gap.scan_of_plain {text : List Char} (h : startsGap text = false) (n : Nat) :
    scan .blank n text = .closed n := by
  match text with
  | [] => rfl
  | [c] => exact if_neg (by rw [show isBlank c = false from h]; exact Bool.false_ne_true)
  | c :: d :: rest =>
      obtain ⟨hblank, hcomment⟩ := Bool.or_eq_false_iff.mp h
      rw [scan, if_neg (by rw [hblank]; exact Bool.false_ne_true)]
      by_cases hslash : c = '/'
      · subst hslash
        obtain ⟨hline, hsign⟩ := Bool.or_eq_false_iff.mp hcomment
        rw [if_pos rfl, if_neg (ne_of_beq_false hline),
          if_neg (by rw [hsign]; exact Bool.false_ne_true)]
      · rw [if_neg hslash]

/-- The gap with `k` more characters in front of it. -/
def Gap.shift (k : Nat) : Gap → Gap
  | .closed n => .closed (n + k)
  | .unclosed start => .unclosed (start + k)

/-- The mode of a scan that has started `k` characters earlier. -/
def Gap.Mode.shift (k : Nat) : Mode → Mode
  | .blank => .blank
  | .line => .line
  | .block depth start => .block depth (start + k)

/-- Where counting has started does not matter. What is found is the same, with all counts higher by
as much. -/
theorem Gap.scan_shift (mode : Mode) (n k : Nat) (text : List Char) :
    scan (mode.shift k) (n + k) text = (scan mode n text).shift k := by
  fun_induction scan mode n text <;> grind [scan, Gap.shift, Mode.shift, scan_nest, scan_within]

theorem Gap.EndsAt.unshift {k : Nat} {behind : List Char} {g : Gap}
    (h : EndsAt k behind (g.shift k)) :
    EndsAt 0 behind g := by
  generalize hshift : g.shift k = g' at h
  cases h with
  | closed hplain =>
      cases g with
      | unclosed => cases hshift
      | closed n =>
          obtain rfl : n = 0 := by
            have hlength : n + k = k := Gap.closed.inj hshift
            omega
          exact .closed hplain
  | unclosed hopens =>
      cases g with
      | closed => cases hshift
      | unclosed n =>
          obtain rfl : n = 0 := by
            have hlength : n + k = k := Gap.unclosed.inj hshift
            omega
          exact .unclosed hopens

/-- The gap behind blanks and comments. -/
theorem Trivia.gap_append {behind own : List Char} (h : Trivia behind own) :
    gap (own ++ behind) = (gap behind).shift own.length := by
  rw [gap, h.scan, Nat.zero_add, gap, ← Gap.scan_shift, Nat.zero_add]
  rfl

/-- A gap may fall into two. -/
theorem Trivia.append {behind own own' : List Char} (h : Trivia (own' ++ behind) own)
    (h' : Trivia behind own') : Trivia behind (own ++ own') := by
  induction h with
  | nil => exact h'
  | blank hc _ ih => exact .blank hc ih
  | @line body own hbody hend _ ih =>
      rw [List.cons_append, List.cons_append, List.append_assoc]
      refine .line hbody ?_ ih
      rwa [List.append_assoc]
  | @comment sign body own hsign hbody _ ih =>
      rw [List.cons_append, List.cons_append, List.append_assoc]
      exact .comment hsign hbody ih

/-- The text behind a gap does not matter to it, unless there is none. -/
theorem Trivia.change {behind behind' own : List Char} (h : Trivia behind own)
    (hsolid : StartsSolid behind) (hend : behind = [] → behind' = []) : Trivia behind' own := by
  induction h with
  | nil => exact .nil
  | blank hc _ ih => exact .blank hc ih
  | comment hsign hbody _ ih => exact .comment hsign hbody ih
  | @line body own hbody hline _ ih =>
      refine .line hbody (fun c hc => ?_) ih
      cases own with
      | cons d own => exact hline c hc
      | nil =>
          cases behind with
          | nil =>
              rw [hend rfl] at hc
              cases hc
          | cons d rest =>
              -- a line feed is a blank
              have hblank := hsolid d rfl
              rw [hline d rfl] at hblank
              cases hblank

end FrontEnd
