import FrontEnd.Proofs.Token.Spacing

set_option autoImplicit false

/-! # Nested block comments

A `BlockComment` is a tree: within a comment stand characters and further comments, each opened and
closed in one of two styles. The gap in front of a token runs on to the sign that closes the
outermost comment, however deep the others are nested and wherever their signs meet, and never
beyond it (`CommentBody.scan_append`). A first part of a comment closes it nowhere
(`CommentBody.scan_cut`).

Only the depth is counted, so an inner comment may be opened in one style and closed in the other.
Both results are inductions on the tree, with the depth as a parameter that the scan goes back to
behind each inner comment. A cut through a tree leaves the comments before it whole, goes through
one of them, and leaves the depth above zero.
-/

namespace FrontEnd

/-- What makes a slash open or close a block comment. A comment may be opened with one of them and
closed with the other. -/
inductive CommentSign where
  | dash
  | star
deriving DecidableEq, Repr

/-- The character of a sign. -/
def CommentSign.char : CommentSign → Char
  | dash => '-'
  | star => '*'

@[simp] theorem CommentSign.isCommentSign_char (s : CommentSign) :
    Gap.isCommentSign s.char = true := by cases s <;> rfl

/-- What stands within a block comment: characters that the signs of comments are not made of, and
further comments. -/
inductive CommentBody where
  | empty
  | character (c : Char) (plain : c ≠ '/' ∧ c ≠ '-' ∧ c ≠ '*') (rest : CommentBody)
  | comment (opening : CommentSign) (inner : CommentBody) (closing : CommentSign)
      (rest : CommentBody)

/-- The text of what stands within a comment. -/
def CommentBody.text : CommentBody → List Char
  | empty => []
  | character c _ rest => c :: rest.text
  | comment opening inner closing rest =>
    '/' :: opening.char :: (inner.text ++ closing.char :: '/' :: rest.text)

/-- A block comment, opened and closed in one of two styles each. -/
structure BlockComment where
  opening : CommentSign
  body : CommentBody
  closing : CommentSign

/-- The text of a comment behind the sign that opens it. -/
def BlockComment.tail (b : BlockComment) : List Char := b.body.text ++ [b.closing.char, '/']

/-- The text of a comment. -/
def BlockComment.text (b : BlockComment) : List Char := '/' :: b.opening.char :: b.tail

/-! ## Scanning within a comment -/

namespace Gap

variable {depth start n : Nat} {rest : List Char}

theorem scan_block_nil : scan (.block depth start) n [] = .unclosed start := by
  cases depth <;> rfl

/-- One character alone does not close a comment. -/
theorem scan_block_single (c : Char) : scan (.block depth start) n [c] = .unclosed start := by
  cases depth <;> rfl

theorem scan_block_character {c : Char} (hc : c ≠ '/' ∧ c ≠ '-' ∧ c ≠ '*') :
    scan (.block depth start) n (c :: rest) = scan (.block depth start) (n + 1) rest := by
  obtain ⟨hslash, hdash, hstar⟩ := hc
  cases rest with
  | nil => rw [scan_block_single, scan_block_nil]
  | cons d rest =>
      refine scan_within (fun hopen => hslash hopen.1) (fun hclose => ?_) depth start n rest
      simp [isCommentSign, hdash, hstar] at hclose

theorem scan_block_open (s : CommentSign) :
    scan (.block depth start) n ('/' :: s.char :: rest) =
      scan (.block (depth + 1) start) (n + 2) rest :=
  scan_nest ⟨rfl, s.isCommentSign_char⟩ depth start n rest

theorem scan_block_close (s : CommentSign) :
    scan (.block (depth + 1) start) n (s.char :: '/' :: rest) =
      scan (.block depth start) (n + 2) rest := by
  rw [scan, if_neg fun hopen => absurd hopen.2 (by decide), if_pos ⟨s.isCommentSign_char, rfl⟩]

end Gap

namespace CommentBody

/-- What stands within a comment is scanned at one depth, whatever follows it. The scan goes on
behind it as if it had been a run of plain characters. -/
theorem scan_append (b : CommentBody) (depth start n : Nat) (rest : List Char) :
    Gap.scan (.block depth start) n (b.text ++ rest) =
      Gap.scan (.block depth start) (n + b.text.length) rest := by
  induction b generalizing depth n rest with
  | empty => rfl
  | character c plain more ih =>
      rw [text, List.cons_append, Gap.scan_block_character plain, ih, List.length_cons]
      congr 1
      omega
  | comment opening inner closing more ihInner ihMore =>
      rw [text, List.cons_append, List.cons_append, List.append_assoc, Gap.scan_block_open, ihInner,
        List.cons_append, List.cons_append, Gap.scan_block_close, ihMore]
      simp only [List.length_cons, List.length_append]
      congr 1
      omega

/-- What stands within a comment, in front of the rest of it. -/
theorem commentTail (b : CommentBody) {depth : Nat} {rest : List Char} (h : CommentTail depth rest) :
    CommentTail depth (b.text ++ rest) := by
  induction b generalizing depth rest with
  | empty => exact h
  | character c plain more ih =>
      obtain ⟨hslash, hdash, hstar⟩ := plain
      obtain ⟨d, tail, htail⟩ := (ih h).exists_cons
      have hmore := ih h
      rw [text, List.cons_append, htail]
      rw [htail] at hmore
      refine .other (fun hopen => hslash hopen.1) (fun hclose => ?_) hmore
      simp [Gap.isCommentSign, hdash, hstar] at hclose
  | comment opening inner closing more ihInner ihMore =>
      have hinner := ihInner (.close closing.isCommentSign_char (ihMore h))
      rw [text, List.cons_append, List.cons_append, List.append_assoc]
      exact .nest opening.isCommentSign_char hinner

/-- A first part of what stands within a comment closes no comment around it. -/
theorem scan_cut (b : CommentBody) (depth start n : Nat) {cut : List Char} (hcut : cut <+: b.text) :
    Gap.scan (.block depth start) n cut = .unclosed start := by
  induction b generalizing depth n cut with
  | empty =>
      rw [List.prefix_nil.mp hcut]
      exact Gap.scan_block_nil
  | character c plain more ih =>
      rcases List.prefix_cons_iff.mp hcut with hnil | ⟨part, heq, hpart⟩
      · rw [hnil, Gap.scan_block_nil]
      · rw [heq, Gap.scan_block_character plain]
        exact ih depth (n + 1) hpart
  | comment opening inner closing more ihInner ihMore =>
      -- the cut is in the opening sign, within the inner comment, in its closing sign, or behind it
      rcases List.prefix_cons_iff.mp hcut with hnil | ⟨part, rfl, hpart⟩
      · rw [hnil, Gap.scan_block_nil]
      rcases List.prefix_cons_iff.mp hpart with hnil | ⟨within, rfl, hwithin⟩
      · rw [hnil, Gap.scan_block_single]
      rw [Gap.scan_block_open]
      rcases List.prefix_or_prefix_of_prefix hwithin (List.prefix_append _ _) with
        hinner | ⟨close, rfl⟩
      · exact ihInner (depth + 1) (n + 2) hinner
      rw [inner.scan_append]
      rcases List.prefix_cons_iff.mp ((List.prefix_append_right_inj _).mp hwithin) with
        hnil | ⟨slash, rfl, hslash⟩
      · rw [hnil, Gap.scan_block_nil]
      rcases List.prefix_cons_iff.mp hslash with hnil | ⟨behind, rfl, hbehind⟩
      · rw [hnil, Gap.scan_block_single]
      rw [Gap.scan_block_close]
      exact ihMore depth _ hbehind

end CommentBody

namespace BlockComment

/-- A comment is a complete part of a gap. -/
theorem trivia (b : BlockComment) (behind : List Char) : Trivia behind b.text := by
  have htail : CommentTail 0 b.tail := b.body.commentTail (.last b.closing.isCommentSign_char)
  have htrivia := Trivia.comment b.opening.isCommentSign_char htail (Trivia.nil : Trivia behind [])
  rwa [List.append_nil] at htrivia

/-- A first part of a comment, with the sign that opens it, is a comment that is never closed. -/
theorem gap_cut (b : BlockComment) {cut : List Char} (hcut : cut <+: b.text) (hne : cut ≠ b.text)
    (hlength : 2 ≤ cut.length) : gap cut = .unclosed 0 := by
  have hline : b.opening.char ≠ '/' := by cases b.opening <;> decide
  match cut, hlength with
  | c :: d :: part, _ =>
    obtain ⟨rfl, hopening⟩ := List.cons_prefix_cons.mp hcut
    obtain ⟨rfl, hpart⟩ := List.cons_prefix_cons.mp hopening
    rw [gap, Gap.scan, if_neg (by decide), if_pos rfl, if_neg hline,
      if_pos b.opening.isCommentSign_char]
    -- only the whole text holds the last slash
    have hlast : b.tail = (b.body.text ++ [b.closing.char]) ++ ['/'] := by
      rw [tail, List.append_assoc]
      rfl
    rw [hlast] at hpart
    rcases List.prefix_concat_iff.mp hpart with rfl | hpart
    · rw [text, hlast] at hne
      exact absurd rfl hne
    rcases List.prefix_concat_iff.mp hpart with rfl | hpart
    · rw [b.body.scan_append, Gap.scan_block_single]
    · exact b.body.scan_cut 0 0 2 hpart

end BlockComment

/-! ## Tokens behind a comment -/

/-- Where a text stands does not matter to its next token, apart from the place of the token. -/
theorem Cursor.next_moved {c d : Cursor} (h : c.rest = d.rest) :
    c.next.1.bare = d.next.1.bare ∧ c.next.2.rest = d.next.2.rest := by
  obtain ⟨text, p⟩ := c
  obtain ⟨_, q⟩ := d
  obtain rfl : text = _ := h
  unfold next
  cases gap text with
  | unclosed start => exact ⟨rfl, rfl⟩
  | closed n =>
      dsimp only [skip]
      cases text.drop n with
      | nil => exact ⟨rfl, rfl⟩
      | cons first rest =>
          refine ⟨?_, rfl⟩
          dsimp only [token]
          cases (scan first rest).outcome with
          | ok kind | error fault => rfl

/-- Where a text stands does not matter to its tokens, apart from their places. -/
theorem Stream.bare_moved {c d : Cursor} (h : c.rest = d.rest) :
    (ofCursor c).all.map Token.bare = (ofCursor d).all.map Token.bare := by
  induction hlength : c.rest.length using Nat.strongRecOn generalizing c d with
  | _ n ih =>
      obtain ⟨hbare, hrest⟩ := Cursor.next_moved h
      have hkind : c.next.1.kind = d.next.1.kind := congrArg Lexeme.kind hbare
      by_cases hend : c.next.1.kind = .endOfFile
      · rw [ofCursor_end hend, ofCursor_end (hkind.symm.trans hend)]
        exact congrArg (fun l => [l]) hbare
      · have hbehind := ih _ (hlength ▸ Cursor.next_lt hend) hrest rfl
        rw [ofCursor_cons hend, ofCursor_cons fun he => hend (hkind.trans he)]
        exact congrArg₂ List.cons hbare hbehind

namespace BlockComment

/-- A comment is no token and no part of one: the tokens behind it are those of the text behind it.
A first part of it that opens it is one invalid token at its start, and the end of the text. -/
theorem blockComment_tokens (b : BlockComment) (p : Position) :
    (∀ rest, (Stream.ofCursor ⟨b.text ++ rest, p⟩).all.map Token.bare =
      (Stream.ofText rest).all.map Token.bare) ∧
    ∀ cut, cut <+: b.text → cut ≠ b.text → 2 ≤ cut.length →
      Stream.ofCursor ⟨cut, p⟩ =
        ⟨[⟨.invalid, "Unterminated block comment.", p⟩], .endOfFile (p.after cut)⟩ := by
  constructor
  · intro rest
    rw [Stream.ofCursor_trivia (b.trivia rest)]
    exact Stream.bare_moved rfl
  · intro cut hcut hne hlength
    have hnext := Cursor.next_unclosed (b.gap_cut hcut hne hlength) p
    rw [Stream.ofCursor_cons (by rw [hnext]; simp [Token.invalid]), hnext,
      Stream.ofCursor_end (by rfl)]
    rfl

/-- A comment with three others in it, whose signs meet and whose styles differ. Where the signs
meet, no character belongs to two of them. -/
def nested : BlockComment :=
  ⟨.dash, .comment .star (.comment .dash .empty .star .empty) .dash
    (.comment .dash (.character 'x' (by decide) .empty) .dash .empty), .star⟩

/-- The tokens behind this comment, and what is left of it without its last character. -/
theorem blockComment_tokens_nested :
    nested.text = "/-/*/-*/-//-x-/*/".toList ∧
      (Stream.ofCursor ⟨nested.text ++ "a /- b".toList, Position.start⟩).all.map Token.bare =
        (Stream.ofText "a /- b".toList).all.map Token.bare ∧
      "/-/*/-*/-//-x-/*".toList <+: nested.text ∧ "/-/*/-*/-//-x-/*".toList ≠ nested.text ∧
      2 ≤ "/-/*/-*/-//-x-/*".toList.length ∧
      Stream.ofCursor ⟨"/-/*/-*/-//-x-/*".toList, Position.start⟩ =
        ⟨[⟨.invalid, "Unterminated block comment.", Position.start⟩], .endOfFile ⟨1, 17⟩⟩ := by
  have htext : nested.text = "/-/*/-*/-//-x-/*/".toList := by decide
  have hcut : "/-/*/-*/-//-x-/*".toList <+: nested.text := by rw [htext]; decide
  have hne : "/-/*/-*/-//-x-/*".toList ≠ nested.text := by rw [htext]; decide
  have hlength : 2 ≤ "/-/*/-*/-//-x-/*".toList.length := by decide
  obtain ⟨hbehind, hunclosed⟩ := blockComment_tokens nested Position.start
  exact ⟨htext, hbehind _, hcut, hne, hlength, hunclosed _ hcut hne hlength⟩

end BlockComment

end FrontEnd
