import FrontEnd.Proofs.Parsing.Regular

set_option autoImplicit false

/-! # Reading goes forward

No change of a state gives a token back, so what is left to read is always a suffix of what was
left before (`Moves.unread_suffix`). Every statement and every declaration that is read takes a token
(`Shrinks`). A failure may have taken none, but `State.recover` then skips one. One round of
reading a block or a file thus always leaves fewer tokens.

In a sequence one part that takes a token is enough, and the others may do what they like as long as
they are regular (`Shrinks.bind_left`, `Shrinks.bind_right`). So each proof names the part that takes
the token: the first keyword or sign, an operand, or the body of a block.
-/

namespace FrontEnd.Grammar

open FrontEnd.Grammar.Parser

variable {α β : Type} {s s' : State}

/-! ## Nothing is given back

The unread tokens are always a suffix of those that were there before. Reading shortens them, and so
does recovery. -/

theorem State.settle_suffix (s : State) (tokens : List Token) :
    (s.settle tokens).unread <:+ tokens := by
  induction tokens generalizing s with
  | nil => exact List.suffix_rfl
  | cons t rest ih =>
      rw [settle]
      split
      · exact (ih _).trans (List.suffix_cons t rest)
      · exact List.suffix_rfl

theorem Change.unread_suffix (h : Change s s') : s'.unread <:+ s.unread := by
  cases h with
  | complain f soft => exact (s.report_unread f).symm ▸ List.suffix_rfl
  | advance => exact (s.settle_suffix _).trans (List.tail_suffix _)
  | fail f hard =>
      change (s.report f).unread <:+ s.unread
      exact (s.report_unread f).symm ▸ List.suffix_rfl
  | skip rest behind => exact behind
  | setScopes | setInFunction | setEntryPoint | setNamespace | exitPanic => exact List.suffix_rfl

theorem Moves.unread_suffix (h : Moves s s') : s'.unread <:+ s.unread :=
  h.keeps (P := fun t => t.unread <:+ s.unread) (fun _ _ hc ht => hc.unread_suffix.trans ht)
    List.suffix_rfl

theorem Moves.length_le (h : Moves s s') : s'.unread.length ≤ s.unread.length :=
  h.unread_suffix.length_le

/-- The end of the file stands behind the unread tokens. A parser that looks beyond the last token
therefore finds the end, however often it looks. -/
def State.HasEnd (s : State) : Prop := s.finish.kind = .endOfFile

namespace State.HasEnd

theorem moves (h : s.HasEnd) (hm : Moves s s') : s'.HasEnd := by
  rw [HasEnd, hm.finish_eq]
  exact h

/-- A current token other than the end of the file is an unread one. -/
theorem unread_ne_nil (h : s.HasEnd) (hk : s.current.kind ≠ .endOfFile) : s.unread ≠ [] := by
  intro he
  rw [current, he] at hk
  exact hk h

theorem length_pos (h : s.HasEnd) (hk : s.current.kind ≠ .endOfFile) : 0 < s.unread.length :=
  List.length_pos_iff.mpr (h.unread_ne_nil hk)

theorem advance_lt (h : s.HasEnd) (hk : s.current.kind ≠ .endOfFile) :
    s.advance.unread.length < s.unread.length := by
  have hpos := h.length_pos hk
  have hle := (s.settle_suffix s.unread.tail).length_le
  rw [List.length_tail] at hle
  rw [State.advance]
  omega

end State.HasEnd

/-! ## Parsers that take a token

It is enough that one part of a parser takes a token, be it the first part or a later one. -/

/-- Every success of the parser takes a token. A loop over such a parser comes to an end. -/
def Shrinks (p : Parser α) : Prop :=
  ∀ ⦃s : State⦄ ⦃a : α⦄ ⦃s' : State⦄, s.HasEnd → p s = .ok a s' →
    s'.unread.length < s.unread.length

namespace Shrinks

theorem bind_left {p : Parser α} {q : α → Parser β} (hp : Shrinks p) (hq : ∀ a, Regular (q a)) :
    Shrinks (p >>= q) := by
  intro s b s'' hs h
  obtain ⟨a, s', h, h'⟩ := bind_eq_ok.mp h
  exact Nat.lt_of_le_of_lt ((hq a).ok h').length_le (hp hs h)

theorem bind_right {p : Parser α} {q : α → Parser β} (hp : Regular p) (hq : ∀ a, Shrinks (q a)) :
    Shrinks (p >>= q) := by
  intro s b s'' hs h
  obtain ⟨a, s', h, h'⟩ := bind_eq_ok.mp h
  have hm := hp.ok h
  exact Nat.lt_of_lt_of_le (hq a (hs.moves hm) h') hm.length_le

theorem ite {c : Prop} [Decidable c] {p q : Parser α} (hp : Shrinks p) (hq : Shrinks q) :
    Shrinks (if c then p else q) := by
  split
  · exact hp
  · exact hq

theorem failExpecting (what : Expectation) : Shrinks (Parser.failExpecting what : Parser α) :=
  fun _ _ _ _ h => absurd h failExpecting_ne_ok

theorem expect {kind : Kind} (hk : kind ≠ .endOfFile) (place : Place) :
    Shrinks (Parser.expect kind place) := by
  intro s t s' hs h
  obtain ⟨rfl, rfl, rfl⟩ := expect_eq_ok.mp h
  exact hs.advance_lt hk

end Shrinks

/-- What goes on behind the current token, which was read. -/
theorem State.HasEnd.behind {q : Parser β} {b : β} (hs : s.HasEnd)
    (hk : s.current.kind ≠ .endOfFile) (hq : Regular q) (h : q s.advance = .ok b s') :
    s'.unread.length < s.unread.length :=
  Nat.lt_of_le_of_lt (hq.ok h).length_le (hs.advance_lt hk)

namespace Shrinks

/-! ## Expressions and types

An operand starts with a token of its own, and the links behind it can only take more. Nothing has to
be known of the fuel: a parser that is out of fuel fails. -/

theorem primaryWithin (fuel : Nat) : Shrinks (Parser.primaryWithin fuel) := by
  cases fuel with
  | zero => rw [Parser.primaryWithin]; exact failExpecting _
  | succ fuel =>
      have hexpression := (Regular.grammar.expressionParsers fuel).expression
      have harguments := (Regular.grammar.expressionParsers fuel).arguments
      intro s e s' hs h
      rw [Parser.primaryWithin, current_bind] at h
      generalize hk : s.current.kind = k at h
      -- each branch but the last reads the current token first
      have hbehind {p : Parser Expr} (hne : k ≠ .endOfFile) (hp : Regular p)
          (h : p s.advance = .ok e s') : s'.unread.length < s.unread.length :=
        hs.behind (hk ▸ hne) hp h
      have hliteral (e' : Location → Expr) :
          Regular (do return e' (← Parser.locate s.current)) :=
        .bind (.locate _) fun _ => .pure _
      split at h
      · exact hbehind (by simp) (Regular.grammar.numberLiteral _) h
      · exact hbehind (by simp) (hliteral _) h
      · exact hbehind (by simp) (hliteral _) h
      · exact hbehind (by simp) (hliteral _) h
      · exact hbehind (by simp) (Regular.grammar.charLiteral _) h
      · rw [lookahead_bind] at h
        split at h
        · rw [advance_bind] at h
          refine hbehind (by simp) ?_ h
          refine .bind .advance ?_
          intro _
          refine .bind harguments ?_
          intro _
          refine .bind (.expect ..) ?_
          intro _
          refine .bind (.locate _) ?_
          intro _
          exact .pure _
        · rw [advance_bind] at h
          refine hbehind (by simp) ?_ h
          refine .bind .get ?_
          intro _
          refine .bind (.onlyIf _ (.complain rfl s.current)) ?_
          intro _
          refine .bind (.locate _) ?_
          intro _
          exact .pure _
      · exact hbehind (by simp) (.bind hexpression fun _ => .bind (.expect ..) fun _ => .pure _) h
      · exact absurd h failExpecting_ne_ok

theorem unaryWithin (fuel : Nat) : Shrinks (Parser.unaryWithin fuel) := by
  cases fuel with
  | zero => rw [Parser.unaryWithin]; exact failExpecting _
  | succ fuel =>
      have hunary := (Regular.grammar.expressionParsers fuel).unary
      have hprimary := (Regular.grammar.expressionParsers fuel).primary
      intro s e s' hs h
      rw [Parser.unaryWithin, current_bind] at h
      generalize hop : unaryOp? s.current.kind = unary? at h
      split at h
      · refine hs.behind (fun he => ?_)
          (.bind hunary fun _ => .bind (.locate _) fun _ => .pure _) h
        rw [he] at hop
        cases hop
      · generalize hk : s.current.kind = k at h
        split at h
        · exact hs.behind (by simp [hk]) (.bind hprimary fun _ => Regular.grammar.stepNode ..) h
        · exact primaryWithin fuel hs h

theorem expressionWithin (fuel : Nat) : Shrinks (Parser.expressionWithin fuel) := by
  cases fuel with
  | zero => rw [Parser.expressionWithin]; exact failExpecting _
  | succ fuel =>
      rw [Parser.expressionWithin]
      exact bind_left (unaryWithin fuel) ((Regular.grammar.expressionParsers fuel).climb 0)

theorem expression : Shrinks Parser.expression :=
  bind_right .get fun _ => expressionWithin _

theorem typeExpr (place : Place) : Shrinks (Parser.typeExpr place) := by
  intro s type s' hs h
  rw [Parser.typeExpr, current_bind] at h
  generalize hk : s.current.kind = k at h
  have hbehind {e : Location → TypeExpr} (hne : k ≠ .endOfFile)
      (h : (do return e (← Parser.locate s.current)) s.advance = .ok type s') :
      s'.unread.length < s.unread.length :=
    hs.behind (hk ▸ hne) (.bind (.locate _) fun _ => .pure _) h
  split at h
  · exact hbehind (by simp) h
  · exact hbehind (by simp) h
  · exact hbehind (by simp) h
  · exact absurd h failExpecting_ne_ok

/-! ## Statements

Every statement takes a token, whatever it starts with. The empty one takes its semicolon. -/

theorem keywordBinding : Shrinks Parser.keywordBinding := by
  refine bind_right .take ?_
  intro _
  refine bind_left (expect (by simp) _) ?_
  intro name
  refine .bind Regular.grammar.optionalType ?_
  intro _
  refine .bind Regular.grammar.optionalInit ?_
  intro _
  refine .bind (.accept _) ?_
  intro _
  refine .bind (.onlyIf _ (.complain rfl name)) ?_
  intro _
  exact Regular.grammar.finishBinding ..

theorem block {inner : Parser (List Statement)} (hinner : Regular inner) :
    Shrinks (Parser.block inner) := by
  refine bind_left (expect (by simp) _) ?_
  intro opening
  refine .bind (.pushScope _) ?_
  intro _
  refine .bind hinner ?_
  intro _
  refine .bind .popScope ?_
  intro _
  refine .bind (.locate opening) ?_
  intro _
  exact .pure _

theorem nameBinding {inner : Parser (List Statement)} (hinner : Regular inner) :
    Shrinks (Parser.nameBinding inner) := by
  -- the name and its sign need not take tokens: it is the value, the block or the type that does
  have hdefine (name : Token) (mutability : Mutability) :
      Shrinks (do
        let node ← finishBinding name none (some (← Parser.expression)) mutability
        let _ ← accept (.mark .semicolon)
        return node) :=
    bind_left expression fun _ => .bind (Regular.grammar.finishBinding ..) fun _ =>
      .bind (.accept _) fun _ => .pure _
  refine bind_right .take ?_
  intro name
  refine bind_right .take ?_
  intro sign
  split
  · exact hdefine name _
  · exact hdefine name _
  · refine bind_right .current fun t => ite ?_ ?_
    · refine bind_right .get ?_
      intro _
      refine bind_right (.onlyIf _ (.complain rfl name)) ?_
      intro _
      apply bind_left (block hinner)
      intro _
      refine .bind (.locate name) ?_
      intro _
      exact .pure _
    · refine bind_left (typeExpr _) ?_
      intro _
      refine .bind Regular.grammar.optionalInit ?_
      intro _
      refine .bind (Regular.grammar.finishBinding ..) ?_
      intro _
      refine .bind (.accept _) ?_
      intro _
      exact .pure _

/-- A `return` takes its keyword. -/
theorem returnStatement {node : Statement} (hs : s.HasEnd)
    (hk : s.current.kind = .word .returnWord) (h : Parser.returnStatement s = .ok node s') :
    s'.unread.length < s.unread.length := by
  rw [Parser.returnStatement, take_bind] at h
  refine hs.behind (by simp [hk]) ?_ h
  refine .bind .get ?_
  intro _
  refine .bind (.onlyIf _ (.complain rfl _)) ?_
  intro _
  refine .bind Regular.grammar.returnValues ?_
  intro _
  refine .bind (.accept _) ?_
  intro _
  refine .bind (.locate _) ?_
  intro _
  exact .pure _

theorem statement {inner : Parser (List Statement)} (hinner : Regular inner) :
    Shrinks (Parser.statement inner) := by
  intro s node s' hs h
  rw [Parser.statement, get_bind] at h
  generalize hk : s.current.kind = k at h
  split at h
  · exact bind_left keywordBinding (fun _ => .pure _) hs h
  · exact bind_left keywordBinding (fun _ => .pure _) hs h
  · exact bind_left keywordBinding (fun _ => .pure _) hs h
  · obtain ⟨node', s1, h, hnode⟩ := bind_eq_ok.mp h
    obtain ⟨-, rfl⟩ := pure_eq_ok.mp hnode
    exact returnStatement hs hk h
  · exact bind_left (block hinner) (fun _ => .pure _) hs h
  · exact hs.behind (by simp [hk]) (.pure _) h
  · exact absurd h fail_ne_ok
  · exact absurd h fail_ne_ok
  · exact absurd h fail_ne_ok
  · exact absurd h fail_ne_ok
  · split at h
    · exact bind_left (nameBinding hinner) (fun _ => .pure _) hs h
    · refine bind_right Regular.grammar.expression ?_ hs h
      intro _
      refine bind_left (expect (by simp) _) ?_
      intro _
      exact .pure _

/-! ## Declarations -/

theorem namespaceLine : Shrinks Parser.namespaceLine := by
  refine bind_right .take ?_
  intro keyword
  refine bind_left (expect (by simp) _) ?_
  intro name
  refine .bind (.accept _) ?_
  intro _
  refine .bind .get ?_
  intro s
  split
  · exact .bind (.complain rfl name) fun _ => .pure _
  · refine .bind (.update fun s => ?_) fun _ => .bind (.locate keyword) fun _ => .pure _
    exact (Moves.of_change (.setNamespace s _)).tail (.setScopes _ _)

theorem prototype (isExtern : Bool) : Shrinks (Parser.prototype isExtern) := by
  refine bind_right .take ?_
  intro _
  refine bind_left (expect (by simp) _) ?_
  intro name
  refine .bind (Regular.grammar.declareFunction ..) ?_
  intro _
  refine .bind (.expect ..) ?_
  intro _
  refine .bind Regular.grammar.params ?_
  intro _
  refine .bind (.expect ..) ?_
  intro _
  refine .bind (Regular.grammar.returnTypes _) ?_
  intro _
  refine .bind (.locate name) ?_
  intro _
  exact .pure _

theorem declaration : Shrinks Parser.declaration := by
  intro s node s' hs h
  rw [Parser.declaration, get_bind] at h
  generalize hk : s.current.kind = k at h
  have hfunction : Shrinks Parser.function :=
    bind_left (prototype false) fun _ => .bind (.withinFunction .functionBody _) fun _ => .pure _
  -- the word `extern` itself need not count, as the head behind it takes tokens
  have hextern : Shrinks Parser.externFunction :=
    bind_right .take fun _ => bind_right .current fun _ =>
      ite (bind_left (prototype true) fun _ => .bind (.accept _) fun _ => .pure _)
        (failExpecting _)
  split at h
  · exact namespaceLine hs h
  · exact bind_left hfunction (fun _ => .pure _) hs h
  · exact bind_left hfunction (fun _ => .pure _) hs h
  · exact bind_left hextern (fun _ => .pure _) hs h
  · exact bind_left keywordBinding (fun _ => .pure _) hs h
  · exact bind_left keywordBinding (fun _ => .pure _) hs h
  · exact bind_left keywordBinding (fun _ => .pure _) hs h
  · obtain ⟨node', s1, h, hnode⟩ := bind_eq_ok.mp h
    obtain ⟨-, rfl⟩ := pure_eq_ok.mp hnode
    exact returnStatement hs hk h
  · split at h
    · exact bind_left (nameBinding .statements) (fun _ => .pure _) hs h
    · exact absurd h failExpecting_ne_ok

end Shrinks

/-! ## Recovery

A statement may fail at its first token, for instance at a closing parenthesis, which is no boundary
either. Recovery sees from the number of tokens that nothing was taken, and takes one. -/

/-- Skipping a statement passes over its first token at least. -/
theorem skipStatement_suffix_tail (tokens : List Token) :
    skipStatement tokens <:+ tokens.tail := by
  cases tokens with
  | nil => exact List.suffix_rfl
  | cons t rest =>
      rw [skipStatement]
      split
      · next hk =>
        rw [skipGroups, hk]
        exact Regular.skipGroups_suffix _ _
      · exact Regular.synchronize_suffix _ _

/-- A failed statement that started with `before` unread tokens leaves fewer of them. -/
theorem State.recover_lt {before : Nat} (hpos : 0 < before) (hle : s.unread.length ≤ before)
    (failure : Finding) : (s.recover failure before).unread.length < before := by
  change (if s.unread.length = before then skipStatement s.unread
    else synchronize false s.unread).length < before
  split
  · have hskip := (skipStatement_suffix_tail s.unread).length_le
    rw [List.length_tail] at hskip
    omega
  · have hsync := (Regular.synchronize_suffix false s.unread).length_le
    omega

end FrontEnd.Grammar
