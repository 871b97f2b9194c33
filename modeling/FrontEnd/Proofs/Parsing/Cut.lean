import FrontEnd.Proofs.Parsing.Alongside

set_option autoImplicit false

/-! # A file without its last braces

Closing braces at the end of a file are cut off (`Cut`). Up to the cut the run of the file that is
left stands before the same tokens as the run of the whole file (`Cut.Fits`). Where the one comes to a
closing brace the other may be at the end of its file, and no expression, type or head of a function
tells these two apart: whatever the first run reads, the second one reads too (`Cut.Blind`). The
exception is an extern function without a return type, which takes the place of the type from the
token behind it.

The two runs are compared parser by parser. A parser that looks at the next token looks at the same
one in both runs, or at a closing brace in the first and at the end in the second
(`Cut.Fits.current`); so at every look the proofs below split into these two cases, and in the second
one they check that the parser takes neither of the two. Only success is carried over: where the first
run fails nothing is said of the second one, and failures are compared where blocks are closed.

One lemma for each parser, in the order of the grammar.
-/

namespace FrontEnd.Grammar

open FrontEnd.Grammar.Parser

variable {α β : Type}

/-! ## The two runs

The file is cut in front of the braces that close its last blocks. What was found up to the cut is
in both runs, and so is all that was declared. -/

/-- Closing braces that are cut off at the end of a file. There is at least one of them, so the file
that is left ends in front of a closing brace. -/
structure Cut where
  closers : List Token
  closing : ∀ x ∈ closers, x.kind = .mark .rightBrace
  nonempty : closers ≠ []
  /-- The place where the file that is left ends. -/
  place : Position

/-- The end of the file that is left. -/
def Cut.finish (c : Cut) : Token := .endOfFile c.place

theorem Cut.ends (c : Cut) : c.finish.kind = .endOfFile := rfl

/-- The tokens at which a block ends. -/
def endsBlock : Kind → Bool
  | .mark .rightBrace | .endOfFile => true
  | _ => false

theorem not_endsBlock_of_unaryOp? {kind : Kind} {op : UnaryOp} (h : unaryOp? kind = some op) :
    endsBlock kind = false := by
  unfold unaryOp? at h
  split at h
  · rfl
  · rfl
  · rfl
  · cases h

theorem endsBlock_eq_false {s : State} (h : ¬ s.endsBlock) : endsBlock s.current.kind = false := by
  unfold endsBlock
  split
  · next hk => exact absurd (.inl hk) h
  · next hk => exact absurd (.inr hk) h
  · rfl

/-- No closing brace comes next. A run that stands in front of another token is not at the cut. -/
def State.NoBrace (s : State) : Prop := s.current.kind ≠ .mark .rightBrace

/-- The second state has the tokens of the first one up to the cut, and is the same in all else. The
first one has been in no trouble so far: it is sober, as long as the whole file is read without
grammatical mistakes. -/
structure Cut.Fits (c : Cut) (s t : State) : Prop where
  tokens : ∃ w, s.unread = w ++ c.closers ∧ t = s.withTokens w c.finish
  sober : s.Sober

variable {c : Cut} {s t : State}

/-- What neither reads nor fails keeps the state sober. -/
theorem Quiet.sober {f : State → State} (hf : Quiet f) (hs : s.Sober) : (f s).Sober := by
  have hcalm := hf.calm s
  refine ⟨hs.lexed.of_suffix (hf.finish_eq s) (hf.unread_eq s ▸ List.suffix_rfl), ?_⟩
  rw [hcalm.panic, State.clean_iff, hcalm.grammatical, ← State.clean_iff]
  exact hs.loud

theorem Cut.exists_closer (c : Cut) :
    ∃ x rest, c.closers = x :: rest ∧ x.kind = .mark .rightBrace := by
  obtain ⟨x, rest, h⟩ := List.exists_cons_of_ne_nil c.nonempty
  exact ⟨x, rest, h, c.closing x (h ▸ List.mem_cons_self)⟩

namespace Cut.Fits

theorem lexed (h : c.Fits s t) : t.Lexed := by
  obtain ⟨w, hs, rfl⟩ := h.tokens
  have hw : ∀ x ∈ w, x ∈ s.unread := fun x hx => hs ▸ List.mem_append_left _ hx
  exact ⟨fun x hx => h.sober.lexed.valid x (hw x hx), fun x hx => h.sober.lexed.inner x (hw x hx),
    c.ends⟩

theorem left (h : c.Fits s t) : s.HasEnd := h.sober.lexed.finish

theorem right (h : c.Fits s t) : t.HasEnd := h.lexed.finish

theorem length_le (h : c.Fits s t) : t.unread.length ≤ s.unread.length := by
  obtain ⟨w, hs, rfl⟩ := h.tokens
  rw [hs, List.length_append]
  exact Nat.le_add_right _ _

theorem locate (h : c.Fits s t) (x : Token) : t.locate x = s.locate x := by
  obtain ⟨w, -, rfl⟩ := h.tokens
  rfl

theorem scopes (h : c.Fits s t) : t.scopes = s.scopes := by
  obtain ⟨w, -, rfl⟩ := h.tokens
  rfl

theorem inFunction (h : c.Fits s t) : t.inFunction = s.inFunction := by
  obtain ⟨w, -, rfl⟩ := h.tokens
  rfl

theorem namespaceLine (h : c.Fits s t) : t.namespaceLine = s.namespaceLine := by
  obtain ⟨w, -, rfl⟩ := h.tokens
  rfl

/-- The current tokens are the same, or the second run is at the cut: then the first run has one of
the closing braces before it, and the second one the end of its file. -/
theorem current (h : c.Fits s t) :
    t.current = s.current ∨ s.current.kind = .mark .rightBrace ∧ t.current.kind = .endOfFile := by
  obtain ⟨w, hs, rfl⟩ := h.tokens
  obtain ⟨x, rest, hx, hk⟩ := c.exists_closer
  cases w with
  | nil =>
      refine .inr ⟨?_, c.ends⟩
      rw [State.current, hs, hx]
      exact hk
  | cons y w =>
      refine .inl ?_
      rw [State.current, State.current, hs]
      rfl

theorem current_eq (h : c.Fits s t) (hk : endsBlock s.current.kind = false) :
    t.current = s.current := by
  refine h.current.resolve_right fun ⟨hs, _⟩ => ?_
  rw [hs] at hk
  cases hk

/-- The tokens behind a token that both runs have before them. -/
theorem exists_cons (h : c.Fits s t) (hk : endsBlock s.current.kind = false) :
    ∃ x w, s.unread = x :: (w ++ c.closers) ∧ t = s.withTokens (x :: w) c.finish := by
  obtain ⟨w, hs, rfl⟩ := h.tokens
  cases w with
  | cons x w => exact ⟨x, w, hs, rfl⟩
  | nil =>
      obtain ⟨x, rest, hx, hkind⟩ := c.exists_closer
      rw [State.current, hs, hx] at hk
      change endsBlock x.kind = false at hk
      rw [hkind] at hk
      cases hk

/-- Both runs move on over a token in front of the cut. -/
theorem advance_cons {x : Token} {w : List Token} (h : c.Fits s t)
    (hs : s.unread = x :: (w ++ c.closers)) (ht : t = s.withTokens (x :: w) c.finish) :
    c.Fits s.advance t.advance := by
  refine ⟨⟨w, ?_, ?_⟩, (Change.advance s).sober h.sober⟩
  · rw [h.sober.lexed.advance_eq, hs, List.tail_cons]
  · rw [h.lexed.advance_eq, h.sober.lexed.advance_eq, ht]
    rfl

theorem advance (h : c.Fits s t) (hk : endsBlock s.current.kind = false) :
    c.Fits s.advance t.advance := by
  obtain ⟨x, w, hs, ht⟩ := h.exists_cons hk
  exact h.advance_cons hs ht

/-- The tokens behind the current ones are the same, or the cut stands behind the current one. -/
theorem lookahead (h : c.Fits s t) (hk : endsBlock s.current.kind = false) :
    t.lookahead = s.lookahead ∨
      s.lookahead.kind = .mark .rightBrace ∧ t.lookahead.kind = .endOfFile := by
  have hlookahead {u : State} (hu : u.Lexed) : u.lookahead = u.advance.current := by
    rw [hu.advance_eq]
    rfl
  rw [hlookahead h.lexed, hlookahead h.sober.lexed]
  exact (h.advance hk).current

/-- A binding starts in both runs, or in none. -/
theorem startsBinding_eq (h : c.Fits s t) (hk : endsBlock s.current.kind = false) :
    startsBinding t = startsBinding s := by
  rw [startsBinding, startsBinding, h.current_eq hk]
  rcases h.lookahead hk with hsame | ⟨hs, ht⟩
  · rw [hsame]
  · rw [hs, ht]

theorem update {f : State → State} (h : c.Fits s t) (hf : Quiet f) : c.Fits (f s) (f t) where
  tokens := by
    obtain ⟨w, hs, rfl⟩ := h.tokens
    exact ⟨w, (hf.unread_eq s).trans hs, hf.blind s w c.finish⟩
  sober := hf.sober h.sober

theorem exitPanic (h : c.Fits s t) : c.Fits s.exitPanic t.exitPanic where
  tokens := by
    obtain ⟨w, hs, rfl⟩ := h.tokens
    exact ⟨w, hs, rfl⟩
  sober := (Change.exitPanic s).sober h.sober

end Cut.Fits

/-! ## Parsers

`Repeats` compares the results of two runs of one parser. Its property `P` is asked of the state that
the first run reaches, not of the one where it starts: what comes next behind a parser may matter to
what the parser did, as it does for the extern function without a return type. -/

/-- If the first run succeeds in a state with the property `P`, then the second one succeeds with the
same value, and their states are related. -/
def Repeats (P : State → Prop) (R : State → State → Prop) (x y : EStateM.Result Finding State α) :
    Prop :=
  ∀ a s', x = .ok a s' → P s' → ∃ t', y = .ok a t' ∧ R s' t'

/-- Both runs go on up to the cut in the same way, whatever state is reached. -/
abbrev Cut.Goes (c : Cut) (x y : EStateM.Result Finding State α) : Prop :=
  Repeats (fun _ => True) c.Fits x y

/-- What the parser reads in front of the cut does not depend on it. Only success counts: where the
first run fails nothing is said of the second one. -/
def Cut.Blind (c : Cut) (p : Parser α) : Prop := ∀ ⦃s t⦄, c.Fits s t → c.Goes (p s) (p t)

namespace Repeats

variable {P P' : State → Prop} {R : State → State → Prop} {p p' : Parser α} {q q' : α → Parser β}

/-- In front stands a parser that stays in front of the cut. -/
theorem bind (hp : c.Goes (p s) (p' t))
    (hq : ∀ a ⦃s t⦄, c.Fits s t → Repeats P R (q a s) (q' a t)) :
    Repeats P R ((p >>= q) s) ((p' >>= q') t) := by
  intro b s' hok hs'
  obtain ⟨a, s1, hs1, hok⟩ := bind_eq_ok.mp hok
  obtain ⟨t1, ht1, h1⟩ := hp a s1 hs1 trivial
  obtain ⟨t', ht', h'⟩ := hq a h1 b s' hok hs'
  exact ⟨t', by rw [bind_of_ok ht1, ht'], h'⟩

/-- Behind it stands a parser that goes on from the states that are reached. -/
theorem tail (hp : Repeats P R (p s) (p' t)) (hback : ∀ {a s b s'}, q a s = .ok b s' → P' s' → P s)
    (hq : ∀ a ⦃s t⦄, R s t → Repeats P' R (q a s) (q' a t)) :
    Repeats P' R ((p >>= q) s) ((p' >>= q') t) := by
  intro b s' hok hs'
  obtain ⟨a, s1, hs1, hok⟩ := bind_eq_ok.mp hok
  obtain ⟨t1, ht1, h1⟩ := hp a s1 hs1 (hback hok hs')
  obtain ⟨t', ht', h'⟩ := hq a h1 b s' hok hs'
  exact ⟨t', by rw [bind_of_ok ht1, ht'], h'⟩

/-- A value made of the one that is read. -/
theorem map {f : α → β} (hp : Repeats P R (p s) (p' t)) :
    Repeats P R ((do return f (← p)) s) ((do return f (← p')) t) := by
  refine tail hp (fun hok hs' => ?_) fun a s t h b s' hok _ => ?_
  · cases hok
    exact hs'
  · cases hok
    exact ⟨t, rfl, h⟩

/-- Less may be asked of the state, and more may be said about the states. -/
theorem mono {R' : State → State → Prop} (hp : Repeats P R (p s) (p' t)) (hP : ∀ s, P' s → P s)
    (hR : ∀ s t, R s t → R' s t) : Repeats P' R' (p s) (p' t) := by
  intro a s' hok hs'
  obtain ⟨t', ht', h'⟩ := hp a s' hok (hP s' hs')
  exact ⟨t', ht', hR s' t' h'⟩

/-- Where the first run fails nothing is said. -/
theorem failExpecting {y : EStateM.Result Finding State α} (what : Expectation) :
    Repeats P R (Parser.failExpecting what s) y :=
  fun _ _ hok => absurd hok failExpecting_ne_ok

theorem fail {y : EStateM.Result Finding State α} (issue : Issue) :
    Repeats P R (Parser.fail issue s) y := fun _ _ hok => absurd hok fail_ne_ok

end Repeats

namespace Cut

namespace Blind

theorem pure (a : α) : c.Blind (Pure.pure a) := by
  intro s t h b s' hok _
  obtain ⟨rfl, rfl⟩ := pure_eq_ok.mp hok
  exact ⟨t, rfl, h⟩

theorem bind {p : Parser α} {q : α → Parser β} (hp : c.Blind p) (hq : ∀ a, c.Blind (q a)) :
    c.Blind (p >>= q) := by
  intro _ _ h
  refine .bind (hp h) ?_
  intro a _ _ h'
  exact hq a h'

theorem update {f : State → State} (hf : Quiet f) : c.Blind (Parser.update f) := by
  intro s t h a s' hok _
  cases hok
  exact ⟨f t, rfl, h.update hf⟩

theorem locate (x : Token) : c.Blind (Parser.locate x) := by
  intro s t h loc s' hok _
  cases hok
  exact ⟨t, by rw [← h.locate x]; rfl, h⟩

theorem failExpecting (what : Expectation) : c.Blind (Parser.failExpecting what : Parser α) :=
  fun _ _ _ => .failExpecting what

theorem onlyIf (condition : Bool) {p : Parser Unit} (hp : c.Blind p) :
    c.Blind (Parser.onlyIf condition p) := by
  cases condition with
  | true => exact hp
  | false => exact pure ()

theorem complain {issue : Issue} (soft : issue.isSemantic) (x : Token) :
    c.Blind (Parser.complain issue x) := update (.complain soft x)

/-- A complaint that depends on what was declared. -/
theorem complainIf {issue : Issue} (soft : issue.isSemantic) (x : Token) (condition : State → Bool)
    {q : Unit → Parser α} (hq : ∀ a, c.Blind (q a))
    (hsame : ∀ {s t}, c.Fits s t → condition t = condition s) :
    c.Blind (get >>= fun s => Parser.onlyIf (condition s) (Parser.complain issue x) >>= q) := by
  intro s t h
  rw [get_bind, get_bind, hsame h]
  exact bind (onlyIf _ (complain soft x)) hq h

theorem accept {kind : Kind} (hk : endsBlock kind = false) : c.Blind (Parser.accept kind) := by
  intro s t h b s' hok _
  rcases accept_eq_ok.mp hok with ⟨rfl, hkind, rfl⟩ | ⟨rfl, hkind, rfl⟩
  · have hcurrent := h.current_eq (hkind ▸ hk)
    exact ⟨t.advance, accept_eq_ok.mpr (.inl ⟨rfl, hcurrent ▸ hkind, rfl⟩), h.advance (hkind ▸ hk)⟩
  · refine ⟨t, accept_eq_ok.mpr (.inr ⟨rfl, ?_, rfl⟩), h⟩
    rcases h.current with heq | ⟨-, ht⟩
    · rwa [heq]
    · rw [ht]
      rintro rfl
      cases hk

theorem expect {kind : Kind} (hk : endsBlock kind = false) (place : Place) :
    c.Blind (Parser.expect kind place) := by
  intro s t h x s' hok _
  obtain ⟨rfl, hkind, rfl⟩ := expect_eq_ok.mp hok
  have hcurrent := h.current_eq (hkind ▸ hk)
  exact ⟨t.advance, hcurrent ▸ expect_of_kind place (hcurrent ▸ hkind), h.advance (hkind ▸ hk)⟩

/-! ## Expressions

By induction on the fuel, all parsers of expressions together. No expression starts with a closing
brace or with the end of a file, and none goes on with either, so where the two runs differ in the
current token both of them stop, or the first one fails. -/

theorem checkTarget (target : Expr) : c.Blind (Parser.checkTarget target) :=
  update (.checkTarget target)

theorem numberLiteral (x : Token) : c.Blind (Parser.numberLiteral x) := by
  refine bind (locate x) fun loc => ?_
  split
  · exact pure _
  · exact pure _
  · exact bind (complain rfl x) fun _ => pure _

theorem charLiteral (x : Token) : c.Blind (Parser.charLiteral x) := by
  refine bind (locate x) fun loc => ?_
  split
  · exact pure _
  · exact bind (complain rfl x) fun _ => pure _

theorem stepNode (x : Token) (step : Step) (overflow : Overflow) (fixity : Fixity)
    (operand : Expr) : c.Blind (Parser.stepNode x step overflow fixity operand) := by
  apply bind (checkTarget operand)
  intro _
  apply bind (locate x)
  intro _
  exact pure _

/-- The parsers of expressions are blind with some fuel. -/
structure Expressions (c : Cut) (fuel : Nat) : Prop where
  expression : c.Blind (expressionWithin fuel)
  climb : ∀ least lhs, c.Blind (climbWithin fuel least lhs)
  unary : c.Blind (unaryWithin fuel)
  primary : c.Blind (primaryWithin fuel)
  arguments : c.Blind (argumentsWithin fuel)
  expressions : c.Blind (expressionsWithin fuel)

namespace Expressions

variable {fuel : Nat} (ih : Expressions c fuel)
include ih

theorem extendOperand (op : BinaryOp) (operand : Expr) :
    c.Blind (Parser.extendOperand (climbWithin fuel) op operand) := by
  intro s t h
  rw [Parser.extendOperand, current_bind, current_bind]
  rcases h.current with heq | ⟨hs, ht⟩
  · rw [heq]
    cases absorbedLevel? op s.current.kind with
    | none => exact pure operand h
    | some level => exact ih.climb level operand h
  · rw [hs, ht]
    exact pure operand h

theorem climb_succ (least : Nat) (lhs : Expr) : c.Blind (climbWithin (fuel + 1) least lhs) := by
  intro s t h
  rw [climbWithin, current_bind, current_bind]
  rcases h.current with heq | ⟨hs, ht⟩
  · rw [heq]
    generalize hk : s.current.kind = k
    have hadvance (hne : endsBlock k = false) := h.advance (hk ▸ hne)
    split
    · split
      · exact pure lhs h
      · exact bind (stepNode _ _ _ _ lhs) (fun node => ih.climb least node) (hadvance rfl)
    · split
      · exact pure lhs h
      · refine bind ih.unary (fun operand => ?_) (hadvance rfl)
        refine bind (ih.extendOperand _ operand) fun rhs => ?_
        refine bind (onlyIf _ (checkTarget lhs)) ?_
        intro _
        refine bind (locate _) ?_
        intro loc
        exact ih.climb least _
    · exact pure lhs h
  · -- at the cut both runs see a token that is no operator
    rw [hs, ht]
    exact pure lhs h

theorem unary_succ : c.Blind (unaryWithin (fuel + 1)) := by
  intro s t h
  rw [unaryWithin, current_bind, current_bind]
  rcases h.current with heq | ⟨hs, ht⟩
  · rw [heq]
    generalize hop : unaryOp? s.current.kind = unary?
    split
    · refine bind ih.unary (fun operand => ?_) (h.advance (not_endsBlock_of_unaryOp? hop))
      exact bind (locate _) fun _ => pure _
    · generalize hk : s.current.kind = k
      split
      · refine bind ih.primary (fun operand => stepNode _ _ _ _ operand) (h.advance ?_)
        rw [hk]
        rfl
      · exact ih.primary h
  · rw [hs, ht]
    exact ih.primary h

theorem primary_succ : c.Blind (primaryWithin (fuel + 1)) := by
  intro s t h
  rw [primaryWithin, current_bind, current_bind]
  rcases h.current with heq | ⟨hs, -⟩
  -- no operand starts with a closing brace, so at the cut the first run fails
  case inr =>
    rw [hs]
    exact .failExpecting .expression
  rw [heq]
  generalize hk : s.current.kind = k
  have hadvance (hne : endsBlock k = false) := h.advance (hk ▸ hne)
  have hliteral (e : Location → Expr) : c.Blind (do return e (← Parser.locate s.current)) :=
    bind (locate _) fun _ => pure _
  split
  · exact numberLiteral _ (hadvance rfl)
  · exact hliteral _ (hadvance rfl)
  · exact hliteral _ (hadvance rfl)
  · exact hliteral _ (hadvance rfl)
  · exact charLiteral _ (hadvance rfl)
  · -- a name is a call if a parenthesis stands behind it, which the two runs agree on
    have h1 := hadvance rfl
    have hlookahead := h.lookahead (by rw [hk]; rfl)
    rw [lookahead_bind, lookahead_bind]
    by_cases hparen : s.lookahead.kind = .mark .leftParen
    · have hsame : t.lookahead = s.lookahead := by
        refine hlookahead.resolve_right ?_
        rintro ⟨hbrace, -⟩
        rw [hparen] at hbrace
        cases hbrace
      have hnext : s.advance.current.kind = .mark .leftParen := by
        rw [State.advance_current (by rw [hparen]; simp), hparen]
      rw [hsame, if_pos hparen]
      refine bind ih.arguments (fun args => ?_) (h1.advance (by rw [hnext]; rfl))
      refine bind (expect rfl _) ?_
      intro _
      refine bind (locate _) ?_
      intro _
      exact pure _
    · have hparen' : t.lookahead.kind ≠ .mark .leftParen := by
        rcases hlookahead with hsame | ⟨-, hend⟩
        · rwa [hsame]
        · rw [hend]
          simp
      rw [if_neg hparen, if_neg hparen']
      refine complainIf rfl s.current (fun u => !u.scopes.isVisible s.current.lexeme)
        (fun _ => hliteral _) (fun hfits => ?_) h1
      rw [hfits.scopes]
  · refine bind ih.expression ?_ (hadvance rfl)
    intro e
    refine bind (expect rfl _) ?_
    intro _
    exact pure e
  · exact failExpecting _ h

theorem arguments_succ : c.Blind (argumentsWithin (fuel + 1)) := by
  intro s t h
  rw [argumentsWithin, current_bind, current_bind]
  rcases h.current with heq | ⟨hs, ht⟩
  · rw [heq]
    split
    · exact pure [] h
    · exact ih.expressions h
  · rw [hs, ht]
    exact ih.expressions h

theorem expressions_succ : c.Blind (expressionsWithin (fuel + 1)) := by
  rw [expressionsWithin]
  apply bind ih.expression
  intro e
  refine bind (accept rfl) ?_
  intro b
  split
  · exact bind ih.expressions fun _ => pure _
  · exact pure _

end Expressions

theorem expressionParsers (c : Cut) (fuel : Nat) : Expressions c fuel := by
  induction fuel with
  | zero => exact ⟨failExpecting _, fun _ _ => failExpecting _, failExpecting _, failExpecting _,
      failExpecting _, failExpecting _⟩
  | succ fuel ih =>
      refine ⟨?_, ih.climb_succ, ih.unary_succ, ih.primary_succ, ih.arguments_succ,
        ih.expressions_succ⟩
      rw [expressionWithin]
      exact bind ih.unary fun lhs => ih.climb 0 lhs

/-- The fuel of the first run is enough for the second one. -/
theorem expression : c.Blind Parser.expression := by
  intro s t h
  rw [← expressionWithin_eq h.right (expressionFuel_mono h.length_le)]
  exact (expressionParsers c _).expression h

theorem expressions : c.Blind Parser.expressions := by
  intro s t h
  rw [← expressionsWithin_eq h.right (expressionFuel_mono h.length_le)]
  exact (expressionParsers c _).expressions h

/-! ## Types and the heads of functions

Lists of types and of parameters are read with the number of unread tokens as their fuel. The second
run has fewer of these, but never too few: with enough fuel more of it makes no difference. -/

theorem typeExpr (place : Place) : c.Blind (Parser.typeExpr place) := by
  intro s t h
  rw [Parser.typeExpr, current_bind, current_bind]
  rcases h.current with heq | ⟨hs, -⟩
  case inr =>
    rw [hs]
    exact .failExpecting _
  rw [heq]
  generalize hk : s.current.kind = k
  have hadvance (hne : endsBlock k = false) := h.advance (hk ▸ hne)
  have htype (e : Location → TypeExpr) : c.Blind (do return e (← Parser.locate s.current)) :=
    bind (locate _) fun _ => pure _
  split
  · exact htype _ (hadvance rfl)
  · exact htype _ (hadvance rfl)
  · exact htype _ (hadvance rfl)
  · exact failExpecting _ h

theorem furtherTypes (fuel : Nat) : c.Blind (Parser.furtherTypes fuel) := by
  induction fuel with
  | zero => exact pure _
  | succ fuel ih =>
      rw [Parser.furtherTypes]
      refine bind (accept rfl) fun b => ?_
      split
      · refine bind (typeExpr _) ?_
        intro _
        apply bind ih
        intro _
        exact pure _
      · exact pure _

theorem declare (symbol : Symbol) (x : Token) : c.Blind (Parser.declare symbol x) :=
  update (.declare symbol x)

theorem declareFunction (name : Token) (isExtern : Bool) :
    c.Blind (Parser.declareFunction name isExtern) := by
  refine bind (update ⟨fun s unread finish => ?_, fun s => ?_⟩) fun _ =>
    bind (locate name) fun _ => declare _ name
  · rw [State.withTokens_scopes]
    dsimp only
    split <;> rfl
  · dsimp only
    split
    · exact .of_findings rfl rfl
    · exact .of_findings rfl rfl

theorem param (before : List Param) : c.Blind (Parser.param before) := by
  refine bind (expect rfl _) ?_
  intro name
  refine bind (onlyIf _ (complain rfl name)) ?_
  intro _
  refine bind (expect rfl _) ?_
  intro _
  refine bind (typeExpr _) ?_
  intro type
  refine bind (onlyIf _ (complain rfl name)) ?_
  intro _
  apply bind (locate name)
  intro _
  exact pure _

theorem paramsFrom (fuel : Nat) (before : List Param) :
    c.Blind (Parser.paramsFrom fuel before) := by
  induction fuel generalizing before with
  | zero => exact pure _
  | succ fuel ih =>
      rw [Parser.paramsFrom]
      apply bind (param before)
      intro p
      refine bind (accept rfl) ?_
      intro b
      split
      · exact ih _
      · exact pure _

theorem params : c.Blind Parser.params := by
  intro s t h
  have ht := paramsFrom_eq h.right [] (Nat.lt_succ_of_le h.length_le)
  rw [Parser.params, get_bind, get_bind]
  rcases h.current with heq | ⟨hs, hend⟩
  · rw [heq]
    split
    · exact pure [] h
    · rw [← ht]
      exact paramsFrom _ [] h
  · rw [hs, hend]
    rw [if_neg (by simp), if_neg (by simp), ← ht]
    exact paramsFrom _ [] h

/-- Behind a colon the return types are read. Without a colon the place of the token that follows is
used, so for an extern function this must not be the first brace that is cut off. -/
theorem returnTypes {isExtern : Bool} {P : State → Prop}
    (hP : ∀ s, P s → isExtern = true → s.NoBrace) (h : c.Fits s t) :
    Repeats P c.Fits (Parser.returnTypes isExtern s) (Parser.returnTypes isExtern t) := by
  refine .bind (accept rfl h) fun written s t h => ?_
  cases written with
  | true =>
      refine .bind (typeExpr _ h) fun type s t h => ?_
      have ht := furtherTypes_eq h.right h.length_le
      rw [get_bind, get_bind]
      exact .mono (.map (ht ▸ furtherTypes _ h)) (fun _ _ => trivial) fun _ _ h => h
  | false =>
      -- no type is written, and the token that lends its place is the same in both runs by `hP`
      intro types s' hok hs'
      rw [if_neg (by simp), current_bind] at hok ⊢
      split at hok
      case isFalse => exact absurd hok failExpecting_ne_ok
      next hvoid =>
      rw [locate_bind] at hok
      obtain ⟨rfl, rfl⟩ := pure_eq_ok.mp hok
      have hcurrent : t.current = s'.current := by
        refine h.current.resolve_right fun ⟨hbrace, _⟩ => ?_
        exact hP s' hs' (hvoid.resolve_right (by rw [hbrace]; simp)) hbrace
      rw [hcurrent, if_pos hvoid, locate_bind, h.locate]
      exact ⟨t, rfl, h⟩

/-- The head of a function, whose keyword is the current token. -/
theorem prototype {isExtern : Bool} {P : State → Prop}
    (hP : ∀ s, P s → isExtern = true → s.NoBrace) (h : c.Fits s t)
    (hk : endsBlock s.current.kind = false) :
    Repeats P c.Fits (Parser.prototype isExtern s) (Parser.prototype isExtern t) := by
  rw [Parser.prototype, take_bind, take_bind, h.current_eq hk]
  refine .bind (expect rfl _ (h.advance hk)) fun name s t h => ?_
  refine .bind (declareFunction name isExtern h) fun _ s t h => ?_
  refine .bind (expect rfl _ h) ?_
  intro _ s t h
  refine .bind (params h) ?_
  intro ps s t h
  refine .bind (expect rfl _ h) fun _ s t h => .tail (returnTypes hP h) (fun hok hs' => ?_) ?_
  · cases hok
    exact hs'
  · intro types s t h
    exact .mono (.map (locate name h)) (fun _ _ => trivial) fun _ _ h => h

/-! ## The parts of statements

Bindings and returns end with a semicolon that may be missing, so the first run may well stop in front
of a closing brace here, and the second one stops in front of the end. Blocks are not among these
parts: they are closed by the very braces that are cut off. -/

theorem finishBinding (name : Token) (type : Option TypeExpr) (init : Option Expr)
    (mutability : Mutability) : c.Blind (Parser.finishBinding name type init mutability) := by
  apply bind (locate name)
  intro _
  refine bind (declare _ name) ?_
  intro _
  exact pure _

theorem optionalType : c.Blind Parser.optionalType := by
  refine bind (accept rfl) fun b => ?_
  split
  · exact bind (typeExpr _) fun _ => pure _
  · exact pure _

theorem optionalInit : c.Blind Parser.optionalInit := by
  refine bind (accept rfl) fun b => ?_
  split
  · exact bind expression fun _ => pure _
  · exact pure _

theorem keywordBinding (h : c.Fits s t) (hk : endsBlock s.current.kind = false) :
    c.Goes (Parser.keywordBinding s) (Parser.keywordBinding t) := by
  rw [Parser.keywordBinding, take_bind, take_bind, h.current_eq hk]
  refine bind (expect rfl _) ?_ (h.advance hk)
  intro name
  apply bind optionalType
  intro type
  apply bind optionalInit
  intro init
  refine bind (accept rfl) ?_
  intro _
  exact bind (onlyIf _ (complain rfl name)) fun _ => finishBinding name type init _

theorem returnValues : c.Blind Parser.returnValues := by
  intro s t h
  rw [Parser.returnValues, current_bind, current_bind]
  rcases h.current with heq | ⟨hs, ht⟩
  · rw [heq]
    split
    · exact pure [] h
    · exact expressions h
  · rw [hs, ht]
    exact pure [] h

theorem returnStatement (h : c.Fits s t) (hk : endsBlock s.current.kind = false) :
    c.Goes (Parser.returnStatement s) (Parser.returnStatement t) := by
  rw [Parser.returnStatement, take_bind, take_bind, h.current_eq hk]
  refine complainIf rfl s.current (fun u => !u.inFunction) (fun _ => ?_)
    (fun hfits => by rw [hfits.inFunction]) (h.advance hk)
  apply bind returnValues
  intro _
  refine bind (accept rfl) ?_
  intro _
  refine bind (locate _) ?_
  intro _
  exact pure _

/-- A binding behind its name and the sign. -/
theorem define (name : Token) (mutability : Mutability) : c.Blind (do
    let node ← Parser.finishBinding name none (some (← Parser.expression)) mutability
    let _ ← Parser.accept (.mark .semicolon)
    return node) := by
  apply bind expression
  intro _
  refine bind (finishBinding name none _ mutability) ?_
  intro _
  refine bind (accept rfl) ?_
  intro _
  exact pure _

/-- A binding behind its name and the colon. -/
theorem typed (name : Token) : c.Blind (do
    let type ← Parser.typeExpr (.behind (.mark .colon))
    let init ← Parser.optionalInit
    let node ← Parser.finishBinding name (some type) init .mutable
    let _ ← Parser.accept (.mark .semicolon)
    return node) := by
  refine bind (typeExpr _) ?_
  intro type
  apply bind optionalInit
  intro init
  refine bind (finishBinding name (some type) init .mutable) ?_
  intro _
  refine bind (accept rfl) ?_
  intro _
  exact pure _

end Blind

end Cut

end FrontEnd.Grammar
