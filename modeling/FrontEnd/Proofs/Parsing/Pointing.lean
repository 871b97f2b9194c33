import FrontEnd.Proofs.Parsing.Regular
import FrontEnd.Proofs.Token.Stream

set_option autoImplicit false

/-! # What a finding is about

Whatever is found in a file is found at one of its tokens, and takes no more columns than the token
does (`Buffer.Marks`). Most findings are made at a token that the parser has before it. Those about
assignments are made at an expression that was read before, so every expression, too, stands at a
token of the file (`Expr.From`).

`Points b p Q` says that the parser `p` makes such findings only, and yields a value with the property
`Q`.

What the parser finds it puts into its state or fails with, and both have to be followed. The first
is part of `State.From`, which every change of the state keeps. The second is the other half of
`Points`, and comes in again where failures are reported: behind a statement and behind a
declaration (`State.From.recover`).
-/

namespace FrontEnd

open Grammar

variable {b : Buffer} {α β : Type}

/-- The tokens of a buffer, the end of the file last. -/
def Buffer.allTokens (b : Buffer) : List Token := (Stream.ofText b.chars).all

/-- From this place of a buffer on, `length` columns belong to a token. This is what the marks of a
diagnostic should stand below. -/
def Buffer.Marks (b : Buffer) (loc : Location) (length : Nat) : Prop :=
  ∃ t ∈ b.allTokens, loc = ⟨b.name, t.position⟩ ∧ 1 ≤ length ∧ length ≤ t.width

theorem Buffer.marks_width {t : Token} (ht : t ∈ b.allTokens) :
    b.Marks ⟨b.name, t.position⟩ t.width :=
  ⟨t, ht, rfl, t.one_le_width, Nat.le_refl _⟩

theorem Buffer.marks_one {t : Token} (ht : t ∈ b.allTokens) : b.Marks ⟨b.name, t.position⟩ 1 :=
  ⟨t, ht, rfl, Nat.le_refl _, t.one_le_width⟩

/-- An identifier is as long as its name. -/
theorem Buffer.marks_lexeme {t : Token} (ht : t ∈ b.allTokens) (hk : t.kind = .identifier) :
    b.Marks ⟨b.name, t.position⟩ t.lexeme.length := by
  have hinner : t ∈ (Stream.ofText b.chars).tokens := by
    rcases List.mem_append.mp ht with ht | ht
    · exact ht
    · have hend : (Stream.ofText b.chars).finish.kind = .endOfFile := Stream.upTo_finish _ _
      rw [← List.mem_singleton.mp ht, hk] at hend
      cases hend
  have hwidth := Stream.width_eq hinner (by rw [hk]; rfl)
  rw [← hwidth]
  exact marks_width ht

/-- The number of columns that a finding about an expression takes: those of a name, and one for
everything else. An expression keeps the place of its first or its outermost token only, and of
those tokens a name is the only one whose length it knows. -/
def Expr.extent : Expr → Nat
  | .ident name _ => name.length
  | _ => 1

/-- An expression was read from the tokens of a buffer. -/
def Expr.From (b : Buffer) (e : Expr) : Prop := b.Marks e.loc e.extent

namespace Grammar

/-- What the parser has before it, and what it has found, is taken from the buffer. This is the
invariant of the module: it holds of the first state, and every parser keeps it. -/
structure State.From (b : Buffer) (s : State) : Prop where
  file : s.file = b.name
  unread : ∀ t ∈ s.unread, t ∈ b.allTokens
  finish : s.finish ∈ b.allTokens
  findings : ∀ f ∈ s.findings, b.Marks f.location f.length

namespace State.From

variable {s s' : State} {t : Token}

theorem current (h : s.From b) : s.current ∈ b.allTokens := by
  unfold State.current
  cases hunread : s.unread with
  | nil => exact h.finish
  | cons t rest => exact h.unread t (by rw [hunread]; exact List.mem_cons_self)

theorem locate (h : s.From b) (t : Token) : s.locate t = ⟨b.name, t.position⟩ := by
  rw [State.locate, h.file]

theorem finding (h : s.From b) (issue : Issue) (ht : t ∈ b.allTokens) :
    b.Marks (s.finding issue t).location (s.finding issue t).length := by
  show b.Marks (s.locate t) t.width
  rw [h.locate]
  exact Buffer.marks_width ht

/-- Nothing but scopes, counters and flags has changed. -/
theorem same (h : s.From b) (hfile : s'.file = s.file) (hunread : s'.unread = s.unread)
    (hfinish : s'.finish = s.finish) (hfindings : s'.findings = s.findings) : s'.From b where
  file := hfile.trans h.file
  unread := hunread ▸ h.unread
  finish := hfinish ▸ h.finish
  findings := hfindings ▸ h.findings

/-- Tokens were skipped. -/
theorem skip {rest : List Token} (h : s.From b) (hrest : rest <:+ s.unread) :
    State.From b { s with unread := rest } :=
  ⟨h.file, fun t ht => h.unread t (hrest.subset ht), h.finish, h.findings⟩

theorem report (h : s.From b) {f : Finding} (hf : b.Marks f.location f.length) :
    (s.report f).From b where
  file := (s.report_file f).trans h.file
  unread := by
    rw [s.report_unread]
    exact h.unread
  finish := by
    rw [s.report_finish]
    exact h.finish
  findings := by
    rw [s.report_findings]
    intro g hg
    split at hg
    · exact h.findings g hg
    · rcases List.mem_append.mp hg with hg | hg
      · exact h.findings g hg
      · rw [List.mem_singleton.mp hg]
        exact hf

theorem enterPanic (h : s.From b) : s.enterPanic.From b := h.same rfl rfl rfl rfl

theorem exitPanic (h : s.From b) : s.exitPanic.From b := h.same rfl rfl rfl rfl

/-- Invalid tokens in front are reported. Each is reported at itself. -/
theorem settle {tokens : List Token} (h : s.From b) (htokens : ∀ t ∈ tokens, t ∈ b.allTokens) :
    (s.settle tokens).From b := by
  induction tokens generalizing s with
  | nil => exact ⟨h.file, htokens, h.finish, h.findings⟩
  | cons t rest ih =>
      have ht := htokens t List.mem_cons_self
      rw [State.settle]
      split
      · exact ih (h.report (h.finding _ ht)).enterPanic
          fun x hx => htokens x (List.mem_cons_of_mem t hx)
      · exact ⟨h.file, htokens, h.finish, h.findings⟩

theorem advance (h : s.From b) : s.advance.From b :=
  h.settle fun t ht => h.unread t (List.mem_of_mem_tail ht)

/-- Going on behind a failure reports it and skips tokens. Nothing that is skipped is reported, but
for the invalid tokens behind it. -/
theorem recover (h : s.From b) {failure : Finding} (hf : b.Marks failure.location failure.length)
    (before : Nat) : (s.recover failure before).From b := by
  have hunread : (s.report failure).enterPanic.unread = s.unread := s.report_unread failure
  refine (h.report hf).enterPanic.skip ?_
  rw [hunread]
  split
  · exact Regular.skipStatement_suffix _
  · exact Regular.synchronize_suffix _ _

theorem closeBlock (h : s.From b) : s.closeBlock.From b := by
  have hexit := h.exitPanic
  rw [State.closeBlock]
  dsimp only
  split
  · exact hexit.advance
  · exact (hexit.report (hexit.finding _ hexit.current)).enterPanic

end State.From

/-! ## Parsers

There is one lemma for each parser, with the shape of the parser: `bind` where it goes on with
another one, `ite` and `split` where it looks at the current token. That the token it looks at
belongs to the buffer is what `current` and `take` give. -/

/-- A parser that finds something only at the tokens of a buffer, and yields values with the
property `Q`. -/
structure Points (b : Buffer) (p : Parser α) (Q : α → Prop) : Prop where
  ok : ∀ {s a s'}, s.From b → p s = .ok a s' → s'.From b ∧ Q a
  error : ∀ {s f s'}, s.From b → p s = .error f s' → s'.From b ∧ b.Marks f.location f.length

namespace Points

variable {p : Parser α} {Q : α → Prop} {R : β → Prop}

/-- A parser that never fails. -/
theorem of_state {f : State → State} {a : State → α} (hp : ∀ s, p s = .ok (a s) (f s))
    (hf : ∀ s, s.From b → (f s).From b) (ha : ∀ s, s.From b → Q (a s)) : Points b p Q where
  ok {s c s'} hs h := by
    rw [hp] at h
    cases h
    exact ⟨hf s hs, ha s hs⟩
  error {s g s'} _ h := by
    rw [hp] at h
    cases h

/-- Less may be said of the value. -/
theorem weaken {Q' : α → Prop} (h : Points b p Q) (himp : ∀ a, Q a → Q' a) : Points b p Q' where
  ok hs hp := ⟨(h.ok hs hp).1, himp _ (h.ok hs hp).2⟩
  error hs hp := h.error hs hp

theorem pure {a : α} (h : Q a) : Points b (Pure.pure a : Parser α) Q :=
  of_state (fun _ => rfl) (fun _ hs => hs) fun _ _ => h

theorem bind {q : α → Parser β} (hp : Points b p Q) (hq : ∀ a, Q a → Points b (q a) R) :
    Points b (p >>= q) R where
  ok hs h := by
    obtain ⟨a, s', h, h'⟩ := Parser.bind_eq_ok.mp h
    obtain ⟨hs', ha⟩ := hp.ok hs h
    exact (hq a ha).ok hs' h'
  error hs h := by
    rcases Parser.bind_eq_error.mp h with h | ⟨a, s', h, h'⟩
    · exact hp.error hs h
    · obtain ⟨hs', ha⟩ := hp.ok hs h
      exact (hq a ha).error hs' h'

theorem ite {c : Prop} [Decidable c] {q : Parser α} (hp : Points b p Q) (hq : Points b q Q) :
    Points b (if c then p else q) Q := by
  split
  · exact hp
  · exact hq

theorem update {f : State → State} (hf : ∀ s, s.From b → (f s).From b) :
    Points b (Parser.update f) fun _ => True :=
  of_state (fun _ => rfl) hf fun _ _ => trivial

theorem onlyIf (condition : Bool) {p : Parser Unit} (hp : Points b p fun _ => True) :
    Points b (Parser.onlyIf condition p) fun _ => True := ite hp (pure trivial)

theorem get : Points b (get : Parser State) (State.From b) :=
  of_state (fun _ => rfl) (fun _ hs => hs) fun _ hs => hs

theorem current : Points b Parser.current (· ∈ b.allTokens) :=
  of_state (fun _ => rfl) (fun _ hs => hs) fun _ hs => hs.current

theorem lookahead : Points b Parser.lookahead fun _ => True :=
  of_state (fun _ => rfl) (fun _ hs => hs) fun _ _ => trivial

theorem locate (t : Token) : Points b (Parser.locate t) (· = ⟨b.name, t.position⟩) :=
  of_state (fun _ => rfl) (fun _ hs => hs) fun _ hs => hs.locate t

theorem advance : Points b Parser.advance fun _ => True := update fun _ hs => hs.advance

theorem take : Points b Parser.take (· ∈ b.allTokens) := by
  apply bind current
  intro _ ht
  apply bind advance
  intro _ _
  exact pure ht

theorem complain {t : Token} (issue : Issue) (ht : t ∈ b.allTokens) :
    Points b (Parser.complain issue t) fun _ => True :=
  update fun _ hs => hs.report (hs.finding issue ht)

theorem fail (issue : Issue) : Points b (Parser.fail issue : Parser α) Q where
  ok _ h := absurd h Parser.fail_ne_ok
  error hs h := by
    cases h
    exact ⟨hs, hs.finding issue hs.current⟩

theorem failExpecting (what : Expectation) : Points b (Parser.failExpecting what : Parser α) Q :=
  bind current fun _ _ => fail _

theorem accept (kind : Kind) : Points b (Parser.accept kind) fun _ => True :=
  bind current fun _ _ => ite (bind advance fun _ _ => pure trivial) (pure trivial)

theorem expect (kind : Kind) (place : Place) :
    Points b (Parser.expect kind place) (· ∈ b.allTokens) :=
  bind current fun _ ht => ite (bind advance fun _ _ => pure ht) (failExpecting _)

/-! ## Expressions

What is read of an expression has the property `Expr.From`, as the target of an assignment is
looked at again when the assignment is read: by then its tokens are gone. -/

/-- An expression that is no name stands at its token. -/
theorem located {t : Token} (ht : t ∈ b.allTokens) (e : Location → Expr)
    (hloc : ∀ loc, (e loc).loc = loc) (hextent : ∀ loc, (e loc).extent = 1) :
    Points b (do return e (← Parser.locate t)) (Expr.From b) := by
  refine bind (locate t) fun loc hat => pure ?_
  rw [Expr.From, hloc, hextent, hat]
  exact Buffer.marks_one ht

theorem numberLiteral {t : Token} (ht : t ∈ b.allTokens) :
    Points b (Parser.numberLiteral t) (Expr.From b) := by
  refine bind (locate t) fun loc hat => ?_
  subst hat
  split
  · exact pure (Buffer.marks_one ht)
  · exact pure (Buffer.marks_one ht)
  · exact bind (complain _ ht) fun _ _ => pure (Buffer.marks_one ht)

theorem charLiteral {t : Token} (ht : t ∈ b.allTokens) :
    Points b (Parser.charLiteral t) (Expr.From b) := by
  refine bind (locate t) fun loc hat => ?_
  subst hat
  split
  · exact pure (Buffer.marks_one ht)
  · exact bind (complain _ ht) fun _ _ => pure (Buffer.marks_one ht)

/-- What is found about an assignment is found at its target. A name takes the columns of the name,
and what is no name takes one column. -/
theorem checkTarget {target : Expr} (htarget : target.From b) :
    Points b (Parser.checkTarget target) fun _ => True := by
  refine update fun s hs => ?_
  split
  · split
    · exact hs
    · split
      · exact hs.report htarget
      · exact hs.same rfl rfl rfl rfl
  · -- The target is no name, so what is found about it takes one column.
    next hname =>
    refine hs.report ?_
    have hextent : target.extent = 1 := by
      cases target with
      | ident name loc => exact (hname name loc rfl).elim
      | _ => rfl
    rw [Expr.From, hextent] at htarget
    exact htarget

theorem stepNode {t : Token} (ht : t ∈ b.allTokens) (step : Step) (overflow : Overflow)
    (fixity : Fixity) {operand : Expr} (hoperand : operand.From b) :
    Points b (Parser.stepNode t step overflow fixity operand) (Expr.From b) := by
  apply bind (checkTarget hoperand)
  intro _ _
  refine located ht _ (fun _ => rfl) ?_
  intro _
  rfl

theorem extendOperand {climb : Nat → Expr → Parser Expr}
    (hclimb : ∀ least lhs, lhs.From b → Points b (climb least lhs) (Expr.From b)) (op : BinaryOp)
    {operand : Expr} (hoperand : operand.From b) :
    Points b (Parser.extendOperand climb op operand) (Expr.From b) := by
  refine bind current fun t _ => ?_
  split
  · exact hclimb _ _ hoperand
  · exact pure hoperand

/-- What the parsers of expressions find and yield with some fuel. Of arguments it does not matter
where they stand, as nothing is assigned to them. -/
structure Expressions (b : Buffer) (fuel : Nat) : Prop where
  expression : Points b (Parser.expressionWithin fuel) (Expr.From b)
  climb : ∀ least lhs, lhs.From b → Points b (Parser.climbWithin fuel least lhs) (Expr.From b)
  unary : Points b (Parser.unaryWithin fuel) (Expr.From b)
  primary : Points b (Parser.primaryWithin fuel) (Expr.From b)
  arguments : Points b (Parser.argumentsWithin fuel) fun _ => True
  expressions : Points b (Parser.expressionsWithin fuel) fun _ => True

namespace Expressions

variable {fuel : Nat}

theorem zero : Expressions b 0 where
  expression := failExpecting _
  climb _ _ _ := failExpecting _
  unary := failExpecting _
  primary := failExpecting _
  arguments := failExpecting _
  expressions := failExpecting _

variable (ih : Expressions b fuel)
include ih

theorem climb_succ (least : Nat) {lhs : Expr} (hlhs : lhs.From b) :
    Points b (Parser.climbWithin (fuel + 1) least lhs) (Expr.From b) := by
  rw [Parser.climbWithin]
  refine bind current fun t ht => ?_
  split
  · refine ite (pure hlhs) (bind advance fun _ _ => ?_)
    exact bind (stepNode ht _ _ _ hlhs) fun node hnode => ih.climb _ _ hnode
  · next op _ =>
    refine ite (pure hlhs) (bind advance fun _ _ => bind ih.unary fun operand hoperand => ?_)
    refine bind (extendOperand ih.climb op hoperand) fun rhs _ => ?_
    refine bind (onlyIf _ (checkTarget hlhs)) ?_
    intro _ _
    apply bind (locate t)
    intro loc hat
    subst hat
    exact ih.climb _ _ (Buffer.marks_one ht)
  · exact pure hlhs

theorem unary_succ : Points b (Parser.unaryWithin (fuel + 1)) (Expr.From b) := by
  rw [Parser.unaryWithin]
  refine bind current fun t ht => ?_
  split
  · apply bind advance
    intro _ _
    apply bind ih.unary
    intro operand _
    refine located ht _ (fun _ => rfl) ?_
    intro _
    rfl
  · split
    · apply bind advance
      intro _ _
      apply bind ih.primary
      intro operand hoperand
      exact stepNode ht _ _ _ hoperand
    · exact ih.primary

theorem primary_succ : Points b (Parser.primaryWithin (fuel + 1)) (Expr.From b) := by
  rw [Parser.primaryWithin]
  refine bind current fun t ht => ?_
  split
  · exact bind advance fun _ _ => numberLiteral ht
  · exact bind advance fun _ _ => located ht _ (fun _ => rfl) fun _ => rfl
  · exact bind advance fun _ _ => located ht _ (fun _ => rfl) fun _ => rfl
  · exact bind advance fun _ _ => located ht _ (fun _ => rfl) fun _ => rfl
  · exact bind advance fun _ _ => charLiteral ht
  · next hkind =>
    refine bind lookahead fun next _ => ite ?_ ?_
    · apply bind advance
      intro _ _
      apply bind advance
      intro _ _
      apply bind ih.arguments
      intro args _
      refine bind (expect ..) ?_
      intro _ _
      refine located ht _ (fun _ => rfl) ?_
      intro _
      rfl
    · apply bind advance
      intro _ _
      apply bind get
      intro _ _
      refine bind (onlyIf _ (complain _ ht)) ?_
      intro _ _
      apply bind (locate t)
      intro loc hat
      -- a finding about the name takes as many columns as the token of the name
      subst hat
      exact pure (Buffer.marks_lexeme ht hkind)
  · apply bind advance
    intro _ _
    apply bind ih.expression
    intro e he
    refine bind (expect ..) ?_
    intro _ _
    exact pure he
  · exact failExpecting _

theorem succ : Expressions b (fuel + 1) where
  expression := by
    rw [Parser.expressionWithin]
    exact bind ih.unary fun lhs hlhs => ih.climb 0 lhs hlhs
  climb least _ hlhs := ih.climb_succ least hlhs
  unary := ih.unary_succ
  primary := ih.primary_succ
  arguments := by
    rw [Parser.argumentsWithin]
    exact bind current fun _ _ => ite (pure trivial) ih.expressions
  expressions := by
    rw [Parser.expressionsWithin]
    apply bind ih.expression
    intro _ _
    refine bind (accept _) ?_
    intro _ _
    exact ite (bind ih.expressions fun _ _ => pure trivial) (pure trivial)

end Expressions

theorem expressionParsers (b : Buffer) (fuel : Nat) : Expressions b fuel := by
  induction fuel with
  | zero => exact .zero
  | succ fuel ih => exact ih.succ

theorem expression : Points b Parser.expression fun _ => True := by
  apply bind get
  intro _ _
  refine (expressionParsers b _).expression.weaken ?_
  intro _ _
  exact trivial

theorem expressions : Points b Parser.expressions fun _ => True :=
  bind get fun _ _ => (expressionParsers b _).expressions

/-! ## Types and the heads of functions

From here on no value matters, and `Q` is trivial. What may be found are failures at the current
token, and names that are declared twice, each found at the token of the name. -/

theorem typeExpr (place : Place) : Points b (Parser.typeExpr place) fun _ => True := by
  refine bind current fun t _ => ?_
  split
  · apply bind advance
    intro _ _
    apply bind (locate t)
    intro _ _
    exact pure trivial
  · apply bind advance
    intro _ _
    apply bind (locate t)
    intro _ _
    exact pure trivial
  · apply bind advance
    intro _ _
    apply bind (locate t)
    intro _ _
    exact pure trivial
  · exact failExpecting _

theorem furtherTypes (fuel : Nat) : Points b (Parser.furtherTypes fuel) fun _ => True := by
  induction fuel with
  | zero => exact pure trivial
  | succ fuel ih =>
      refine bind (accept _) ?_
      intro _ _
      refine ite ?_ (pure trivial)
      refine bind (typeExpr _) ?_
      intro _ _
      apply bind ih
      intro _ _
      exact pure trivial

theorem declare (symbol : Symbol) {t : Token} (ht : t ∈ b.allTokens) :
    Points b (Parser.declare symbol t) fun _ => True := by
  refine update fun s hs => ?_
  split
  · exact hs.same rfl rfl rfl rfl
  · exact hs.report (hs.finding _ ht)

theorem declareFunction {name : Token} (hname : name ∈ b.allTokens) (isExtern : Bool) :
    Points b (Parser.declareFunction name isExtern) fun _ => True := by
  refine bind (update fun s hs => ?_) fun _ _ => bind (locate name) fun _ _ => declare _ hname
  dsimp only
  split
  · exact hs.same rfl rfl rfl rfl
  · exact hs

theorem param (before : List Param) : Points b (Parser.param before) fun _ => True := by
  refine bind (expect ..) ?_
  intro name hname
  refine bind (onlyIf _ (complain _ hname)) ?_
  intro _ _
  refine bind (expect ..) ?_
  intro _ _
  refine bind (typeExpr _) ?_
  intro _ _
  refine bind (onlyIf _ (complain _ hname)) ?_
  intro _ _
  apply bind (locate name)
  intro _ _
  exact pure trivial

theorem paramsFrom (fuel : Nat) (before : List Param) :
    Points b (Parser.paramsFrom fuel before) fun _ => True := by
  induction fuel generalizing before with
  | zero => exact pure trivial
  | succ fuel ih =>
      apply bind (param before)
      intro _ _
      refine bind (accept _) ?_
      intro _ _
      exact ite (ih _) (pure trivial)

theorem params : Points b Parser.params fun _ => True :=
  bind get fun _ _ => ite (pure trivial) (paramsFrom ..)

theorem returnTypes (isExtern : Bool) : Points b (Parser.returnTypes isExtern) fun _ => True := by
  refine bind (accept _) fun _ _ => ite ?_ ?_
  · refine bind (typeExpr _) ?_
    intro _ _
    apply bind get
    intro _ _
    refine bind (furtherTypes _) ?_
    intro _ _
    exact pure trivial
  · exact bind current fun t _ =>
      ite (bind (locate t) fun _ _ => pure trivial) (failExpecting _)

theorem prototype (isExtern : Bool) : Points b (Parser.prototype isExtern) fun _ => True := by
  apply bind take
  intro _ _
  refine bind (expect ..) ?_
  intro name hname
  refine bind (declareFunction hname _) ?_
  intro _ _
  refine bind (expect ..) ?_
  intro _ _
  apply bind params
  intro _ _
  refine bind (expect ..) ?_
  intro _ _
  refine bind (returnTypes _) ?_
  intro _ _
  apply bind (locate name)
  intro _ _
  exact pure trivial

/-! ## Statements

What is wrong with the name of a binding is found when the binding has been read, at the token of
the name. The lemmas therefore keep in mind that this token belongs to the buffer. -/

theorem finishBinding {name : Token} (hname : name ∈ b.allTokens) (type : Option TypeExpr)
    (init : Option Expr) (mutability : Mutability) :
    Points b (Parser.finishBinding name type init mutability) fun _ => True := by
  apply bind (locate name)
  intro _ _
  refine bind (declare _ hname) ?_
  intro _ _
  exact pure trivial

theorem optionalType : Points b Parser.optionalType fun _ => True :=
  bind (accept _) fun _ _ => ite (bind (typeExpr _) fun _ _ => pure trivial) (pure trivial)

theorem optionalInit : Points b Parser.optionalInit fun _ => True :=
  bind (accept _) fun _ _ => ite (bind expression fun _ _ => pure trivial) (pure trivial)

theorem keywordBinding : Points b Parser.keywordBinding fun _ => True := by
  apply bind take
  intro _ _
  refine bind (expect ..) ?_
  intro _ hname
  apply bind optionalType
  intro _ _
  apply bind optionalInit
  intro _ _
  refine bind (accept _) ?_
  intro _ _
  refine bind (onlyIf _ (complain _ hname)) ?_
  intro _ _
  exact finishBinding hname ..

/-- Scopes may be opened and closed. -/
theorem setScopes (f : State → ScopeTable) :
    Points b (Parser.update fun s => { s with scopes := f s }) fun _ => True :=
  update fun _ hs => hs.same rfl rfl rfl rfl

variable {inner : Parser (List Statement)}

theorem block (hinner : Points b inner fun _ => True) :
    Points b (Parser.block inner) fun _ => True := by
  refine bind (expect ..) ?_
  intro opening _
  refine bind (setScopes _) ?_
  intro _ _
  apply bind hinner
  intro _ _
  refine bind (setScopes _) ?_
  intro _ _
  apply bind (locate opening)
  intro _ _
  exact pure trivial

theorem namedBlock (hinner : Points b inner fun _ => True) {name : Token}
    (hname : name ∈ b.allTokens) : Points b (Parser.namedBlock inner name) fun _ => True := by
  apply bind get
  intro _ _
  refine bind (onlyIf _ (complain _ hname)) ?_
  intro _ _
  apply bind (block hinner)
  intro _ _
  apply bind (locate name)
  intro _ _
  exact pure trivial

theorem nameBinding (hinner : Points b inner fun _ => True) :
    Points b (Parser.nameBinding inner) fun _ => True := by
  have hdefine {name : Token} (hname : name ∈ b.allTokens) (mutability : Mutability) :
      Points b (do
        let node ← Parser.finishBinding name none (some (← Parser.expression)) mutability
        let _ ← Parser.accept (.mark .semicolon)
        return node) fun _ => True := by
    apply bind expression
    intro _ _
    refine bind (finishBinding hname ..) ?_
    intro _ _
    refine bind (accept _) ?_
    intro _ _
    exact pure trivial
  apply bind take
  intro name hname
  apply bind take
  intro sign _
  split
  · exact hdefine hname _
  · exact hdefine hname _
  · refine bind current fun t _ => ite (namedBlock hinner hname) ?_
    refine bind (typeExpr _) ?_
    intro _ _
    apply bind optionalInit
    intro _ _
    refine bind (finishBinding hname ..) ?_
    intro _ _
    refine bind (accept _) ?_
    intro _ _
    exact pure trivial

theorem returnValues : Points b Parser.returnValues fun _ => True :=
  bind current fun _ _ => ite (pure trivial) expressions

theorem returnStatement : Points b Parser.returnStatement fun _ => True := by
  apply bind take
  intro keyword hkeyword
  apply bind get
  intro _ _
  refine bind (onlyIf _ (complain _ hkeyword)) ?_
  intro _ _
  apply bind returnValues
  intro _ _
  refine bind (accept _) ?_
  intro _ _
  apply bind (locate keyword)
  intro _ _
  exact pure trivial

theorem statement (hinner : Points b inner fun _ => True) :
    Points b (Parser.statement inner) fun _ => True := by
  refine bind get fun _ _ => ?_
  split
  · exact bind keywordBinding fun _ _ => pure trivial
  · exact bind keywordBinding fun _ _ => pure trivial
  · exact bind keywordBinding fun _ _ => pure trivial
  · exact bind returnStatement fun _ _ => pure trivial
  · exact bind (block hinner) fun _ _ => pure trivial
  · exact bind advance fun _ _ => pure trivial
  · exact fail _
  · exact fail _
  · exact fail _
  · exact fail _
  · refine ite (bind (nameBinding hinner) fun _ _ => pure trivial) ?_
    apply bind expression
    intro _ _
    refine bind (expect ..) ?_
    intro _ _
    exact pure trivial

theorem statementsWithin (fuel : Nat) : Points b (Parser.statementsWithin fuel) fun _ => True := by
  refine ⟨?_, fun _ h => absurd h (Parser.statementsWithin_ne_error _ _ _ _)⟩
  induction fuel with
  | zero =>
      intro s a s' hs h
      cases h
      exact ⟨hs.closeBlock, trivial⟩
  | succ fuel ih =>
      intro s a s' hs h
      have hinner : Points b (Parser.statementsWithin fuel) fun _ => True :=
        ⟨ih, fun _ h => absurd h (Parser.statementsWithin_ne_error _ _ _ _)⟩
      rcases Parser.statementsWithin_cases h with
        ⟨-, -, rfl⟩ | ⟨-, node, rest, next, hnode, hrest, -⟩ | ⟨-, failure, next, hnode, hrest⟩
      · exact ⟨hs.closeBlock, trivial⟩
      · exact ih ((statement hinner).ok hs.exitPanic hnode).1 hrest
      · obtain ⟨hnext, hfailure⟩ := (statement hinner).error hs.exitPanic hnode
        exact ih (hnext.recover hfailure _) hrest

theorem statements : Points b Parser.statements fun _ => True :=
  bind get fun _ _ => statementsWithin _

/-! ## Files

A second namespace line and a function that is declared twice are reported at their names, which
were taken before. -/

theorem namespaceLine : Points b Parser.namespaceLine fun _ => True := by
  apply bind take
  intro keyword _
  refine bind (expect ..) ?_
  intro _ hname
  refine bind (accept _) ?_
  intro _ _
  apply bind get
  intro s _
  split
  · exact bind (complain _ hname) fun _ _ => pure trivial
  · refine bind (update fun s hs => hs.same rfl rfl rfl rfl) ?_
    intro _ _
    apply bind (locate keyword)
    intro _ _
    exact pure trivial

theorem functionBody : Points b Parser.functionBody fun _ => True := by
  refine bind (expect ..) ?_
  intro opening _
  apply bind statements
  intro _ _
  apply bind (locate opening)
  intro _ _
  exact pure trivial

theorem withinFunction {body : Parser α} (hbody : Points b body Q) (params : List Param) :
    Points b (Parser.withinFunction params body) Q := by
  have henter {s : State} (hs : s.From b) : (s.enterFunction params).From b :=
    hs.same rfl rfl rfl rfl
  have hleave {s : State} (hs : s.From b) (was : Bool) : (s.leaveFunction was).From b :=
    hs.same rfl rfl rfl rfl
  constructor
  · intro s a s' hs h
    rw [Parser.withinFunction] at h
    split at h
    · next value next hrun =>
      cases h
      obtain ⟨hnext, hvalue⟩ := hbody.ok (henter hs) hrun
      exact ⟨hleave hnext _, hvalue⟩
    · cases h
  · intro s f s' hs h
    rw [Parser.withinFunction] at h
    split at h
    · cases h
    · next failure next hrun =>
      cases h
      obtain ⟨hnext, hfailure⟩ := hbody.error (henter hs) hrun
      exact ⟨hleave hnext _, hfailure⟩

theorem function : Points b Parser.function fun _ => True := by
  apply bind (prototype false)
  intro _ _
  refine bind (withinFunction functionBody _) ?_
  intro _ _
  exact pure trivial

theorem externFunction : Points b Parser.externFunction fun _ => True := by
  apply bind take
  intro _ _
  apply bind current
  intro _ _
  refine ite ?_ (failExpecting _)
  apply bind (prototype true)
  intro _ _
  refine bind (accept _) ?_
  intro _ _
  exact pure trivial

theorem declaration : Points b Parser.declaration fun _ => True := by
  refine bind get fun s _ => ?_
  split
  · exact namespaceLine
  · exact bind function fun _ _ => pure trivial
  · exact bind function fun _ _ => pure trivial
  · exact bind externFunction fun _ _ => pure trivial
  · exact bind keywordBinding fun _ _ => pure trivial
  · exact bind keywordBinding fun _ _ => pure trivial
  · exact bind keywordBinding fun _ _ => pure trivial
  · exact bind returnStatement fun _ _ => pure trivial
  · exact ite (bind (nameBinding statements) fun _ _ => pure trivial) (failExpecting _)

end Points

/-! ## The findings of a file

Every finding is made at a token, or by the lexer for one. Both are tokens of the buffer, and a
finding takes as many columns as its token or fewer. -/

/-- The rounds of a file keep the invariant: what a declaration fails with is reported, and reading
goes on behind it. -/
theorem State.From.declarations {s : State} (hs : s.From b) (fuel : Nat) :
    (declarations fuel s).2.From b := by
  induction fuel generalizing s with
  | zero => exact hs
  | succ fuel ih =>
      rw [Grammar.declarations]
      split
      · exact hs
      · split
        · next node next hnode => exact ih (Points.declaration.ok hs.exitPanic hnode).1
        · next failure next hnode =>
          obtain ⟨hnext, hfailure⟩ := Points.declaration.error hs.exitPanic hnode
          exact ih (hnext.recover hfailure _)

end Grammar

theorem Buffer.startState_from (b : Buffer) : b.startState.From b := by
  have htokens : ∀ t ∈ (Stream.ofText b.chars).tokens, t ∈ b.allTokens :=
    fun t ht => List.mem_append.mpr (.inl ht)
  have hfinish : (Stream.ofText b.chars).finish ∈ b.allTokens :=
    List.mem_append.mpr (.inr (List.mem_singleton.mpr rfl))
  unfold startState State.start
  refine State.From.settle ⟨rfl, ?_, hfinish, ?_⟩ htokens
  · exact List.forall_mem_nil _
  · exact List.forall_mem_nil _

/-- Every finding is about a token of its file, and takes no more columns than the token. -/
theorem Buffer.findings_mark (b : Buffer) :
    ∀ f ∈ b.parse.findings, b.Marks f.location f.length :=
  (b.startState_from.declarations _).findings

end FrontEnd
