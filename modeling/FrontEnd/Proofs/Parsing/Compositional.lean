import FrontEnd.Proofs.Parsing.Change

set_option autoImplicit false

/-! # Properties of all parsers

Parsers are put together from a few primitive ones. A property that holds of these and of sequences
of parsers that have it (`Compositional`) holds of the parsers of all expressions and types. If it
holds of the parsers that declare names too (`Declarative`), then it holds of the heads of functions
and of bindings. One lemma for each parser, in the order of the grammar. Those of blocks and
functions, which open scopes, are not among them.

So what a development about all parsers has to supply are the few fields of the structure, and the
lemmas here do the walk through the grammar once for all of them. It is used for properties of single
runs; those that compare two runs go through the grammar on their own, since the two may part ways.
-/

namespace FrontEnd.Grammar

variable {α β : Type} {P : {α : Type} → Parser α → Prop}

/-- A property of the parsers that declare nothing: what it has to be shown for are the primitive
parsers and sequences. -/
structure Compositional (P : {α : Type} → Parser α → Prop) : Prop where
  pure : ∀ {α : Type} (a : α), P (Pure.pure a)
  bind : ∀ {α β : Type} {p : Parser α} {q : α → Parser β}, P p → (∀ a, P (q a)) → P (p >>= q)
  get : P (get : Parser State)
  advance : P Parser.advance
  complain : ∀ {issue : Issue}, issue.isSemantic → ∀ t, P (Parser.complain issue t)
  checkTarget : ∀ target, P (Parser.checkTarget target)
  fail : ∀ {α : Type} {issue : Issue}, issue.isGrammatical = true → P (Parser.fail issue : Parser α)

namespace Compositional

theorem ite {c : Prop} [Decidable c] {p q : Parser α} (hp : P p) (hq : P q) :
    P (if c then p else q) := by
  split
  · exact hp
  · exact hq

variable (h : Compositional P)
include h

/-! ## Primitive parsers

The remaining primitive parsers are sequences of the first few. -/

theorem onlyIf (condition : Bool) {p : Parser Unit} (hp : P p) : P (Parser.onlyIf condition p) :=
  ite hp (h.pure ())

theorem current : P Parser.current := h.bind h.get fun _ => h.pure _

theorem lookahead : P Parser.lookahead := h.bind h.get fun _ => h.pure _

theorem locate (t : Token) : P (Parser.locate t) := h.bind h.get fun _ => h.pure _

theorem take : P Parser.take := by
  apply h.bind h.current
  intro _
  apply h.bind h.advance
  intro _
  exact h.pure _

theorem failExpecting (what : Expectation) : P (Parser.failExpecting what : Parser α) :=
  h.bind h.current fun _ => h.fail rfl

theorem accept (kind : Kind) : P (Parser.accept kind) :=
  h.bind h.current fun _ => ite (h.bind h.advance fun _ => h.pure _) (h.pure _)

theorem expect (kind : Kind) (place : Place) : P (Parser.expect kind place) :=
  h.bind h.current fun _ => ite (h.bind h.advance fun _ => h.pure _) (h.failExpecting _)

/-! ## Expressions -/

theorem numberLiteral (t : Token) : P (Parser.numberLiteral t) := by
  refine h.bind (h.locate t) fun loc => ?_
  split
  · exact h.pure _
  · exact h.pure _
  · exact h.bind (h.complain rfl t) fun _ => h.pure _

theorem charLiteral (t : Token) : P (Parser.charLiteral t) := by
  refine h.bind (h.locate t) fun loc => ?_
  split
  · exact h.pure _
  · exact h.bind (h.complain rfl t) fun _ => h.pure _

theorem stepNode (t : Token) (step : Step) (overflow : Overflow) (fixity : Fixity)
    (operand : Expr) : P (Parser.stepNode t step overflow fixity operand) := by
  apply h.bind (h.checkTarget operand)
  intro _
  apply h.bind (h.locate t)
  intro _
  exact h.pure _

theorem extendOperand {climb : Nat → Expr → Parser Expr} (hclimb : ∀ least lhs, P (climb least lhs))
    (op : BinaryOp) (operand : Expr) : P (Parser.extendOperand climb op operand) := by
  refine h.bind h.current fun t => ?_
  split
  · exact hclimb ..
  · exact h.pure _

/-- The parsers of expressions have the property with some fuel. -/
structure Expressions (P : {α : Type} → Parser α → Prop) (fuel : Nat) : Prop where
  expression : P (Parser.expressionWithin fuel)
  climb : ∀ least lhs, P (Parser.climbWithin fuel least lhs)
  unary : P (Parser.unaryWithin fuel)
  primary : P (Parser.primaryWithin fuel)
  arguments : P (Parser.argumentsWithin fuel)
  expressions : P (Parser.expressionsWithin fuel)

namespace Expressions

variable {fuel : Nat} (ih : Expressions P fuel)
include ih

theorem climb_succ (least : Nat) (lhs : Expr) : P (Parser.climbWithin (fuel + 1) least lhs) := by
  rw [Parser.climbWithin]
  apply h.bind h.current
  intro t
  split
  · refine ite (h.pure _) ?_
    apply h.bind h.advance
    intro _
    refine h.bind (h.stepNode ..) ?_
    intro node
    exact ih.climb least node
  · refine ite (h.pure _) ?_
    apply h.bind h.advance
    intro _
    apply h.bind ih.unary
    intro operand
    refine h.bind (h.extendOperand ih.climb _ operand) ?_
    intro rhs
    refine h.bind (h.onlyIf _ (h.checkTarget lhs)) ?_
    intro _
    apply h.bind (h.locate t)
    intro _
    exact ih.climb least _
  · exact h.pure _

theorem unary_succ : P (Parser.unaryWithin (fuel + 1)) := by
  rw [Parser.unaryWithin]
  apply h.bind h.current
  intro t
  split
  · apply h.bind h.advance
    intro _
    apply h.bind ih.unary
    intro _
    apply h.bind (h.locate t)
    intro _
    exact h.pure _
  · split
    · apply h.bind h.advance
      intro _
      apply h.bind ih.primary
      intro operand
      exact h.stepNode t _ _ _ operand
    · exact ih.primary

theorem primary_succ : P (Parser.primaryWithin (fuel + 1)) := by
  -- a literal other than a number or a character is its token alone
  have hliteral (t : Token) (e : Location → Expr) :
      P (do Parser.advance; return e (← Parser.locate t)) := by
    apply h.bind h.advance
    intro _
    apply h.bind (h.locate t)
    intro _
    exact h.pure _
  rw [Parser.primaryWithin]
  apply h.bind h.current
  intro t
  split
  · exact h.bind h.advance fun _ => h.numberLiteral t
  · exact hliteral t _
  · exact hliteral t _
  · exact hliteral t _
  · exact h.bind h.advance fun _ => h.charLiteral t
  · apply h.bind h.lookahead
    intro next
    apply ite
    · apply h.bind h.advance
      intro _
      apply h.bind h.advance
      intro _
      apply h.bind ih.arguments
      intro args
      refine h.bind (h.expect ..) ?_
      intro _
      apply h.bind (h.locate t)
      intro _
      exact h.pure _
    · apply h.bind h.advance
      intro _
      apply h.bind h.get
      intro _
      refine h.bind (h.onlyIf _ (h.complain rfl t)) ?_
      intro _
      apply h.bind (h.locate t)
      intro _
      exact h.pure _
  · apply h.bind h.advance
    intro _
    apply h.bind ih.expression
    intro e
    refine h.bind (h.expect ..) ?_
    intro _
    exact h.pure e
  · exact h.failExpecting _

theorem expressions_succ : P (Parser.expressionsWithin (fuel + 1)) := by
  rw [Parser.expressionsWithin]
  apply h.bind ih.expression
  intro e
  refine h.bind (h.accept _) ?_
  intro _
  apply ite
  · exact h.bind ih.expressions fun _ => h.pure _
  · exact h.pure _

end Expressions

/-- The parsers of expressions call one another, so they are taken together, by induction on the
fuel. -/
theorem expressionParsers (fuel : Nat) : Expressions P fuel := by
  induction fuel with
  | zero =>
      exact ⟨h.failExpecting _, fun _ _ => h.failExpecting _, h.failExpecting _, h.failExpecting _,
        h.failExpecting _, h.failExpecting _⟩
  | succ fuel ih =>
      refine ⟨?_, ?_, ?_, ?_, ?_, ?_⟩
      · rw [Parser.expressionWithin]
        exact h.bind ih.unary fun lhs => ih.climb 0 lhs
      · exact Expressions.climb_succ h ih
      · exact Expressions.unary_succ h ih
      · exact Expressions.primary_succ h ih
      · rw [Parser.argumentsWithin]
        exact h.bind h.current fun _ => ite (h.pure _) ih.expressions
      · exact Expressions.expressions_succ h ih

theorem expression : P Parser.expression := h.bind h.get fun _ => (h.expressionParsers _).expression

theorem expressions : P Parser.expressions :=
  h.bind h.get fun _ => (h.expressionParsers _).expressions

/-! ## Types and arguments -/

theorem typeExpr (place : Place) : P (Parser.typeExpr place) := by
  refine h.bind h.current fun t => ?_
  split
  · apply h.bind h.advance
    intro _
    apply h.bind (h.locate t)
    intro _
    exact h.pure _
  · apply h.bind h.advance
    intro _
    apply h.bind (h.locate t)
    intro _
    exact h.pure _
  · apply h.bind h.advance
    intro _
    apply h.bind (h.locate t)
    intro _
    exact h.pure _
  · exact h.failExpecting _

theorem furtherTypes (fuel : Nat) : P (Parser.furtherTypes fuel) := by
  induction fuel with
  | zero => exact h.pure _
  | succ fuel ih =>
      refine h.bind (h.accept _) ?_
      intro _
      refine ite ?_ (h.pure _)
      refine h.bind (h.typeExpr _) ?_
      intro _
      apply h.bind ih
      intro _
      exact h.pure _

theorem param (before : List Param) : P (Parser.param before) := by
  refine h.bind (h.expect ..) ?_
  intro name
  refine h.bind (h.onlyIf _ (h.complain rfl name)) ?_
  intro _
  refine h.bind (h.expect ..) ?_
  intro _
  refine h.bind (h.typeExpr _) ?_
  intro _
  refine h.bind (h.onlyIf _ (h.complain rfl name)) ?_
  intro _
  apply h.bind (h.locate name)
  intro _
  exact h.pure _

theorem paramsFrom (fuel : Nat) (before : List Param) : P (Parser.paramsFrom fuel before) := by
  induction fuel generalizing before with
  | zero => exact h.pure _
  | succ fuel ih =>
      apply h.bind (h.param before)
      intro _
      refine h.bind (h.accept _) ?_
      intro _
      exact ite (ih _) (h.pure _)

theorem params : P Parser.params := h.bind h.get fun _ => ite (h.pure _) (h.paramsFrom ..)

theorem returnTypes (isExtern : Bool) : P (Parser.returnTypes isExtern) := by
  refine h.bind (h.accept _) fun _ => ite ?_ ?_
  · refine h.bind (h.typeExpr _) ?_
    intro _
    apply h.bind h.get
    intro _
    refine h.bind (h.furtherTypes _) ?_
    intro _
    exact h.pure _
  · exact h.bind h.current fun t =>
      ite (h.bind (h.locate t) fun _ => h.pure _) (h.failExpecting _)

/-! ## Parts of statements -/

theorem optionalType : P Parser.optionalType :=
  h.bind (h.accept _) fun _ => ite (h.bind (h.typeExpr _) fun _ => h.pure _) (h.pure _)

theorem optionalInit : P Parser.optionalInit :=
  h.bind (h.accept _) fun _ => ite (h.bind h.expression fun _ => h.pure _) (h.pure _)

theorem returnValues : P Parser.returnValues :=
  h.bind h.current fun _ => ite (h.pure _) h.expressions

theorem returnStatement : P Parser.returnStatement := by
  apply h.bind h.take
  intro keyword
  apply h.bind h.get
  intro _
  refine h.bind (h.onlyIf _ (h.complain rfl keyword)) ?_
  intro _
  apply h.bind h.returnValues
  intro _
  refine h.bind (h.accept _) ?_
  intro _
  apply h.bind (h.locate keyword)
  intro _
  exact h.pure _

end Compositional

/-- The note that a function is the entry point of the program. -/
def Parser.noteEntryPoint (name : Token) (isExtern : Bool) : Parser Unit :=
  update fun s =>
    let atFileScope :=
      s.scopes.currentKind = .file || s.scopes.currentKind = .namespaceScope
    if name.lexeme = "main" ∧ atFileScope ∧ !isExtern then { s with entryPoint := true } else s

/-- A property of the parsers that open no scope. -/
structure Declarative (P : {α : Type} → Parser α → Prop) : Prop extends Compositional P where
  declare : ∀ symbol t, P (Parser.declare symbol t)
  noteEntryPoint : ∀ name isExtern, P (Parser.noteEntryPoint name isExtern)

namespace Declarative

variable (h : Declarative P)
include h

theorem declareFunction (name : Token) (isExtern : Bool) :
    P (Parser.declareFunction name isExtern) := by
  apply h.bind (h.noteEntryPoint name isExtern)
  intro _
  apply h.bind (h.locate name)
  intro _
  exact h.declare ..

theorem prototype (isExtern : Bool) : P (Parser.prototype isExtern) := by
  apply h.bind h.take
  intro _
  refine h.bind (h.expect ..) ?_
  intro name
  refine h.bind (h.declareFunction ..) ?_
  intro _
  refine h.bind (h.expect ..) ?_
  intro _
  apply h.bind h.params
  intro _
  refine h.bind (h.expect ..) ?_
  intro _
  refine h.bind (h.returnTypes _) ?_
  intro _
  apply h.bind (h.locate name)
  intro _
  exact h.pure _

theorem finishBinding (name : Token) (type : Option TypeExpr) (init : Option Expr)
    (mutability : Mutability) : P (Parser.finishBinding name type init mutability) := by
  apply h.bind (h.locate name)
  intro _
  refine h.bind (h.declare ..) ?_
  intro _
  exact h.pure _

theorem keywordBinding : P Parser.keywordBinding := by
  apply h.bind h.take
  intro _
  refine h.bind (h.expect ..) ?_
  intro name
  apply h.bind h.optionalType
  intro _
  apply h.bind h.optionalInit
  intro _
  refine h.bind (h.accept _) ?_
  intro _
  refine h.bind (h.onlyIf _ (h.complain rfl name)) ?_
  intro _
  exact h.finishBinding ..

end Declarative

end FrontEnd.Grammar
