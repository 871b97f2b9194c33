import FrontEnd.Proofs.Parsing.Fuel
import FrontEnd.Proofs.Parsing.Twins

set_option autoImplicit false

/-! # The grammar side by side

No expression, type or head of a function reads a token that ends a statement, so two runs of their
parsers go on side by side whatever stands behind that token. One lemma for each parser, in the order
of the grammar. Parsers that only differ in the fuel they start with take as much as the longer run
needs.

The two runs see the same tokens up to the terminator, so they take the same branches everywhere. What
they know about names may differ, and then so do the trees that they build; only if the twins agree in
what has been declared (`c.same`) are the trees equal. Every lemma therefore carries its values as a
pair, with equality under that condition.
-/

namespace FrontEnd.Grammar

open FrontEnd.Grammar.Parser

variable {c : Twins} {s t : State}

namespace Along

/-! ## Expressions

By induction on the fuel, all parsers of expressions together, as they call one another. -/

theorem checkTarget {target target' : Expr} (h : c.same → target' = target) :
    Along c (Parser.checkTarget target) (Parser.checkTarget target') :=
  update (.checkTarget target) (.checkTarget target') fun hsame => by rw [h hsame]

theorem numberLiteral (x : Token) : Along c (Parser.numberLiteral x) (Parser.numberLiteral x) := by
  refine bind (locate x) fun loc loc' hloc => ?_
  cases x.numeral? with
  | none => exact bind (complain rfl x) fun _ _ _ => pure fun hsame => by rw [hloc hsame]
  | some value =>
      cases value with
      | int value => exact pure fun hsame => by rw [hloc hsame]
      | float value => exact pure fun hsame => by rw [hloc hsame]

theorem charLiteral (x : Token) : Along c (Parser.charLiteral x) (Parser.charLiteral x) := by
  refine bind (locate x) fun loc loc' hloc => ?_
  cases unescape? (withoutDelimiters x.lexeme) with
  | none => exact bind (complain rfl x) fun _ _ _ => pure fun hsame => by rw [hloc hsame]
  | some value => exact pure fun hsame => by rw [hloc hsame]

theorem stepNode (x : Token) (step : Step) (overflow : Overflow) (fixity : Fixity)
    {operand operand' : Expr} (h : c.same → operand' = operand) :
    Along c (Parser.stepNode x step overflow fixity operand)
      (Parser.stepNode x step overflow fixity operand') :=
  bind (checkTarget h) fun _ _ _ => bind (locate x) fun loc loc' hloc =>
    pure fun hsame => by rw [h hsame, hloc hsame]

/-- The parsers of expressions go on side by side with one amount of fuel. -/
structure Expressions (c : Twins) (fuel : Nat) : Prop where
  expression : Along c (expressionWithin fuel) (expressionWithin fuel)
  climb : ∀ least {lhs lhs' : Expr}, (c.same → lhs' = lhs) →
    Along c (climbWithin fuel least lhs) (climbWithin fuel least lhs')
  unary : Along c (unaryWithin fuel) (unaryWithin fuel)
  primary : Along c (primaryWithin fuel) (primaryWithin fuel)
  arguments : Along c (argumentsWithin fuel) (argumentsWithin fuel)
  expressions : Along c (expressionsWithin fuel) (expressionsWithin fuel)

namespace Expressions

variable {fuel : Nat} (h : Expressions c fuel)
include h

theorem extendOperand (op : BinaryOp) {operand operand' : Expr} (heq : c.same → operand' = operand) :
    Along c (Parser.extendOperand (climbWithin fuel) op operand)
      (Parser.extendOperand (climbWithin fuel) op operand') := by
  intro s t halike
  rw [Parser.extendOperand, Parser.extendOperand, current_bind, current_bind, halike.current]
  cases absorbedLevel? op s.current.kind with
  | none => exact pure heq halike
  | some level => exact h.climb level heq halike

theorem climb_succ (least : Nat) {lhs lhs' : Expr} (heq : c.same → lhs' = lhs) :
    Along c (climbWithin (fuel + 1) least lhs) (climbWithin (fuel + 1) least lhs') := by
  intro s t halike
  unfold climbWithin
  rw [current_bind, current_bind, halike.current]
  generalize hk : s.current.kind = k
  have hadvance (hne : isTerminator k = false) := halike.advance (hk ▸ hne)
  split
  · split
    · exact pure heq halike
    · exact bind (stepNode _ _ _ _ heq) (fun _ _ hnode => h.climb least hnode) (hadvance rfl)
  · split
    · exact pure heq halike
    · refine bind h.unary (fun operand operand' hoperand => ?_) (hadvance rfl)
      refine bind (h.extendOperand _ hoperand) fun rhs rhs' hrhs => ?_
      refine bind (onlyIf _ (checkTarget heq)) ?_
      intro _ _ _
      refine bind (locate _) ?_
      intro loc loc' hloc
      exact h.climb least fun hsame => by rw [heq hsame, hrhs hsame, hloc hsame]
  · exact pure heq halike

theorem unary_succ : Along c (unaryWithin (fuel + 1)) (unaryWithin (fuel + 1)) := by
  intro s t halike
  unfold unaryWithin
  rw [current_bind, current_bind, halike.current]
  generalize hop : unaryOp? s.current.kind = unary?
  split
  · have hne := not_isTerminator_of_unaryOp? hop
    refine bind h.unary (fun operand operand' hoperand => ?_) (halike.advance hne)
    refine bind (locate _) ?_
    intro loc loc' hloc
    apply pure
    intro hsame
    rw [hoperand hsame, hloc hsame]
  · generalize hk : s.current.kind = k
    split
    · exact bind h.primary (fun _ _ hoperand => stepNode _ _ _ _ hoperand)
        (halike.advance (by rw [hk]; rfl))
    · exact h.primary halike

theorem primary_succ : Along c (primaryWithin (fuel + 1)) (primaryWithin (fuel + 1)) := by
  intro s t halike
  rw [primaryWithin, current_bind, current_bind, halike.current]
  generalize hk : s.current.kind = k
  have hadvance (hne : isTerminator k = false) := halike.advance (hk ▸ hne)
  have hliteral (e : Location → Expr) : Along c (do return e (← Parser.locate s.current))
      (do return e (← Parser.locate s.current)) :=
    bind (locate _) fun loc loc' hloc => pure fun hsame => by rw [hloc hsame]
  split
  · exact numberLiteral _ (hadvance rfl)
  · exact hliteral _ (hadvance rfl)
  · exact hliteral _ (hadvance rfl)
  · exact hliteral _ (hadvance rfl)
  · exact charLiteral _ (hadvance rfl)
  · -- a name is no terminator, so the two runs see the same token behind it
    have halike' := hadvance rfl
    rw [lookahead_bind, lookahead_bind, halike.lookahead (by rw [hk]; rfl)]
    split
    · next hparen =>
      have hnext : s.advance.current.kind = .mark .leftParen := by
        rw [State.advance_current (by rw [hparen]; simp), hparen]
      refine bind h.arguments (fun args args' hargs => ?_) (halike'.advance (by rw [hnext]; rfl))
      refine expect rfl _ ?_
      intro _
      refine bind (locate _) ?_
      intro loc loc' hloc
      exact pure fun hsame => by rw [hargs hsame, hloc hsame]
    · refine bind (complainIf rfl s.current fun hsame => ?_) (fun _ _ _ => hliteral _) halike'
      rw [halike'.scopes hsame]
  · refine bind h.expression (fun e e' he => ?_) (hadvance rfl)
    exact expect rfl _ fun _ => pure he
  · exact failExpecting _ halike

theorem arguments_succ : Along c (argumentsWithin (fuel + 1)) (argumentsWithin (fuel + 1)) := by
  intro s t halike
  rw [argumentsWithin, current_bind, current_bind, halike.current]
  split
  · exact pure (fun _ => rfl) halike
  · exact h.expressions halike

theorem expressions_succ :
    Along c (expressionsWithin (fuel + 1)) (expressionsWithin (fuel + 1)) := by
  rw [expressionsWithin]
  apply bind h.expression
  intro e e' he
  refine accept rfl ?_
  intro b
  split
  · apply bind h.expressions
    intro es es' hes
    apply pure
    intro hsame
    rw [he hsame, hes hsame]
  · exact pure fun hsame => by rw [he hsame]

end Expressions

theorem expressionParsers (c : Twins) (fuel : Nat) : Expressions c fuel := by
  induction fuel with
  | zero =>
      refine ⟨?_, fun least lhs lhs' _ => ?_, ?_, ?_, ?_, ?_⟩
      · rw [expressionWithin]; exact failExpecting _
      · rw [climbWithin, climbWithin]; exact failExpecting _
      · rw [unaryWithin]; exact failExpecting _
      · rw [primaryWithin]; exact failExpecting _
      · rw [argumentsWithin]; exact failExpecting _
      · rw [expressionsWithin]; exact failExpecting _
  | succ fuel ih =>
      refine ⟨?_, fun least _ _ heq => ih.climb_succ least heq, ih.unary_succ, ih.primary_succ,
        ih.arguments_succ, ih.expressions_succ⟩
      rw [expressionWithin]
      exact bind ih.unary fun _ _ hlhs => ih.climb 0 hlhs

/-- The two runs take the same fuel, as much as the longer one needs. -/
theorem expression : Along c Parser.expression Parser.expression := by
  intro s t halike
  rw [← expressionWithin_eq halike.left (expressionFuel_mono (Nat.le_max_left _ t.unread.length)),
    ← expressionWithin_eq halike.right (expressionFuel_mono (Nat.le_max_right s.unread.length _))]
  exact (expressionParsers c _).expression halike

theorem expressions : Along c Parser.expressions Parser.expressions := by
  intro s t halike
  rw [← expressionsWithin_eq halike.left (expressionFuel_mono (Nat.le_max_left _ t.unread.length)),
    ← expressionsWithin_eq halike.right (expressionFuel_mono (Nat.le_max_right s.unread.length _))]
  exact (expressionParsers c _).expressions halike

/-! ## Types and the heads of functions

The head of a function is read up to its opening brace or to the end of an extern declaration. The two
runs may declare the function under different conditions, but they read the same tokens for it. -/

theorem typeExpr (place : Place) : Along c (Parser.typeExpr place) (Parser.typeExpr place) := by
  intro s t halike
  rw [Parser.typeExpr, current_bind, current_bind, halike.current]
  generalize hk : s.current.kind = k
  have hadvance (hne : isTerminator k = false) := halike.advance (hk ▸ hne)
  have htype (e : Location → TypeExpr) : Along c (do return e (← Parser.locate s.current))
      (do return e (← Parser.locate s.current)) :=
    bind (locate _) fun loc loc' hloc => pure fun hsame => by rw [hloc hsame]
  split
  · exact htype _ (hadvance rfl)
  · exact htype _ (hadvance rfl)
  · exact htype _ (hadvance rfl)
  · exact failExpecting _ halike

theorem furtherTypes (fuel : Nat) :
    Along c (Parser.furtherTypes fuel) (Parser.furtherTypes fuel) := by
  induction fuel with
  | zero => exact pure fun _ => rfl
  | succ fuel ih =>
      rw [Parser.furtherTypes]
      refine accept rfl fun b => ?_
      split
      · refine bind (typeExpr _) fun type type' htype => ?_
        apply bind ih
        intro types types' htypes
        apply pure
        intro hsame
        rw [htype hsame, htypes hsame]
      · exact pure fun _ => rfl

theorem declare {symbol symbol' : Symbol} (h : c.same → symbol' = symbol) (x : Token) :
    Along c (Parser.declare symbol x) (Parser.declare symbol' x) :=
  update (.declare symbol x) (.declare symbol' x) fun hsame => by rw [h hsame]

theorem param {before before' : List Param} (h : c.same → before' = before) :
    Along c (Parser.param before) (Parser.param before') := by
  refine expect rfl _ fun name => ?_
  refine bind (complainIf rfl name fun hsame => by rw [h hsame]) fun _ _ _ => ?_
  refine expect rfl _ ?_
  intro _
  refine bind (typeExpr _) ?_
  intro type type' htype
  refine bind (complainIf rfl name fun hsame => by rw [h hsame]) fun _ _ _ => ?_
  apply bind (locate name)
  intro loc loc' hloc
  apply pure
  intro hsame
  rw [htype hsame, hloc hsame]

theorem paramsFrom (fuel : Nat) {before before' : List Param} (h : c.same → before' = before) :
    Along c (Parser.paramsFrom fuel before) (Parser.paramsFrom fuel before') := by
  induction fuel generalizing before before' with
  | zero => exact pure h
  | succ fuel ih =>
      rw [Parser.paramsFrom, Parser.paramsFrom]
      apply bind (param h)
      intro p p' hp
      refine accept rfl ?_
      intro b
      split
      · exact ih fun hsame => by rw [h hsame, hp hsame]
      · exact pure fun hsame => by rw [h hsame, hp hsame]

theorem params : Along c Parser.params Parser.params := by
  intro s t halike
  rw [Parser.params, get_bind, get_bind, halike.current]
  split
  · exact pure (fun _ => rfl) halike
  · have hs := paramsFrom_eq halike.left [] (Nat.lt_succ_of_le (Nat.le_max_left _ t.unread.length))
    have ht := paramsFrom_eq halike.right [] (Nat.lt_succ_of_le (Nat.le_max_right s.unread.length _))
    rw [← hs, ← ht]
    exact paramsFrom _ (fun _ => rfl) halike

theorem returnTypes (isExtern : Bool) :
    Along c (Parser.returnTypes isExtern) (Parser.returnTypes isExtern) := by
  refine accept rfl fun b => ?_
  split
  · -- each run starts with its own fuel, and both are brought to the greater one
    refine bind (typeExpr _) fun type type' htype => ?_
    intro s t halike
    have hs := furtherTypes_eq halike.left (Nat.le_max_left _ t.unread.length)
    have ht := furtherTypes_eq halike.right (Nat.le_max_right s.unread.length _)
    rw [get_bind, get_bind]
    refine Match.bind ?_ fun types types' htypes =>
      pure fun hsame => by rw [htype hsame, htypes hsame]
    rw [← hs, ← ht]
    exact furtherTypes _ halike
  · intro s t halike
    rw [current_bind, current_bind, halike.current]
    split
    · refine bind (locate _) ?_ halike
      intro loc loc' hloc
      apply pure
      intro hsame
      rw [hloc hsame]
    · exact failExpecting _ halike

theorem declareFunction (name : Token) (isExtern : Bool) :
    Along c (Parser.declareFunction name isExtern) (Parser.declareFunction name isExtern) := by
  refine bind (updateSelf ⟨fun s unread finish => ?_, fun s => ?_⟩) fun _ _ _ =>
    bind (locate name) fun loc loc' hloc => declare (fun hsame => by rw [hloc hsame]) name
  · rw [State.withTokens_scopes]
    dsimp only
    split <;> rfl
  · dsimp only
    split
    · exact .of_findings rfl rfl
    · exact .of_findings rfl rfl

/-- The head of a function, whose keyword is the current token. -/
theorem prototype (isExtern : Bool) (halike : Alike c s t)
    (hk : isTerminator s.current.kind = false) :
    Match c (Parser.prototype isExtern s) (Parser.prototype isExtern t) := by
  rw [Parser.prototype, take_bind, take_bind, halike.current]
  refine expect rfl _ (fun name => ?_) (halike.advance hk)
  apply bind (declareFunction name isExtern)
  intro _ _ _
  refine expect rfl _ ?_
  intro _
  apply bind params
  intro params params' hparams
  refine expect rfl _ ?_
  intro _
  refine bind (returnTypes isExtern) fun returns returns' hreturns => ?_
  apply bind (locate name)
  intro loc loc' hloc
  apply pure
  intro hsame
  rw [hparams hsame, hreturns hsame, hloc hsame]

/-! ## The parts of statements

These parsers look at names. Whether a name may be declared can differ between the runs, and so can
what they report, but not what they read. -/

theorem finishBinding (name : Token) {type type' : Option TypeExpr} {init init' : Option Expr}
    (mutability : Mutability) (htype : c.same → type' = type) (hinit : c.same → init' = init) :
    Along c (Parser.finishBinding name type init mutability)
      (Parser.finishBinding name type' init' mutability) := by
  refine bind (locate name) fun loc loc' hloc => ?_
  refine bind (declare (fun hsame => by rw [hinit hsame, hloc hsame]) name) fun _ _ _ => ?_
  exact pure fun hsame => by rw [htype hsame, hinit hsame, hloc hsame]

theorem optionalType : Along c Parser.optionalType Parser.optionalType := by
  refine accept rfl fun b => ?_
  split
  · refine bind (typeExpr _) ?_
    intro type type' htype
    apply pure
    intro hsame
    rw [htype hsame]
  · exact pure fun _ => rfl

theorem optionalInit : Along c Parser.optionalInit Parser.optionalInit := by
  refine accept rfl fun b => ?_
  split
  · apply bind expression
    intro e e' he
    apply pure
    intro hsame
    rw [he hsame]
  · exact pure fun _ => rfl

theorem returnValues : Along c Parser.returnValues Parser.returnValues := by
  intro s t halike
  rw [Parser.returnValues, current_bind, current_bind, halike.current]
  split
  · exact pure (fun _ => rfl) halike
  · exact expressions halike

end Along

end FrontEnd.Grammar
