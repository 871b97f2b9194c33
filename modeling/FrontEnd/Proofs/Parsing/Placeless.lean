import FrontEnd.Proofs.Parsing.Bare
import FrontEnd.Proofs.Parsing.Start

set_option autoImplicit false

/-! # Reading without places

What is read does not depend on where it stands. From a state without its places a parser does the
same as from the state itself, up to places (`Placeless`): it makes the same decisions, builds the
same trees, finds the same things and leaves the same tokens. One lemma for each parser, in the order
of the grammar. So two buffers with the same tokens have the same report, wherever these tokens stand
(`Buffer.parse_bare`).

The statement is an equation and not a relation between two runs: one run, from the state without
places, is what the other one does, with the places left out behind it. Leaving places out twice is
leaving them out once, so two states that differ in places alone have the same run up to places, and
this is never stated for two runs.
-/

namespace FrontEnd

namespace Grammar

open FrontEnd.Grammar.Parser

variable {α β : Type}

/-! ## Parsers -/

/-- What a parser has done, with all places left out; `f` leaves them out of a value. -/
def bareResult (f : α → α) :
    EStateM.Result Finding State α → EStateM.Result Finding State α
  | .ok a s => .ok (f a) s.bare
  | .error failure s => .error failure.bare s.bare

/-- From a state without places the parser `q` does what `p` does from the state. The two differ in
what they were given: a token or a tree that `p` has carries places, and that of `q` does not. -/
def Placeless (f : α → α) (p q : Parser α) : Prop := ∀ s : State, q s.bare = bareResult f (p s)

namespace Placeless

variable {f : α → α} {g : β → β}

theorem pure {a b : α} (h : b = f a) : Placeless f (Pure.pure a) (Pure.pure b) := fun _ => by
  rw [h]
  rfl

theorem bind {p p' : Parser α} {q q' : α → Parser β} (hp : Placeless f p p')
    (hq : ∀ a, Placeless g (q a) (q' (f a))) : Placeless g (p >>= q) (p' >>= q') := by
  intro s
  show EStateM.bind p' q' s.bare = bareResult g (EStateM.bind p q s)
  unfold EStateM.bind
  rw [hp s]
  cases p s with
  | ok a t => exact hq a t
  | error failure t => rfl

theorem ite {c : Prop} [Decidable c] {p p' q q' : Parser α} (hp : Placeless f p p')
    (hq : Placeless f q q') : Placeless f (if c then p else q) (if c then p' else q') := by
  split
  · exact hp
  · exact hq

theorem onlyIf (condition : Bool) {p p' : Parser Unit} (hp : Placeless id p p') :
    Placeless id (Parser.onlyIf condition p) (Parser.onlyIf condition p') := ite hp (pure rfl)

theorem update {h h' : State → State} (heq : ∀ s, h' s.bare = (h s).bare) :
    Placeless id (Parser.update h) (Parser.update h') := fun s => by
  show EStateM.Result.ok () (h' s.bare) = _
  rw [heq]
  rfl

theorem get : Placeless State.bare (get : Parser State) get := fun _ => rfl

theorem current : Placeless Token.placeless Parser.current Parser.current := fun s => by
  show EStateM.Result.ok s.bare.current _ = _
  rw [s.current_bare]
  rfl

theorem lookahead : Placeless Token.placeless Parser.lookahead Parser.lookahead := fun s => by
  show EStateM.Result.ok s.bare.lookahead _ = _
  rw [s.lookahead_bare]
  rfl

theorem locate (t : Token) :
    Placeless (fun _ => .nowhere) (Parser.locate t) (Parser.locate t.placeless) := fun _ => rfl

theorem advance : Placeless id Parser.advance Parser.advance :=
  update fun s => s.advance_bare.symm

theorem take : Placeless Token.placeless Parser.take Parser.take := by
  apply bind current
  intro _
  apply bind advance
  intro _
  exact pure rfl

theorem complain (issue : Issue) (t : Token) :
    Placeless id (Parser.complain issue t) (Parser.complain issue.bare t.placeless) :=
  update fun s => (s.report_bare (s.finding issue t)).symm

theorem fail (issue : Issue) :
    Placeless f (Parser.fail issue : Parser α) (Parser.fail issue.bare) := fun s => by
  show EStateM.Result.error (s.bare.finding issue.bare s.bare.current) s.bare = _
  rw [s.current_bare]
  rfl

theorem failExpecting (what : Expectation) :
    Placeless f (Parser.failExpecting what : Parser α) (Parser.failExpecting what) :=
  bind current fun _ => fail _

theorem accept (kind : Kind) {q q' : Bool → Parser β} (h : ∀ b, Placeless g (q b) (q' b)) :
    Placeless g (Parser.accept kind >>= q) (Parser.accept kind >>= q') := by
  have haccept : Placeless (fun b => b) (Parser.accept kind) (Parser.accept kind) := by
    refine bind current fun t => ?_
    simp only [Token.kind_placeless]
    exact ite (bind advance fun _ => pure rfl) (pure rfl)
  exact bind haccept h

theorem expect (kind : Kind) (place : Place) :
    Placeless Token.placeless (Parser.expect kind place) (Parser.expect kind place) := by
  refine bind current fun t => ?_
  simp only [Token.kind_placeless]
  exact ite (bind advance fun _ => pure rfl) (failExpecting _)

/-! ## Expressions

A name that is written to is looked up by its spelling, and whether it may be written to does not
depend on where it was declared. -/

theorem numberLiteral (t : Token) :
    Placeless Expr.bare (Parser.numberLiteral t) (Parser.numberLiteral t.placeless) := by
  refine bind (locate t) fun loc => ?_
  rw [Token.numeral?_placeless]
  split
  · exact pure rfl
  · exact pure rfl
  · exact bind (complain _ t) fun _ => pure rfl

theorem charLiteral (t : Token) :
    Placeless Expr.bare (Parser.charLiteral t) (Parser.charLiteral t.placeless) := by
  refine bind (locate t) fun loc => ?_
  rw [Token.lexeme_placeless]
  split
  · exact pure rfl
  · exact bind (complain _ t) fun _ => pure rfl

theorem checkTarget (target : Expr) :
    Placeless id (Parser.checkTarget target) (Parser.checkTarget target.bare) := by
  refine update fun s => ?_
  cases target with
  | ident name loc =>
      dsimp only [Expr.bare]
      have hlookup : s.bare.scopes.lookup? name = (s.scopes.lookup? name).map Symbol.bare :=
        s.scopes.lookup?_bare name
      rw [hlookup]
      cases s.scopes.lookup? name with
      | none => rfl
      | some symbol =>
          dsimp only [Option.map_some]
          by_cases h : symbol.mutability ≠ .mutable ∧ symbol.assigned
          · rw [if_pos h, s.report_bare]
            exact if_pos h
          · rw [if_neg h]
            refine (if_neg h).trans ?_
            rw [State.bare, State.bare, ← s.scopes.markAssigned_bare]
  | _ => exact (s.report_bare ⟨.notAssignable, _, 1⟩).symm

theorem stepNode (t : Token) (step : Step) (overflow : Overflow) (fixity : Fixity)
    (operand : Expr) :
    Placeless Expr.bare (Parser.stepNode t step overflow fixity operand)
      (Parser.stepNode t.placeless step overflow fixity operand.bare) := by
  apply bind (checkTarget operand)
  intro _
  apply bind (locate t)
  intro _
  exact pure rfl

/-- The parsers of expressions with one amount of fuel. -/
structure Expressions (fuel : Nat) : Prop where
  expression : Placeless Expr.bare (expressionWithin fuel) (expressionWithin fuel)
  climb : ∀ least lhs,
    Placeless Expr.bare (climbWithin fuel least lhs) (climbWithin fuel least lhs.bare)
  unary : Placeless Expr.bare (unaryWithin fuel) (unaryWithin fuel)
  primary : Placeless Expr.bare (primaryWithin fuel) (primaryWithin fuel)
  arguments : Placeless Expr.bareAll (argumentsWithin fuel) (argumentsWithin fuel)
  expressions : Placeless Expr.bareAll (expressionsWithin fuel) (expressionsWithin fuel)

namespace Expressions

variable {fuel : Nat} (h : Expressions fuel)
include h

theorem extendOperand (op : BinaryOp) (operand : Expr) :
    Placeless Expr.bare (Parser.extendOperand (climbWithin fuel) op operand)
      (Parser.extendOperand (climbWithin fuel) op operand.bare) := by
  refine bind current fun t => ?_
  rw [Token.kind_placeless]
  split
  · exact h.climb _ operand
  · exact pure rfl

theorem climb_succ (least : Nat) (lhs : Expr) :
    Placeless Expr.bare (climbWithin (fuel + 1) least lhs)
      (climbWithin (fuel + 1) least lhs.bare) := by
  rw [climbWithin, climbWithin]
  refine bind current fun t => ?_
  rw [Token.kind_placeless]
  split
  · refine ite (pure rfl) ?_
    apply bind advance
    intro _
    refine bind (stepNode t _ _ _ _) ?_
    intro _
    exact h.climb least _
  · refine ite (pure rfl) ?_
    apply bind advance
    intro _
    apply bind h.unary
    intro operand
    refine bind (h.extendOperand _ operand) ?_
    intro rhs
    refine bind (onlyIf _ (checkTarget lhs)) ?_
    intro _
    apply bind (locate t)
    intro loc
    exact h.climb least (.binary _ lhs rhs loc)
  · exact pure rfl

theorem unary_succ : Placeless Expr.bare (unaryWithin (fuel + 1)) (unaryWithin (fuel + 1)) := by
  rw [unaryWithin]
  refine bind current fun t => ?_
  simp only [Token.kind_placeless]
  split
  · apply bind advance
    intro _
    apply bind h.unary
    intro _
    apply bind (locate t)
    intro _
    exact pure rfl
  · split
    · apply bind advance
      intro _
      apply bind h.primary
      intro _
      exact stepNode t _ _ _ _
    · exact h.primary

theorem primary_succ :
    Placeless Expr.bare (primaryWithin (fuel + 1)) (primaryWithin (fuel + 1)) := by
  rw [primaryWithin]
  refine bind current fun t => ?_
  simp only [Token.kind_placeless, Token.lexeme_placeless]
  have hliteral {e : Location → Expr} (he : ∀ loc, e .nowhere = (e loc).bare) :
      Placeless Expr.bare (do return e (← Parser.locate t))
        (do return e (← Parser.locate t.placeless)) :=
    bind (locate t) fun loc => pure (he loc)
  split
  · exact bind advance fun _ => numberLiteral t
  · exact bind advance fun _ => hliteral fun _ => rfl
  · exact bind advance fun _ => hliteral fun _ => rfl
  · exact bind advance fun _ => hliteral fun _ => rfl
  · exact bind advance fun _ => charLiteral t
  · refine bind lookahead fun next => ?_
    simp only [Token.kind_placeless]
    refine ite ?_ ?_
    · apply bind advance
      intro _
      apply bind advance
      intro _
      apply bind h.arguments
      intro _
      refine bind (expect _ _) ?_
      intro _
      apply bind (locate t)
      intro _
      exact pure rfl
    · apply bind advance
      intro _
      apply bind get
      intro s
      -- whether a name is declared does not depend on where
      rw [show s.bare.scopes = s.scopes.bare from rfl, s.scopes.isVisible_bare]
      refine bind (onlyIf _ (complain (.undeclared t.lexeme) t)) ?_
      intro _
      apply hliteral
      intro _
      rfl
  · apply bind advance
    intro _
    apply bind h.expression
    intro _
    refine bind (expect _ _) ?_
    intro _
    exact pure rfl
  · exact failExpecting _

theorem arguments_succ :
    Placeless Expr.bareAll (argumentsWithin (fuel + 1)) (argumentsWithin (fuel + 1)) := by
  rw [argumentsWithin]
  refine bind current fun t => ?_
  simp only [Token.kind_placeless]
  exact ite (pure rfl) h.expressions

theorem expressions_succ :
    Placeless Expr.bareAll (expressionsWithin (fuel + 1)) (expressionsWithin (fuel + 1)) := by
  rw [expressionsWithin]
  apply bind h.expression
  intro _
  refine accept _ ?_
  intro _
  exact ite (bind h.expressions fun _ => pure rfl) (pure rfl)

end Expressions

theorem expressionParsers (fuel : Nat) : Expressions fuel := by
  induction fuel with
  | zero =>
      refine ⟨?_, fun least lhs => ?_, ?_, ?_, ?_, ?_⟩
      · rw [expressionWithin]; exact failExpecting _
      · rw [climbWithin, climbWithin]; exact failExpecting _
      · rw [unaryWithin]; exact failExpecting _
      · rw [primaryWithin]; exact failExpecting _
      · rw [argumentsWithin]; exact failExpecting _
      · rw [expressionsWithin]; exact failExpecting _
  | succ fuel ih =>
      refine ⟨?_, ih.climb_succ, ih.unary_succ, ih.primary_succ, ih.arguments_succ,
        ih.expressions_succ⟩
      rw [expressionWithin]
      exact bind ih.unary fun lhs => ih.climb 0 lhs

/-- As many tokens are left to read without their places. -/
theorem length_unread (s : State) : s.bare.unread.length = s.unread.length := List.length_map ..

theorem expression : Placeless Expr.bare Parser.expression Parser.expression :=
  bind get fun s => by
    rw [length_unread]
    exact (expressionParsers _).expression

theorem expressions : Placeless Expr.bareAll Parser.expressions Parser.expressions :=
  bind get fun s => by
    rw [length_unread]
    exact (expressionParsers _).expressions

/-! ## Types and the heads of functions

The parsers of arguments are given those read before. Without places these are still the same names,
so that a name that stands twice among them is found as before. -/

theorem typeExpr (place : Place) :
    Placeless TypeExpr.bare (Parser.typeExpr place) (Parser.typeExpr place) := by
  refine bind current fun t => ?_
  simp only [Token.kind_placeless, Token.lexeme_placeless]
  split
  · apply bind advance
    intro _
    apply bind (locate t)
    intro _
    exact pure rfl
  · apply bind advance
    intro _
    apply bind (locate t)
    intro _
    exact pure rfl
  · apply bind advance
    intro _
    apply bind (locate t)
    intro _
    exact pure rfl
  · exact failExpecting _

theorem furtherTypes (fuel : Nat) :
    Placeless (List.map TypeExpr.bare) (Parser.furtherTypes fuel) (Parser.furtherTypes fuel) := by
  induction fuel with
  | zero => exact pure rfl
  | succ fuel ih =>
      refine accept _ ?_
      intro _
      refine ite ?_ (pure rfl)
      refine bind (typeExpr _) ?_
      intro _
      apply bind ih
      intro _
      exact pure rfl

theorem declare (symbol : Symbol) (t : Token) :
    Placeless id (Parser.declare symbol t) (Parser.declare symbol.bare t.placeless) := by
  refine update fun s => ?_
  rw [show s.bare.scopes = s.scopes.bare from rfl, s.scopes.declare_bare]
  cases s.scopes.declare symbol with
  | mk done scopes =>
      cases done with
      | true => rfl
      | false => exact (s.report_bare (s.finding (.redefinedSymbol symbol.name) t)).symm

theorem declareFunction (name : Token) (isExtern : Bool) :
    Placeless id (Parser.declareFunction name isExtern)
      (Parser.declareFunction name.placeless isExtern) := by
  refine bind (update fun s => ?_) fun _ => bind (locate name) fun loc =>
    declare ⟨name.lexeme, .function, .constant, true, loc⟩ name
  rw [show s.bare.scopes = s.scopes.bare from rfl, s.scopes.currentKind_bare]
  simp only [Token.lexeme_placeless]
  split <;> rfl

theorem param (before : List Param) :
    Placeless Param.bare (Parser.param before) (Parser.param (before.map Param.bare)) := by
  refine bind (expect _ _) fun name => ?_
  have hbefore : (before.map Param.bare).any (·.name == name.lexeme) =
      before.any (·.name == name.lexeme) := List.any_map ..
  rw [Token.lexeme_placeless, hbefore, List.length_map]
  refine bind (onlyIf _ (complain (.redefinedArgument name.lexeme) name)) ?_
  intro _
  refine bind (expect _ _) ?_
  intro _
  refine bind (typeExpr _) ?_
  intro _
  refine bind (onlyIf _ (complain .tooManyArguments name)) ?_
  intro _
  apply bind (locate name)
  intro _
  exact pure rfl

theorem paramsFrom (fuel : Nat) (before : List Param) :
    Placeless (List.map Param.bare) (Parser.paramsFrom fuel before)
      (Parser.paramsFrom fuel (before.map Param.bare)) := by
  induction fuel generalizing before with
  | zero => exact pure rfl
  | succ fuel ih =>
      apply bind (param before)
      intro p
      refine accept _ ?_
      intro _
      have hall : before.map Param.bare ++ [p.bare] = (before ++ [p]).map Param.bare := by
        rw [List.map_append]
        rfl
      rw [hall]
      exact ite (ih _) (pure rfl)

theorem params : Placeless (List.map Param.bare) Parser.params Parser.params := by
  refine bind get fun s => ?_
  rw [s.current_bare, length_unread]
  simp only [Token.kind_placeless]
  exact ite (pure rfl) (paramsFrom _ [])

theorem returnTypes (isExtern : Bool) :
    Placeless (List.map TypeExpr.bare) (Parser.returnTypes isExtern)
      (Parser.returnTypes isExtern) := by
  refine accept _ fun _ => ite ?_ ?_
  · refine bind (typeExpr _) ?_
    intro _
    apply bind get
    intro s
    rw [length_unread]
    exact bind (furtherTypes _) fun _ => pure rfl
  · refine bind current fun t => ?_
    simp only [Token.kind_placeless]
    exact ite (bind (locate t) fun _ => pure rfl) (failExpecting _)

theorem prototype (isExtern : Bool) :
    Placeless Prototype.bare (Parser.prototype isExtern) (Parser.prototype isExtern) := by
  apply bind take
  intro keyword
  refine bind (expect _ _) ?_
  intro name
  simp only [Token.kind_placeless, Token.lexeme_placeless]
  refine bind (declareFunction name _) ?_
  intro _
  refine bind (expect _ _) ?_
  intro _
  apply bind params
  intro _
  refine bind (expect _ _) ?_
  intro _
  refine bind (returnTypes _) ?_
  intro _
  apply bind (locate name)
  intro _
  exact pure rfl

/-! ## Statements

What is read before a binding is finished is given to it: its name, its type and its value, each
without its places. -/

theorem finishBinding (name : Token) (type : Option TypeExpr) (init : Option Expr)
    (mutability : Mutability) :
    Placeless Statement.bare (Parser.finishBinding name type init mutability)
      (Parser.finishBinding name.placeless (type.map TypeExpr.bare) (init.map Expr.bare)
        mutability) := by
  refine bind (locate name) fun loc => ?_
  rw [Option.isSome_map]
  exact bind (declare ⟨name.lexeme, .value, mutability, init.isSome, loc⟩ name) fun _ => pure rfl

theorem optionalType :
    Placeless (Option.map TypeExpr.bare) Parser.optionalType Parser.optionalType :=
  accept _ fun _ => ite (bind (typeExpr _) fun _ => pure rfl) (pure rfl)

theorem optionalInit :
    Placeless (Option.map Expr.bare) Parser.optionalInit Parser.optionalInit :=
  accept _ fun _ => ite (bind expression fun _ => pure rfl) (pure rfl)

theorem keywordBinding : Placeless Statement.bare Parser.keywordBinding Parser.keywordBinding := by
  apply bind take
  intro keyword
  refine bind (expect _ _) ?_
  intro name
  apply bind optionalType
  intro type
  apply bind optionalInit
  intro init
  refine accept _ ?_
  intro _
  rw [Option.isNone_map]
  exact bind (onlyIf _ (complain (.uninitialized name.lexeme) name)) fun _ =>
    finishBinding name type init _

/-- The statements of a block and its place. -/
def bareBlock (b : List Statement × Location) : List Statement × Location :=
  (Statement.bareAll b.1, .nowhere)

section

variable {inner : Parser (List Statement)} (hinner : Placeless Statement.bareAll inner inner)
include hinner

theorem block : Placeless bareBlock (Parser.block inner) (Parser.block inner) := by
  refine bind (expect _ _) ?_
  intro opening
  refine bind (update fun s => (s.pushScope_bare _).symm) ?_
  intro _
  apply bind hinner
  intro _
  refine bind (update fun s => s.popScope_bare.symm) ?_
  intro _
  apply bind (locate opening)
  intro _
  exact pure rfl

theorem namedBlock (name : Token) :
    Placeless Statement.bare (Parser.namedBlock inner name)
      (Parser.namedBlock inner name.placeless) := by
  apply bind get
  intro _
  refine bind (onlyIf _ (complain .namedBlockOutsideFunction name)) ?_
  intro _
  apply bind (block hinner)
  intro _
  apply bind (locate name)
  intro _
  exact pure rfl

theorem nameBinding :
    Placeless Statement.bare (Parser.nameBinding inner) (Parser.nameBinding inner) := by
  have hdefine (name : Token) (mutability : Mutability) :
      Placeless Statement.bare
        (do
          let node ← Parser.finishBinding name none (some (← Parser.expression)) mutability
          let _ ← Parser.accept (.mark .semicolon)
          return node)
        (do
          let node ← Parser.finishBinding name.placeless none (some (← Parser.expression)) mutability
          let _ ← Parser.accept (.mark .semicolon)
          return node) := by
    apply bind expression
    intro init
    refine bind (finishBinding name none (some init) _) ?_
    intro _
    refine accept _ ?_
    intro _
    exact pure rfl
  apply bind take
  intro name
  apply bind take
  intro sign
  simp only [Token.kind_placeless]
  split
  · exact hdefine name _
  · exact hdefine name _
  · refine bind current fun t => ?_
    simp only [Token.kind_placeless]
    refine ite (namedBlock hinner name) ?_
    refine bind (typeExpr _) ?_
    intro type
    apply bind optionalInit
    intro init
    refine bind (finishBinding name (some type) init _) ?_
    intro _
    refine accept _ ?_
    intro _
    exact pure rfl

end

theorem returnValues : Placeless Expr.bareAll Parser.returnValues Parser.returnValues := by
  refine bind current fun t => ?_
  rw [Token.kind_placeless]
  exact ite (pure rfl) expressions

theorem returnStatement :
    Placeless Statement.bare Parser.returnStatement Parser.returnStatement := by
  apply bind take
  intro keyword
  apply bind get
  intro _
  refine bind (onlyIf _ (complain .returnOutsideFunction keyword)) ?_
  intro _
  apply bind returnValues
  intro _
  refine accept _ ?_
  intro _
  apply bind (locate keyword)
  intro _
  exact pure rfl

theorem statement {inner : Parser (List Statement)}
    (hinner : Placeless Statement.bareAll inner inner) :
    Placeless (Option.map Statement.bare) (Parser.statement inner) (Parser.statement inner) := by
  refine bind get fun s => ?_
  rw [s.current_bare, s.startsBinding_bare]
  simp only [Token.kind_placeless]
  split
  · exact bind keywordBinding fun _ => pure rfl
  · exact bind keywordBinding fun _ => pure rfl
  · exact bind keywordBinding fun _ => pure rfl
  · exact bind returnStatement fun _ => pure rfl
  · exact bind (block hinner) fun _ => pure rfl
  · exact bind advance fun _ => pure rfl
  · exact fail (.misplaced _)
  · exact fail (.misplaced _)
  · exact fail (.misplaced _)
  · exact fail (.misplaced _)
  · refine ite (bind (nameBinding hinner) fun _ => pure rfl) ?_
    apply bind expression
    intro _
    refine bind (expect _ _) ?_
    intro _
    exact pure rfl

/-- The nodes of a block without places are those of its parts. -/
theorem bareAll_append (node : Option Statement) (rest : List Statement) :
    (node.map Statement.bare).toList ++ Statement.bareAll rest =
      Statement.bareAll (node.toList ++ rest) := by
  cases node <;> rfl

theorem closeBlock : Placeless id Parser.closeBlock Parser.closeBlock :=
  update fun s => s.closeBlock_bare.symm

theorem statementsWithin (fuel : Nat) :
    Placeless Statement.bareAll (Parser.statementsWithin fuel) (Parser.statementsWithin fuel) := by
  induction fuel with
  | zero => exact bind closeBlock fun _ => pure rfl
  | succ fuel ih =>
      intro s
      -- whether a block ends depends on the kind of a token alone
      have hends : s.bare.endsBlock ↔ s.endsBlock := by
        rw [State.endsBlock, State.endsBlock, s.current_bare, Token.kind_placeless]
      by_cases he : s.endsBlock
      · rw [statementsWithin_end he, statementsWithin_end (hends.mpr he), s.closeBlock_bare.symm]
        rfl
      · have hstatement := statement ih s.exitPanic
        have hne := mt hends.mp he
        cases hs : Parser.statement (Parser.statementsWithin fuel) s.exitPanic with
        | ok node next =>
            rw [hs] at hstatement
            have hrest := ih next
            cases hr : Parser.statementsWithin fuel next with
            | ok rest last =>
                rw [hr] at hrest
                rw [statementsWithin_ok he hs hr, statementsWithin_ok hne hstatement hrest,
                  bareAll_append]
                rfl
            | error failure last => exact absurd hr (statementsWithin_ne_error _ _ _ _)
        | error failure next =>
            rw [hs] at hstatement
            rw [statementsWithin_error he hs, statementsWithin_error hne hstatement, length_unread,
              ← State.recover_bare]
            exact ih _

theorem statements : Placeless Statement.bareAll Parser.statements Parser.statements :=
  bind get fun s => by
    rw [length_unread]
    exact statementsWithin _

/-! ## Files

A file is read from a state without places to a report without them, round by round. The trees of
the one run are those of the other one with their places left out. -/

theorem namespaceLine :
    Placeless (Option.map Declaration.bare) Parser.namespaceLine Parser.namespaceLine := by
  apply bind take
  intro keyword
  refine bind (expect _ _) ?_
  intro name
  refine accept _ ?_
  intro _
  apply bind get
  intro s
  rw [show s.bare.namespaceLine = s.namespaceLine.map fun line =>
    (line.1, Location.nowhere.position.line) from rfl]
  cases s.namespaceLine with
  | some line => exact bind (complain (.namespaceTaken line.2) name) fun _ => pure rfl
  | none =>
      refine bind (update fun s => ?_) fun _ => bind (locate keyword) fun _ => pure rfl
      exact (State.pushScope_bare { s with namespaceLine := some (_, _) } .namespaceScope).symm

theorem functionBody : Placeless bareBlock Parser.functionBody Parser.functionBody := by
  refine bind (expect _ _) ?_
  intro opening
  apply bind statements
  intro _
  apply bind (locate opening)
  intro _
  exact pure rfl

theorem withinFunction {body : Parser α} (hbody : Placeless f body body) (params : List Param) :
    Placeless f (Parser.withinFunction params body)
      (Parser.withinFunction (params.map Param.bare) body) := by
  intro s
  rw [Parser.withinFunction, ← s.enterFunction_bare, hbody, Parser.withinFunction]
  cases body (s.enterFunction params) with
  | ok a t => exact congrArg (EStateM.Result.ok (f a)) (t.leaveFunction_bare _).symm
  | error failure t =>
      exact congrArg (EStateM.Result.error failure.bare) (t.leaveFunction_bare _).symm

theorem function : Placeless Declaration.bare Parser.function Parser.function := by
  apply bind (prototype false)
  intro head
  apply bind (withinFunction functionBody head.params)
  intro _
  exact pure rfl

theorem externFunction :
    Placeless Declaration.bare Parser.externFunction Parser.externFunction := by
  apply bind take
  intro keyword
  apply bind current
  intro t
  simp only [Token.kind_placeless]
  refine ite ?_ (failExpecting _)
  apply bind (prototype true)
  intro _
  refine accept _ ?_
  intro _
  exact pure rfl

theorem declaration :
    Placeless (Option.map Declaration.bare) Parser.declaration Parser.declaration := by
  refine bind get fun s => ?_
  rw [s.current_bare, s.startsBinding_bare]
  simp only [Token.kind_placeless]
  split
  · exact namespaceLine
  · exact bind function fun _ => pure rfl
  · exact bind function fun _ => pure rfl
  · exact bind externFunction fun _ => pure rfl
  · exact bind keywordBinding fun _ => pure rfl
  · exact bind keywordBinding fun _ => pure rfl
  · exact bind keywordBinding fun _ => pure rfl
  · exact bind returnStatement fun _ => pure rfl
  · exact ite (bind (nameBinding statements) fun _ => pure rfl) (failExpecting _)

end Placeless

/-- A file without places is read as the file is. -/
theorem declarations_bare (fuel : Nat) (s : State) :
    declarations fuel s.bare =
      ((declarations fuel s).1.map Declaration.bare, (declarations fuel s).2.bare) := by
  induction fuel generalizing s with
  | zero => rfl
  | succ fuel ih =>
      rw [declarations, declarations, s.current_bare, Placeless.length_unread]
      simp only [Token.kind_placeless]
      split
      · rfl
      · have hdeclaration := Placeless.declaration s.exitPanic
        rw [show s.bare.exitPanic = s.exitPanic.bare from rfl, hdeclaration]
        cases Parser.declaration s.exitPanic with
        | ok node next =>
            dsimp only [bareResult]
            rw [ih, List.map_append]
            cases node <;> rfl
        | error failure next =>
            dsimp only [bareResult]
            rw [← State.recover_bare, ih]

theorem State.run_bare (s : State) :
    s.bare.run = (s.run.1.map Declaration.bare, s.run.2.bare) := by
  rw [State.run, State.run, Placeless.length_unread, declarations_bare]

end Grammar

open Grammar

/-- A report with all its locations left out. -/
def Report.bare (r : Report) : Report :=
  { r with
    declarations := r.declarations.map Declaration.bare
    findings := r.findings.map Finding.bare }

theorem Report.bare_ofRun (result : List Declaration × State) :
    (Report.ofRun result).bare =
      Report.ofRun (result.1.map Declaration.bare, result.2.bare) := by
  have hname : (result.2.bare.namespaceLine.map (·.1)) = result.2.namespaceLine.map (·.1) :=
    Option.map_map ..
  rw [Report.ofRun, Report.ofRun, Report.bare, hname]
  rfl

/-- The tokens of a text without their places start it without its places. -/
theorem Buffer.startState_bare (b : Buffer) :
    b.startState.bare =
      State.start Location.nowhere.file
        ⟨b.tokens.map Token.placeless, (Stream.ofText b.chars).finish.placeless⟩ := by
  rw [startState, State.start, State.settle_bare, State.bare, ScopeTable.empty_bare]
  rfl

/-- Two buffers with the same tokens, apart from their places, have the same report apart from
places. -/
theorem Buffer.parse_bare {b b' : Buffer}
    (h : (Stream.ofText b.chars).all.map Token.bare = (Stream.ofText b'.chars).all.map Token.bare) :
    b.parse.bare = b'.parse.bare := by
  have hplaceless : (Stream.ofText b.chars).all.map Token.placeless =
      (Stream.ofText b'.chars).all.map Token.placeless := by
    have hall := congrArg (List.map fun l : Lexeme =>
      Token.mk l.kind l.text Location.nowhere.position) h
    rwa [List.map_map, List.map_map] at hall
  rw [Stream.all, Stream.all, List.map_append, List.map_append] at hplaceless
  obtain ⟨htokens, hfinish⟩ := List.append_inj' hplaceless rfl
  have hstart : b.startState.bare = b'.startState.bare := by
    rw [startState_bare, startState_bare, tokens, tokens, htokens, (List.cons.inj hfinish).1]
  rw [parse, parse, Report.bare_ofRun, Report.bare_ofRun, ← State.run_bare, ← State.run_bare, hstart]

end FrontEnd
