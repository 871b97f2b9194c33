import FrontEnd.Proofs.Parsing.Cleared
import FrontEnd.Proofs.Parsing.Fuel
import FrontEnd.Proofs.Parsing.Start

set_option autoImplicit false

/-! # The grammar without stray characters

Every parser of the grammar reads a state and the one cleared of stray characters in the same way:
it fails in both or in neither, yields the same node, and leaves the same tokens apart from stray
ones (`Oblivious`). One lemma for each parser, in the order of the grammar; it says what may start
where the parser starts and where it stops. So the trees of a text are those of the text with spaces
in place of its stray characters, unless one of these hides a sign behind a name
(`Buffer.parse_blanked`).

The current token is never a stray one, so a parser sees stray characters only when it looks at the
token behind the current one. It does so in two places, at a name that may start a binding or a
block and at a name that may be called. The spots keep track of where each of these may happen;
anywhere else a stray character behind a name does no harm.
-/

namespace FrontEnd

namespace Grammar

open FrontEnd.Grammar.Parser

variable {α β : Type}

/-! ## Parsers that do not see stray characters

What the two runs fail with is not compared, as nothing is said of what they have found before. What
matters is that both fail, and that both stand before the same token then. -/

/-- Two results with the same value, or two failures, in a state and in the one cleared of stray
characters. What may start behind a value depends on the value. -/
inductive Agree (after : α → Spot) :
    EStateM.Result Finding State α → EStateM.Result Finding State α → Prop where
  | ok {a : α} {s t : State} (h : Cleared (after a) s t) : Agree after (.ok a s) (.ok a t)
  | error {f g : Finding} {s t : State} (h : Cleared .neither s t) :
      Agree after (.error f s) (.error g t)

/-- The parser reads a state and the one cleared of stray characters in the same way. It starts at
`spot`, and stops, when it yields `a`, at `after a`. -/
def Oblivious (spot : Spot) (p : Parser α) (after : α → Spot) : Prop :=
  ∀ ⦃s t⦄, Cleared spot s t → Agree after (p s) (p t)

variable {s t : State}

namespace Agree

variable {after after' : α → Spot} {r r' : EStateM.Result Finding State α}

theorem of_eq {a b : α} (heq : b = a) (h : Cleared (after a) s t) :
    Agree after (.ok a s) (.ok b t) := by
  rw [heq]
  exact .ok h

theorem mono (hspot : ∀ a {s t}, Cleared (after a) s t → Cleared (after' a) s t)
    (h : Agree after r r') : Agree after' r r' := by
  cases h with
  | ok h => exact .ok (hspot _ h)
  | error h => exact .error h

theorem bind {p : Parser α} {q : α → Parser β} {last : β → Spot} (h : Agree after (p s) (p t))
    (hq : ∀ a, Oblivious (after a) (q a) last) : Agree last ((p >>= q) s) ((p >>= q) t) := by
  change Agree last (EStateM.bind p q s) (EStateM.bind p q t)
  unfold EStateM.bind
  generalize p s = r, p t = r' at h
  cases h with
  | ok h => exact hq _ h
  | error h => exact .error h

end Agree

namespace Oblivious

variable {spot spot' : Spot}

theorem pure (a : α) : Oblivious spot (Pure.pure a) fun _ => spot := fun _ _ h => .ok h

theorem bind {p : Parser α} {q : α → Parser β} {between : α → Spot} {after : β → Spot}
    (hp : Oblivious spot p between) (hq : ∀ a, Oblivious (between a) (q a) after) :
    Oblivious spot (p >>= q) after := fun _ _ h => (hp h).bind hq

theorem ite {c : Prop} [Decidable c] {p q : Parser α} {after : α → Spot}
    (hp : Oblivious spot p after) (hq : Oblivious spot q after) :
    Oblivious spot (if c then p else q) after := by
  split
  · exact hp
  · exact hq

/-- Where a statement may start, everything else may start too. -/
theorem of_statement {p : Parser α} (h : Oblivious spot p fun _ => .statement) :
    Oblivious spot p fun _ => spot' := by
  intro _ _ hclear
  apply (h hclear).mono
  intro _ _ _ h
  exact h.of_statement

theorem onlyIf (condition : Bool) {p : Parser Unit} (hp : Oblivious spot p fun _ => spot) :
    Oblivious spot (Parser.onlyIf condition p) fun _ => spot := ite hp (pure ())

theorem update {f : State → State}
    (h : ∀ ⦃s t⦄, Cleared spot s t → Cleared spot' (f s) (f t)) :
    Oblivious spot (Parser.update f) fun _ => spot' := fun _ _ hclear => .ok (h hclear)

theorem late {f : State → State} (hf : Late f) :
    Oblivious spot (Parser.update f) fun _ => spot :=
  update fun _ _ h => h.quiet hf.toQuiet (hf.frame h.frame)

theorem current : Oblivious spot Parser.current fun _ => spot := fun _ _ h => .of_eq h.current h

theorem locate (x : Token) : Oblivious spot (Parser.locate x) fun _ => spot :=
  fun _ _ h => .of_eq (h.frame.locate x) h

theorem take : Oblivious spot Parser.take fun x => .behind x.kind :=
  fun _ _ h => .of_eq h.current h.advance

theorem complain (issue : Issue) (x : Token) :
    Oblivious spot (Parser.complain issue x) fun _ => spot := update fun _ _ h => h.report _ _

theorem fail (issue : Issue) {after : α → Spot} : Oblivious spot (Parser.fail issue) after :=
  fun _ _ h => .error h.neither

theorem failExpecting (what : Expectation) {after : α → Spot} :
    Oblivious spot (Parser.failExpecting what) after := fun _ _ h => .error h.neither

theorem accept (kind : Kind) :
    Oblivious spot (Parser.accept kind) fun b => if b then .behind kind else spot := by
  intro s t h
  rw [accept_eq, accept_eq, h.current]
  split
  · next hk => exact .ok (h.advance_of_kind hk)
  · exact .ok h

/-- A semicolon may be missing where a statement may start. -/
theorem semicolon : Oblivious .statement (Parser.accept (.mark .semicolon)) fun _ => .statement :=
  fun _ _ h => (accept (.mark .semicolon) h).mono fun b _ _ h => by
    cases b with
    | true => exact h
    | false => exact h

theorem expect (kind : Kind) (place : Place) :
    Oblivious spot (Parser.expect kind place) fun _ => .behind kind := by
  intro s t h
  rw [expect_eq, expect_eq, h.current]
  split
  · next hk => exact .ok (h.advance_of_kind hk)
  · exact .error h.neither

/-! ## Expressions

An expression starts where an operand may, and stops where a statement may: a `;` behind it may be
left out before the next one, so the next token may be the name of a binding. -/

theorem numberLiteral (x : Token) : Oblivious spot (Parser.numberLiteral x) fun _ => spot := by
  refine bind (locate x) fun loc => ?_
  split
  · exact pure _
  · exact pure _
  · exact bind (complain _ x) fun _ => pure _

theorem charLiteral (x : Token) : Oblivious spot (Parser.charLiteral x) fun _ => spot := by
  refine bind (locate x) fun loc => ?_
  split
  · exact pure _
  · exact bind (complain _ x) fun _ => pure _

theorem checkTarget (target : Expr) : Oblivious spot (Parser.checkTarget target) fun _ => spot := by
  refine update fun s t h => h.quiet (.checkTarget target) ?_
  rw [Parser.checkTarget, State.behind_update, State.behind_update, h.frame.scopes]
  split
  · split
    · exact h.frame
    · split
      · exact h.frame.reports _ _
      · exact ⟨h.frame.file, rfl, h.frame.namespaceLine, h.frame.inFunction, h.frame.entryPoint⟩
  · exact h.frame.reports _ _

theorem stepNode (x : Token) (step : Step) (overflow : Overflow) (fixity : Fixity) (operand : Expr) :
    Oblivious spot (Parser.stepNode x step overflow fixity operand) fun _ => spot := by
  apply bind (checkTarget operand)
  intro _
  apply bind (locate x)
  intro _
  exact pure _

theorem extendOperand {climb : Nat → Expr → Parser Expr}
    (hclimb : ∀ least lhs, Oblivious .statement (climb least lhs) fun _ => .statement) (op : BinaryOp)
    (operand : Expr) :
    Oblivious .statement (Parser.extendOperand climb op operand) fun _ => .statement := by
  refine bind current fun x => ?_
  split
  · exact hclimb ..
  · exact pure _

/-- The parsers of expressions do not see stray characters, with any fuel. -/
structure Expressions (fuel : Nat) : Prop where
  expression : Oblivious .operand (expressionWithin fuel) fun _ => .statement
  climb : ∀ least lhs, Oblivious .statement (climbWithin fuel least lhs) fun _ => .statement
  unary : Oblivious .operand (unaryWithin fuel) fun _ => .statement
  primary : Oblivious .operand (primaryWithin fuel) fun _ => .statement
  arguments : Oblivious .operand (argumentsWithin fuel) fun _ => .neither
  expressions : Oblivious .operand (expressionsWithin fuel) fun _ => .statement

namespace Expressions

variable {fuel : Nat} (h : Expressions fuel)
include h

theorem climb_succ (least : Nat) (lhs : Expr) :
    Oblivious .statement (climbWithin (fuel + 1) least lhs) fun _ => .statement := by
  intro s t hclear
  unfold climbWithin
  rw [current_bind, current_bind, hclear.current]
  generalize hk : s.current.kind = kind
  have hadvance := hclear.advance_of_kind hk
  split
  · split
    · exact pure lhs hclear
    · rw [advance_bind, advance_bind]
      exact bind (stepNode ..) (fun _ => h.climb ..) hadvance
  · split
    · exact pure lhs hclear
    · refine bind h.unary (fun operand => ?_) hadvance
      refine bind (extendOperand h.climb ..) fun rhs => ?_
      refine bind (onlyIf _ (checkTarget _)) ?_
      intro _
      refine bind (locate _) ?_
      intro _
      exact h.climb ..
  · exact pure lhs hclear

theorem unary_succ : Oblivious .operand (unaryWithin (fuel + 1)) fun _ => .statement := by
  intro s t hclear
  unfold unaryWithin
  rw [current_bind, current_bind, hclear.current]
  generalize hop : unaryOp? s.current.kind = unary?
  split
  · have hadvance := hclear.advance
    rw [Spot.behind_of_unaryOp? hop] at hadvance
    refine bind h.unary ?_ hadvance
    intro _
    refine bind (locate _) ?_
    intro _
    exact pure _
  · generalize hk : s.current.kind = kind
    split
    · exact bind h.primary (fun _ => stepNode ..) (hclear.advance_of_kind hk).of_statement
    · exact h.primary hclear

/-- Whether a name is called depends on the token behind it. -/
theorem primary_succ : Oblivious .operand (primaryWithin (fuel + 1)) fun _ => .statement := by
  intro s t hclear
  rw [primaryWithin, current_bind, current_bind, hclear.current]
  generalize hk : s.current.kind = kind
  have hadvance := hclear.advance_of_kind hk
  have hliteral (e : Location → Expr) : Oblivious .statement
      (do return e (← Parser.locate s.current)) fun _ => .statement :=
    bind (locate _) fun _ => pure _
  split
  · exact numberLiteral _ hadvance
  · exact hliteral _ hadvance
  · exact hliteral _ hadvance
  · exact hliteral _ hadvance
  · exact charLiteral _ hadvance
  · rw [lookahead_bind, lookahead_bind]
    -- no stray character hides a parenthesis behind the name, so both runs call it or neither does
    have hcall : t.lookahead.kind = .mark .leftParen ↔ s.lookahead.kind = .mark .leftParen :=
      hclear.lookahead_iff hk rfl
    by_cases hparen : s.lookahead.kind = .mark .leftParen
    · rw [if_pos hparen, if_pos (hcall.mpr hparen)]
      have hopen : s.advance.current.kind = .mark .leftParen := by
        rw [State.advance_current (by rw [hparen]; simp), hparen]
      refine bind h.arguments ?_ (hadvance.advance_of_kind hopen)
      intro _
      refine bind (expect (.mark .rightParen) _) ?_
      intro _
      exact hliteral _
    · rw [if_neg hparen, if_neg (mt hcall.mp hparen), advance_bind, advance_bind, get_bind, get_bind,
        hadvance.frame.scopes]
      exact bind (onlyIf _ (complain ..)) (fun _ => hliteral _) hadvance
  · refine bind h.expression ?_ hadvance
    intro _
    refine bind (expect (.mark .rightParen) _) ?_
    intro _
    exact pure _
  · exact failExpecting _ hclear

theorem arguments_succ : Oblivious .operand (argumentsWithin (fuel + 1)) fun _ => .neither := by
  intro s t hclear
  rw [argumentsWithin, current_bind, current_bind, hclear.current]
  split
  · exact pure _ hclear.neither
  · exact of_statement h.expressions hclear

theorem expressions_succ :
    Oblivious .operand (expressionsWithin (fuel + 1)) fun _ => .statement := by
  rw [expressionsWithin]
  apply bind h.expression
  intro e
  refine bind (accept _) ?_
  intro b
  cases b with
  | true => exact bind h.expressions fun _ => pure _
  | false => exact pure _

end Expressions

theorem expressionParsers (fuel : Nat) : Expressions fuel := by
  induction fuel with
  | zero =>
      refine ⟨?_, fun least lhs => ?_, ?_, ?_, ?_, ?_⟩
      · rw [expressionWithin]; exact failExpecting _
      · rw [climbWithin]; exact failExpecting _
      · rw [unaryWithin]; exact failExpecting _
      · rw [primaryWithin]; exact failExpecting _
      · rw [argumentsWithin]; exact failExpecting _
      · rw [expressionsWithin]; exact failExpecting _
  | succ fuel ih =>
      refine ⟨?_, ih.climb_succ, ih.unary_succ, ih.primary_succ, ih.arguments_succ,
        ih.expressions_succ⟩
      rw [expressionWithin]
      exact bind ih.unary fun lhs => ih.climb 0 lhs

/-- There are no more tokens to read without the stray ones, so the fuel for all of them is enough. -/
theorem expression : Oblivious .operand Parser.expression fun _ => .statement := by
  intro s t h
  rw [← expressionWithin_eq h.right (expressionFuel_mono h.length_le)]
  exact (expressionParsers _).expression h

theorem expressions : Oblivious .operand Parser.expressions fun _ => .statement := by
  intro s t h
  rw [← expressionsWithin_eq h.right (expressionFuel_mono h.length_le)]
  exact (expressionParsers _).expressions h

/-! ## Types and the heads of functions

Names in the head of a function are neither bound nor called, so stray characters behind them are of
no account. -/

theorem typeExpr (place : Place) : Oblivious spot (Parser.typeExpr place) fun _ => .statement := by
  intro s t h
  rw [Parser.typeExpr, current_bind, current_bind, h.current]
  generalize hk : s.current.kind = kind
  have hadvance := h.advance_of_kind hk
  have htype (e : Location → TypeExpr) : Oblivious .statement
      (do return e (← Parser.locate s.current)) fun _ => .statement :=
    bind (locate _) fun _ => pure _
  split
  · exact htype _ hadvance
  · exact htype _ hadvance
  · exact htype _ hadvance
  · exact failExpecting _ h

theorem furtherTypes (fuel : Nat) :
    Oblivious .statement (Parser.furtherTypes fuel) fun _ => .statement := by
  induction fuel with
  | zero => exact pure _
  | succ fuel ih =>
      rw [Parser.furtherTypes]
      refine bind (accept _) fun b => ?_
      cases b with
      | true => exact bind (typeExpr _) fun _ => bind ih fun _ => pure _
      | false => exact pure _

theorem declare (symbol : Symbol) (x : Token) :
    Oblivious spot (Parser.declare symbol x) fun _ => spot := late (.declare symbol x)

theorem declareFunction (name : Token) (isExtern : Bool) :
    Oblivious spot (Parser.declareFunction name isExtern) fun _ => spot := by
  refine bind (update fun s t h => ?_) fun _ => bind (locate name) fun _ => declare ..
  dsimp only
  rw [h.frame.scopes]
  split
  · exact h.update ⟨h.frame.file, rfl, h.frame.namespaceLine, h.frame.inFunction, rfl⟩
      rfl rfl rfl rfl
  · exact h

theorem param (before : List Param) : Oblivious spot (Parser.param before) fun _ => .statement := by
  refine bind (expect ..) ?_
  intro name
  refine bind (onlyIf _ (complain _ name)) ?_
  intro _
  refine bind (expect ..) ?_
  intro _
  refine bind (typeExpr _) ?_
  intro _
  refine bind (onlyIf _ (complain _ name)) ?_
  intro _
  apply bind (locate name)
  intro _
  exact pure _

theorem paramsFrom (fuel : Nat) (before : List Param) :
    Oblivious .neither (Parser.paramsFrom fuel before) fun _ => .neither := by
  induction fuel generalizing before with
  | zero => exact pure _
  | succ fuel ih =>
      rw [Parser.paramsFrom]
      apply bind (param before)
      intro p
      refine bind (accept _) ?_
      intro b
      cases b with
      | true => exact fun _ _ h => ih _ h.neither
      | false => exact fun _ _ h => pure _ h.neither

theorem params : Oblivious spot Parser.params fun _ => .neither := by
  intro s t h
  rw [Parser.params, get_bind, get_bind, h.current]
  split
  · exact pure _ h.neither
  · rw [← paramsFrom_eq h.right [] (Nat.lt_succ_of_le h.length_le)]
    exact paramsFrom _ [] h.neither

theorem returnTypes (isExtern : Bool) :
    Oblivious .statement (Parser.returnTypes isExtern) fun _ => .statement := by
  rw [Parser.returnTypes]
  refine bind (accept _) fun b => ?_
  cases b with
  | true =>
      refine bind (typeExpr _) fun first s t h => ?_
      rw [get_bind, get_bind, ← bind_congr_left (furtherTypes_eq h.right h.length_le)]
      exact bind (furtherTypes _) (fun _ => pure _) h
  | false => exact bind current fun x => ite (bind (locate x) fun _ => pure _) (failExpecting _)

theorem prototype (isExtern : Bool) :
    Oblivious spot (Parser.prototype isExtern) fun _ => .statement := by
  apply bind take
  intro _
  refine bind (expect ..) ?_
  intro name
  refine bind (declareFunction ..) ?_
  intro _
  refine bind (expect ..) ?_
  intro _
  apply bind params
  intro _
  refine bind (expect ..) ?_
  intro _
  refine bind (returnTypes _) ?_
  intro _
  apply bind (locate name)
  intro _
  exact pure _

/-! ## Statements

Where a statement starts, the sign behind a name is looked for, and here it is needed that no sign is
hidden. Behind a keyword a name may be followed by anything. -/

theorem finishBinding (name : Token) (type : Option TypeExpr) (init : Option Expr)
    (mutability : Mutability) :
    Oblivious spot (Parser.finishBinding name type init mutability) fun _ => spot := by
  apply bind (locate name)
  intro _
  refine bind (declare ..) ?_
  intro _
  exact pure _

theorem optionalType : Oblivious .statement Parser.optionalType fun _ => .statement := by
  rw [Parser.optionalType]
  refine bind (accept _) fun b => ?_
  cases b with
  | true => exact bind (typeExpr _) fun _ => pure _
  | false => exact pure _

theorem optionalInit : Oblivious .statement Parser.optionalInit fun _ => .statement := by
  rw [Parser.optionalInit]
  refine bind (accept _) fun b => ?_
  cases b with
  | true => exact bind expression fun _ => pure _
  | false => exact pure _

theorem keywordBinding : Oblivious spot Parser.keywordBinding fun _ => .statement := by
  apply bind take
  intro _
  refine bind (expect ..) ?_
  intro name
  apply bind optionalType
  intro _
  apply bind optionalInit
  intro _
  apply bind semicolon
  intro _
  refine bind (onlyIf _ (complain _ name)) ?_
  intro _
  exact finishBinding ..

section

variable {inner : Parser (List Statement)}
  (hinner : Oblivious .statement inner fun _ => .statement)
include hinner

theorem block : Oblivious spot (Parser.block inner) fun _ => .statement := by
  refine bind (expect ..) ?_
  intro opening
  refine bind (late (.pushScope _)) ?_
  intro _
  apply bind hinner
  intro _
  refine bind (late .popScope) ?_
  intro _
  apply bind (locate opening)
  intro _
  exact pure _

theorem namedBlock (name : Token) :
    Oblivious spot (Parser.namedBlock inner name) fun _ => .statement := by
  intro s t h
  rw [Parser.namedBlock, get_bind, get_bind, h.frame.inFunction]
  refine bind (onlyIf _ (complain _ name)) ?_ h
  intro _
  apply bind (block hinner)
  intro _
  apply bind (locate name)
  intro _
  exact pure _

theorem nameBinding : Oblivious spot (Parser.nameBinding inner) fun _ => .statement := by
  have hdefine (name : Token) (mutability : Mutability) :
      Oblivious .operand (do
        let node ← Parser.finishBinding name none (some (← Parser.expression)) mutability
        let _ ← Parser.accept (.mark .semicolon)
        return node) fun _ => .statement := by
    apply bind expression
    intro _
    refine bind (finishBinding ..) ?_
    intro _
    apply bind semicolon
    intro _
    exact pure _
  apply bind take
  intro name
  apply bind take
  intro sign
  generalize sign.kind = kind
  split
  · exact hdefine name _
  · exact hdefine name _
  · refine bind current fun x => ite (namedBlock hinner name) ?_
    refine bind (typeExpr _) ?_
    intro _
    apply bind optionalInit
    intro _
    refine bind (finishBinding ..) ?_
    intro _
    apply bind semicolon
    intro _
    exact pure _

end

/-- What ends a `return` without values is no name. -/
theorem returnValues : Oblivious .operand Parser.returnValues fun _ => .statement := by
  intro s t h
  rw [Parser.returnValues, current_bind, current_bind, h.current]
  split
  · next hends =>
    refine pure _ (h.of_ne fun hname => ?_)
    rw [hname] at hends
    cases hends
  · exact expressions h

/-- A `return`, whose keyword is the current token. -/
theorem returnStatement (h : Cleared spot s t) (hk : s.current.kind = .word .returnWord) :
    Agree (fun _ => .statement) (Parser.returnStatement s) (Parser.returnStatement t) := by
  have hadvance := h.advance_of_kind hk
  rw [Parser.returnStatement, take_bind, take_bind, h.current, get_bind, get_bind,
    hadvance.frame.inFunction]
  refine bind (onlyIf _ (complain _ _)) ?_ hadvance
  intro _
  apply bind returnValues
  intro _
  apply bind semicolon
  intro _
  refine bind (locate _) ?_
  intro _
  exact pure _

theorem statement {inner : Parser (List Statement)}
    (hinner : Oblivious .statement inner fun _ => .statement) :
    Oblivious .statement (Parser.statement inner) fun _ => .statement := by
  intro s t h
  rw [Parser.statement, get_bind, get_bind, h.current, h.startsBinding_eq]
  generalize hk : s.current.kind = kind, startsBinding s = starts
  have hadvance := h.advance_of_kind hk
  split
  · exact bind keywordBinding (fun _ => pure _) h
  · exact bind keywordBinding (fun _ => pure _) h
  · exact bind keywordBinding (fun _ => pure _) h
  · exact (returnStatement h hk).bind fun _ => pure _
  · exact bind (block hinner) (fun _ => pure _) h
  · exact pure _ hadvance
  · exact fail _ h
  · exact fail _ h
  · exact fail _ h
  · exact fail _ h
  · split
    · exact bind (nameBinding hinner) (fun _ => pure _) h
    · refine bind expression ?_ h.of_statement
      intro _
      refine bind (expect (.mark .semicolon) _) ?_
      intro _
      exact pure _

theorem closeBlock : Oblivious .statement Parser.closeBlock fun _ => .statement :=
  update fun _ _ h => h.closeBlock

/-- Two runs through a block go on side by side, also where a statement fails. -/
theorem statementsWithin (fuel : Nat) :
    Oblivious .statement (Parser.statementsWithin fuel) fun _ => .statement := by
  induction fuel with
  | zero => exact bind closeBlock fun _ => pure _
  | succ fuel ih =>
      intro s t h
      rw [Parser.statementsWithin]
      beta_reduce
      rw [h.current]
      split
      · exact bind closeBlock (fun _ => pure _) h
      · have hstatement := statement ih h.exitPanic
        have hregular := Regular.statement (Regular.statementsWithin fuel)
        generalize hs : Parser.statement (Parser.statementsWithin fuel) s.exitPanic = r,
          Parser.statement (Parser.statementsWithin fuel) t.exitPanic = r' at hstatement
        cases hstatement with
        | ok hnext => exact bind ih (fun _ => pure _) hnext
        | error hnext => exact ih (h.exitPanic.recover (hregular.error hs).1 hnext _ _)

theorem statements : Oblivious .statement Parser.statements fun _ => .statement := by
  intro s t h
  rw [← statementsWithin_eq h.right (Nat.lt_succ_of_le h.length_le)]
  exact statementsWithin _ h

/-! ## Files

Recovery may stop at any token, but never between a name and a sign that a stray character hides, as
nothing is hidden in the file. So each round starts where nothing is hidden. -/

theorem namespaceLine : Oblivious spot Parser.namespaceLine fun _ => .statement := by
  apply bind take
  intro keyword
  refine bind (expect ..) ?_
  intro name
  apply bind semicolon
  intro _ s t h
  rw [get_bind, get_bind, h.frame.namespaceLine]
  cases s.namespaceLine with
  | some line => exact bind (complain _ name) (fun _ => pure _) h
  | none => exact bind (late (.setNamespace _)) (fun _ => bind (locate keyword) fun _ => pure _) h

theorem functionBody : Oblivious spot Parser.functionBody fun _ => .statement := by
  refine bind (expect ..) ?_
  intro opening
  apply bind statements
  intro _
  apply bind (locate opening)
  intro _
  exact pure _

theorem withinFunction {body : Parser α} {after : α → Spot} (hbody : Oblivious spot body after)
    (params : List Param) : Oblivious spot (Parser.withinFunction params body) after := by
  intro s t h
  have henter : Cleared spot (s.enterFunction params) (t.enterFunction params) :=
    h.update ⟨h.frame.file, congrArg (fun u : ScopeTable => declareParams params (u.push .function))
      h.frame.scopes, h.frame.namespaceLine, rfl, h.frame.entryPoint⟩ rfl rfl rfl rfl
  have hleave {spot' : Spot} {s' t' : State} (h' : Cleared spot' s' t') :
      Cleared spot' (s'.leaveFunction s.inFunction) (t'.leaveFunction s.inFunction) :=
    h'.quiet (Late.leaveFunction _).toQuiet ((Late.leaveFunction _).frame h'.frame)
  have hresult := hbody henter
  rw [Parser.withinFunction, Parser.withinFunction, h.frame.inFunction]
  generalize body (s.enterFunction params) = r, body (t.enterFunction params) = r' at hresult
  cases hresult with
  | ok h' => exact .ok (hleave h')
  | error h' => exact .error (hleave h')

theorem function : Oblivious spot Parser.function fun _ => .statement := by
  apply bind (prototype false)
  intro _
  refine bind (withinFunction functionBody _) ?_
  intro _
  exact pure _

theorem externFunction : Oblivious spot Parser.externFunction fun _ => .statement := by
  apply bind take
  intro _
  apply bind current
  intro _
  refine ite ?_ (failExpecting _)
  apply bind (prototype true)
  intro _
  apply bind semicolon
  intro _
  exact pure _

theorem declaration : Oblivious .statement Parser.declaration fun _ => .statement := by
  intro s t h
  rw [Parser.declaration, get_bind, get_bind, h.current, h.startsBinding_eq]
  generalize hk : s.current.kind = kind, startsBinding s = starts
  split
  · exact namespaceLine h
  · exact bind function (fun _ => pure _) h
  · exact bind function (fun _ => pure _) h
  · exact bind externFunction (fun _ => pure _) h
  · exact bind keywordBinding (fun _ => pure _) h
  · exact bind keywordBinding (fun _ => pure _) h
  · exact bind keywordBinding (fun _ => pure _) h
  · exact (returnStatement h hk).bind fun _ => pure _
  · exact ite (bind (nameBinding statements) fun _ => pure _) (failExpecting _) h

end Oblivious

/-- Two runs through a file go on side by side, also where a declaration fails. -/
theorem Cleared.declarations (h : Cleared .statement s t) (fuel : Nat) :
    (declarations fuel t).1 = (declarations fuel s).1 ∧
      Cleared .statement (declarations fuel s).2 (declarations fuel t).2 := by
  induction fuel generalizing s t with
  | zero => exact ⟨rfl, h⟩
  | succ fuel ih =>
      rw [Grammar.declarations, Grammar.declarations, h.current]
      split
      · exact ⟨rfl, h⟩
      · have hdeclaration := Oblivious.declaration h.exitPanic
        generalize hs : Parser.declaration s.exitPanic = r, Parser.declaration t.exitPanic = r'
          at hdeclaration
        cases hdeclaration with
        | ok hnext =>
            obtain ⟨hrest, hlast⟩ := ih hnext
            exact ⟨congrArg (_ ++ ·) hrest, hlast⟩
        | error hnext =>
            have hmoves := (Regular.declaration.error hs).1
            exact ih (h.exitPanic.recover hmoves hnext _ _)

theorem Cleared.run (h : Cleared .statement s t) :
    t.run.1 = s.run.1 ∧ Cleared .statement s.run.2 t.run.2 := by
  rw [← declarations_eq_run h.right h.length_le]
  exact h.declarations _

theorem Cleared.start (file : String) {stream : Stream} (hend : stream.finish.kind = .endOfFile)
    (hshown : hidesSign .statement stream.tokens = false) :
    Cleared .statement (State.start file stream)
      (State.start file ⟨withoutStrays stream.tokens, stream.finish⟩) := by
  unfold State.start
  exact settle ⟨rfl, rfl, rfl, rfl, rfl⟩ rfl (by exact hend) hshown

end Grammar

/-! ## Texts

A text with its stray characters blanked out has the tokens of the text but for the stray ones. Both
files start in states that are alike, and so they are read alike. -/

open Grammar

theorem Buffer.stream_blanked (name text : String) :
    Stream.ofText (ofText name (blanked text)).chars =
      ⟨withoutStrays (ofText name text).tokens, (Stream.ofText (ofText name text).chars).finish⟩ := by
  rw [chars_ofText, blanked, String.toList_ofList, Stream.ofText_blankOut, tokens, chars_ofText]

/-- Putting spaces in place of the stray characters of a text takes the stray tokens away and changes
no tree, as long as none of them hides a sign that is looked for behind a name. -/
theorem Buffer.parse_blanked (name text : String)
    (h : hidesSign .statement (ofText name text).tokens = false) :
    (ofText name (blanked text)).tokens = withoutStrays (ofText name text).tokens ∧
      (ofText name (blanked text)).parse.declarations = (ofText name text).parse.declarations := by
  have hstream := stream_blanked name text
  have hend : (Stream.ofText (ofText name text).chars).finish.kind = .endOfFile :=
    Stream.upTo_finish _ _
  have hstart : Cleared .statement (ofText name text).startState
      (ofText name (blanked text)).startState := by
    unfold startState
    rw [hstream]
    exact Cleared.start name hend h
  constructor
  · rw [tokens, hstream]
  · rw [parse, parse, Report.declarations_ofRun, Report.declarations_ofRun]
    exact hstart.run.1

/-- Stray characters behind the names of a function, an argument and a binding, and before a name. -/
theorem Buffer.parse_blanked_names :
    hidesSign .statement
        (ofText "names.tp" "fn f$(a$: int) \x7b let x$: int = $a; \x7d").tokens = false ∧
      (ofText "names.tp" (blanked "fn f$(a$: int) \x7b let x$: int = $a; \x7d")).tokens =
        withoutStrays (ofText "names.tp" "fn f$(a$: int) \x7b let x$: int = $a; \x7d").tokens ∧
      (ofText "names.tp" (blanked "fn f$(a$: int) \x7b let x$: int = $a; \x7d")).parse.declarations =
        (ofText "names.tp" "fn f$(a$: int) \x7b let x$: int = $a; \x7d").parse.declarations :=
  have hshown : hidesSign .statement
      (ofText "names.tp" "fn f$(a$: int) \x7b let x$: int = $a; \x7d").tokens = false := by decide
  ⟨hshown, parse_blanked "names.tp" "fn f$(a$: int) \x7b let x$: int = $a; \x7d" hshown⟩

/-- A stray character between a name and the sign that binds it: no binding is found. -/
theorem Buffer.declarations_hidden :
    hidesSign .statement (ofText "bind.tp" "x $:= 1;").tokens = true ∧
      (ofText "bind.tp" "x $:= 1;").parse.declarations = [] ∧
      (ofText "bind.tp" (blanked "x $:= 1;")).parse.declarations =
        [.statement (.bind ⟨"x", none, some (.int 1 ⟨"bind.tp", ⟨1, 7⟩⟩), .mutable,
          ⟨"bind.tp", ⟨1, 1⟩⟩⟩)] := by
  refine ⟨by decide, by rfl, by rfl⟩

end FrontEnd
