import FrontEnd.Grammar.State
import FrontEnd.Token.Numeral

set_option autoImplicit false

/-! # Expressions

An expression is a chain of operands with binary operators between them. The operators are
grouped by precedence climbing: `climb` takes an operand and extends it by the operators of at
least a given level, and the operand to the right of an operator is first extended by the tighter
operators behind it. Steps behind an operand apply to what was read so far.

The parsers take the depth of the recursion as fuel. `Parser.expression` starts with enough of it
for the unread tokens.
-/

namespace FrontEnd.Grammar

/-! ## Literals -/

/-- The text between the delimiters of a literal. -/
def withoutDelimiters (lexeme : String) : List Char := lexeme.toList.tail.dropLast

/-- The character that a letter behind a backslash stands for. -/
def unescapeLetter? : Char → Option Char
  | 'n' => some '\n'
  | 't' => some '\t'
  | 'r' => some '\r'
  | '0' => some '\x00'
  | '\\' => some '\\'
  | '\'' => some '\''
  | '"' => some '"'
  | _ => none

/-- The one character that a text stands for. -/
def unescape? : List Char → Option Char
  | [c] => if c = '\\' then none else some c
  | [c, letter] => if c = '\\' then unescapeLetter? letter else none
  | _ => none

namespace Parser

/-- The node of a number. One that is out of range counts as zero. -/
def numberLiteral (t : Token) : Parser Expr := do
  let loc ← locate t
  match t.numeral? with
  | some (.int value) => return .int value loc
  | some (.float value) => return .float value loc
  | none =>
    complain (.numberOutOfRange t.lexeme) t
    return .int 0 loc

/-- The node of a character literal. One that stands for no character counts as a null
character. -/
def charLiteral (t : Token) : Parser Expr := do
  let loc ← locate t
  match unescape? (withoutDelimiters t.lexeme) with
  | some c => return .char c loc
  | none =>
    complain .invalidCharacter t
    return .char '\x00' loc

/-! ## Writing to names -/

/-- Checks that an expression may be written to, and notes that it was. Only names can be written
to, and a name that is not mutable only as long as it has no value. -/
def checkTarget (target : Expr) : Parser Unit :=
  update fun s =>
    match target with
    | .ident name loc =>
      match s.scopes.lookup? name with
      | none => s
      | some symbol =>
        if symbol.mutability ≠ .mutable ∧ symbol.assigned then
          s.report ⟨.reassigned name, loc, name.length⟩
        else { s with scopes := s.scopes.markAssigned name }
    | _ => s.report ⟨.notAssignable, target.loc, 1⟩

/-- The node of a step, its operand written to. -/
def stepNode (t : Token) (step : Step) (overflow : Overflow) (fixity : Fixity) (operand : Expr) :
    Parser Expr := do
  checkTarget operand
  return .step step overflow fixity operand (← locate t)

/-! ## The grammar -/

/-- The operator that stands in front of an operand. -/
def unaryOp? : Kind → Option UnaryOp
  | .operator (.sub .plain) => some .negate
  | .mark .bang => some .not
  | .mark .tilde => some .complement
  | _ => none

/-- The least level of the operators that the right operand of `op` takes for itself, if the token
behind the operand has such a level. -/
def absorbedLevel? (op : BinaryOp) (behind : Kind) : Option Nat :=
  match behind.level? with
  | some level => if op.rightLevel ≤ level then some op.rightLevel else none
  | none => none

/-- The operand to the right of `op`, extended by `climb` with the operators that it takes for
itself. -/
def extendOperand (climb : Nat → Expr → Parser Expr) (op : BinaryOp) (operand : Expr) :
    Parser Expr := do
  match absorbedLevel? op (← current).kind with
  | some level => climb level operand
  | none => return operand

mutual

/-- An expression. -/
def expressionWithin : Nat → Parser Expr
  | 0 => failExpecting .expression
  | fuel + 1 => do
    let lhs ← unaryWithin fuel
    climbWithin fuel 0 lhs

/-- The operand `lhs`, extended by the operators of at least the level `least`. -/
def climbWithin : Nat → Nat → Expr → Parser Expr
  | 0, _, _ => failExpecting .expression
  | fuel + 1, least, lhs => do
    let t ← current
    match t.kind with
    | .step step overflow =>
      if Step.level < least then return lhs
      advance
      let node ← stepNode t step overflow .after lhs
      climbWithin fuel least node
    | .operator op =>
      if op.level < least then return lhs
      advance
      let operand ← unaryWithin fuel
      let rhs ← extendOperand (climbWithin fuel) op operand
      onlyIf op.isAssignment (checkTarget lhs)
      climbWithin fuel least (.binary op lhs rhs (← locate t))
    | _ => return lhs

/-- An operand with the operators in front of it. -/
def unaryWithin : Nat → Parser Expr
  | 0 => failExpecting .expression
  | fuel + 1 => do
    let t ← current
    match unaryOp? t.kind with
    | some op =>
      advance
      let operand ← unaryWithin fuel
      return .unary op operand (← locate t)
    | none =>
      match t.kind with
      | .step step overflow =>
        advance
        let operand ← primaryWithin fuel
        stepNode t step overflow .before operand
      | _ => primaryWithin fuel

/-- A literal, a name, a call, or an expression in parentheses. -/
def primaryWithin : Nat → Parser Expr
  | 0 => failExpecting .expression
  | fuel + 1 => do
    let t ← current
    match t.kind with
    | .number =>
      advance
      numberLiteral t
    | .word .trueWord =>
      advance
      return .bool true (← locate t)
    | .word .falseWord =>
      advance
      return .bool false (← locate t)
    | .stringLiteral =>
      advance
      return .string (String.ofList (withoutDelimiters t.lexeme)) (← locate t)
    | .charLiteral =>
      advance
      charLiteral t
    | .identifier =>
      if (← lookahead).kind = .mark .leftParen then
        advance
        advance
        let args ← argumentsWithin fuel
        let _ ← expect (.mark .rightParen) .behindArguments
        return .call t.lexeme args (← locate t)
      else
        advance
        onlyIf (!(← get).scopes.isVisible t.lexeme) (complain (.undeclared t.lexeme) t)
        return .ident t.lexeme (← locate t)
    | .mark .leftParen =>
      advance
      let e ← expressionWithin fuel
      let _ ← expect (.mark .rightParen) .behindExpression
      return e
    | _ => failExpecting .expression

/-- The arguments of a call: none if the closing parenthesis follows. -/
def argumentsWithin : Nat → Parser (List Expr)
  | 0 => failExpecting .expression
  | fuel + 1 => do
    if (← current).kind = .mark .rightParen then return []
    expressionsWithin fuel

/-- One or more expressions with commas between them. -/
def expressionsWithin : Nat → Parser (List Expr)
  | 0 => failExpecting .expression
  | fuel + 1 => do
    let e ← expressionWithin fuel
    if ← accept (.mark .comma) then
      return e :: (← expressionsWithin fuel)
    else
      return [e]

end

/-- Fuel for an expression out of `n` unread tokens: between two tokens that are read, the
recursion goes down five levels at most. -/
def expressionFuel (n : Nat) : Nat := 5 * n + 5

/-- An expression. -/
def expression : Parser Expr := do expressionWithin (expressionFuel (← get).unread.length)

/-- One or more expressions with commas between them. -/
def expressions : Parser (List Expr) := do
  expressionsWithin (expressionFuel (← get).unread.length)

end Parser

end FrontEnd.Grammar
