import FrontEnd.Proofs.Parsing.Pointing
import FrontEnd.Token.Numeral

set_option autoImplicit false

/-! # The nodes of a tree

A `Node` is any part of a tree that has a location of its own, at any depth: `Declaration.nodes`
lists them all. A node is known by one token (`Node.KnownBy`): its name, its operator, its keyword,
its opening brace, or the literal itself. Only a return type that is not written has no token of its
own, and borrows the one that stands in its place (`Buffer.EndsHead`).

What is known of a node is what the token tells: the value of a literal, the spelling of a name or
of an operator. Two nodes may be known by one token, as a function and its head are.
-/

namespace FrontEnd

open Grammar

/-- A part of a tree that has a location. Return types come with the head of their function. -/
inductive Node where
  | expr (e : Expr)
  | type (e : TypeExpr)
  | param (p : Param)
  | returnType (head : Prototype) (e : TypeExpr)
  | prototype (head : Prototype)
  | function (head : Prototype)
  | binding (x : Binding)
  | ret (loc : Location)
  | block (loc : Location)
  | namedBlock (name : String) (loc : Location)
  | namespaceLine (name : String) (loc : Location)

/-- The location of a type. -/
def TypeExpr.loc : TypeExpr → Location
  | void loc | named _ loc => loc

/-- The location of a node. -/
def Node.loc : Node → Location
  | expr e => e.loc
  | type e | returnType _ e => e.loc
  | param p => p.loc
  | prototype head | function head => head.loc
  | binding x => x.loc
  | ret loc | block loc | namedBlock _ loc | namespaceLine _ loc => loc

/-! ## All nodes -/

namespace Expr

mutual

/-- The nodes of an expression, itself the first. -/
def nodes : Expr → List Node
  | int value loc => [.expr (int value loc)]
  | float value loc => [.expr (float value loc)]
  | bool value loc => [.expr (bool value loc)]
  | string value loc => [.expr (string value loc)]
  | char value loc => [.expr (char value loc)]
  | ident name loc => [.expr (ident name loc)]
  | unary op operand loc => .expr (unary op operand loc) :: operand.nodes
  | binary op lhs rhs loc => .expr (binary op lhs rhs loc) :: (lhs.nodes ++ rhs.nodes)
  | step s overflow fixity operand loc =>
    .expr (step s overflow fixity operand loc) :: operand.nodes
  | call callee args loc => .expr (call callee args loc) :: nodesEach args

/-- The nodes of some expressions. -/
def nodesEach : List Expr → List Node
  | [] => []
  | e :: rest => e.nodes ++ nodesEach rest

end

end Expr

/-- The nodes of a binding. -/
def Binding.nodes (b : Binding) : List Node :=
  .binding b :: (b.type.toList.map .type ++ Expr.nodesEach b.init.toList)

namespace Statement

mutual

/-- The nodes of a statement. -/
def nodes : Statement → List Node
  | expr e => e.nodes
  | bind b => b.nodes
  | ret values loc => .ret loc :: Expr.nodesEach values
  | block statements loc => .block loc :: nodesEach statements
  | namedBlock name nameLoc statements loc =>
    .namedBlock name nameLoc :: .block loc :: nodesEach statements

/-- The nodes of some statements. -/
def nodesEach : List Statement → List Node
  | [] => []
  | s :: rest => s.nodes ++ nodesEach rest

end

end Statement

/-- The nodes of the head of a function. -/
def Prototype.nodes (head : Prototype) : List Node :=
  .prototype head ::
    (head.params.flatMap (fun p => [.param p, .type p.type]) ++ head.returns.map (.returnType head))

/-- The nodes of a declaration. -/
def Declaration.nodes : Declaration → List Node
  | namespaceLine name loc => [.namespaceLine name loc]
  | function head body loc =>
    .function head :: (head.nodes ++ .block loc :: Statement.nodesEach body)
  | externFunction head => head.nodes
  | statement s => s.nodes

/-! ## The tokens of the nodes -/

/-- The token that an expression is known by. A number that is out of range counts as zero, and a
character literal that stands for no character as a null character. -/
def Expr.KnownBy (t : Token) : Expr → Prop
  | int value _ =>
    t.kind = .number ∧ (t.numeral? = some (.int value) ∨ t.numeral? = none ∧ value = 0)
  | float value _ => t.kind = .number ∧ t.numeral? = some (.float value)
  | bool value _ => t.lexeme = if value then "true" else "false"
  | string value _ =>
    t.kind = .stringLiteral ∧ value = String.ofList (withoutDelimiters t.lexeme)
  | char value _ =>
    t.kind = .charLiteral ∧ value = (unescape? (withoutDelimiters t.lexeme)).getD '\x00'
  | ident name _ => t.kind = .identifier ∧ t.lexeme = name
  | unary op _ _ => t.lexeme = op.symbol
  | binary op _ _ _ => t.lexeme = op.symbol
  | step s overflow _ _ _ => t.lexeme = overflow.mark ++ s.symbol
  | call callee _ _ => t.kind = .identifier ∧ t.lexeme = callee

/-- The token that a written type is known by. A return type that is not written has no such token,
although the tree says `void`. -/
def TypeExpr.KnownBy (t : Token) : TypeExpr → Prop
  | void _ => t.lexeme = "void"
  | named name _ => t.lexeme = name

/-- The token `t` stands behind the argument list of a function: it is the first valid one behind
the first closing parenthesis behind the name of the function. -/
def Buffer.EndsHead (b : Buffer) (head : Prototype) (t : Token) : Prop :=
  ∃ before name inner right skipped behind,
    b.allTokens = before ++ name :: (inner ++ right :: (skipped ++ t :: behind)) ∧
      head.loc = ⟨b.name, name.position⟩ ∧
      (∀ x ∈ inner, x.kind ≠ .mark .rightParen) ∧ right.kind = .mark .rightParen ∧
      (∀ x ∈ skipped, x.kind = .invalid) ∧ t.kind ≠ .invalid

/-- The token that a return type is known by. Behind a colon it is written. Without a colon it is
`void`, and known by the token that stands behind the argument list. -/
def Buffer.KnowsReturn (b : Buffer) (head : Prototype) (e : TypeExpr) (t : Token) : Prop :=
  (∃ colon, b.EndsHead head colon ∧ colon.kind = .mark .colon) ∧ e.KnownBy t ∨
    b.EndsHead head t ∧ t.kind ≠ .mark .colon ∧ head.returns = [e] ∧ e = .void e.loc

/-- The token that a node is known by. It is the one that a reader would point at: the operator of a
sum, the brace of a block, the name of a call. -/
def Node.KnownBy (b : Buffer) (t : Token) : Node → Prop
  | expr e => e.KnownBy t
  | type e => e.KnownBy t
  | param p => t.kind = .identifier ∧ t.lexeme = p.name
  | returnType head e => b.KnowsReturn head e t
  | prototype head | function head => t.kind = .identifier ∧ t.lexeme = head.name
  | binding x => t.kind = .identifier ∧ t.lexeme = x.name
  | ret _ => t.lexeme = "return"
  | block _ => t.lexeme = "\x7b"
  | namedBlock name _ => t.kind = .identifier ∧ t.lexeme = name
  | namespaceLine _ _ => t.lexeme = "namespace"

/-- The node carries the place of the token that it is known by. -/
def Node.Placed (b : Buffer) (n : Node) : Prop :=
  ∃ t ∈ b.allTokens, n.loc = ⟨b.name, t.position⟩ ∧ n.KnownBy b t

end FrontEnd
