import FrontEnd.Tree.Basic
import FrontEnd.Decimal.Notation
import FrontEnd.Text.Quoted

set_option autoImplicit false

/-! # Trees as text

Trees are written on one line, each compound node in parentheses behind the operator or word that
says what it is. Texts and characters are quoted.
-/

namespace FrontEnd

/-- Texts with a separator between each two. -/
def joinWith (separator : String) : List String → String
  | [] => ""
  | [s] => s
  | s :: rest => s ++ separator ++ joinWith separator rest

/-- The written form of a type. -/
def TypeExpr.render : TypeExpr → String
  | void _ => "void"
  | named name _ => name

/-- The word for the side of a step. -/
def Fixity.word : Fixity → String
  | before => "pre"
  | after => "post"

/-- The word that declares a binding of this kind. -/
def Mutability.word : Mutability → String
  | mutable => "let"
  | immutable => "val"
  | constant => "const"

namespace Expr

mutual

/-- The written form of an expression. -/
def render : Expr → String
  | int value _ => toString value.toNat
  | float value _ => renderFloat value
  | bool value _ => if value then "true" else "false"
  | string value _ => quoteString value
  | char value _ => quoteChar value
  | ident name _ => name
  | unary op operand _ => "(" ++ op.symbol ++ " " ++ operand.render ++ ")"
  | binary op lhs rhs _ => "(" ++ op.symbol ++ " " ++ lhs.render ++ " " ++ rhs.render ++ ")"
  | step s overflow fixity operand _ =>
    "(" ++ fixity.word ++ overflow.mark ++ s.symbol ++ " " ++ operand.render ++ ")"
  | call callee args _ => "(call " ++ callee ++ renderEach args ++ ")"

/-- The written forms of expressions, a blank before each. -/
def renderEach : List Expr → String
  | [] => ""
  | e :: rest => " " ++ e.render ++ renderEach rest

end

end Expr

/-- The written form of a parameter. -/
def Param.render (p : Param) : String := p.name ++ ": " ++ p.type.render

/-- The written form of the head of a function. -/
def Prototype.render (p : Prototype) : String :=
  (if p.isExtern then "extern " else "") ++
    (match p.kind with
     | .function => ""
     | .method => "md ") ++
    p.name ++ "(" ++ joinWith ", " (p.params.map Param.render) ++ ") -> " ++
    joinWith ", " (p.returns.map TypeExpr.render)

/-- The written form of a binding. -/
def Binding.render (b : Binding) : String :=
  "(" ++ b.mutability.word ++ " " ++ b.name ++
    (match b.type with
     | some t => " : " ++ t.render
     | none => "") ++
    (match b.init with
     | some e => " " ++ e.render
     | none => "") ++ ")"

namespace Statement

mutual

/-- The written form of a statement. -/
def render : Statement → String
  | expr e => e.render
  | bind b => b.render
  | ret values _ => "(return" ++ Expr.renderEach values ++ ")"
  | block statements _ => "\x7b" ++ renderEach statements ++ " \x7d"
  | namedBlock name _ statements _ =>
    "(label " ++ name ++ " \x7b" ++ renderEach statements ++ " \x7d)"

/-- The written forms of statements, a blank before each. -/
def renderEach : List Statement → String
  | [] => ""
  | s :: rest => " " ++ s.render ++ renderEach rest

end

end Statement

/-- The written form of a declaration. -/
def Declaration.render : Declaration → String
  | namespaceLine name _ => "(namespace " ++ name ++ ")"
  | function p body _ => "(fn " ++ p.render ++ " \x7b" ++ Statement.renderEach body ++ " \x7d)"
  | externFunction p => p.render
  | statement s => s.render

end FrontEnd
