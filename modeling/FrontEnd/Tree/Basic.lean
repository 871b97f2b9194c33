import FrontEnd.Operator
import FrontEnd.Source.Position

set_option autoImplicit false

/-! # Syntax trees

A file is a list of `Declaration`s. Functions hold `Statement`s, and statements hold `Expr`essions.
Every node carries the location of the token it is known by: its name, its operator, its keyword,
its opening brace, or the literal itself.
-/

namespace FrontEnd

/-- How a binding may be written after it has been declared. -/
inductive Mutability where
  | mutable
  /-- Written once, when the program runs. -/
  | immutable
  /-- Written once, before the program runs. -/
  | constant
deriving DecidableEq, Repr

/-- The two ways to define a function. -/
inductive FunctionKind where
  | function
  | method
deriving DecidableEq, Repr

/-- A type as it is written. -/
inductive TypeExpr where
  | void (loc : Location)
  | named (name : String) (loc : Location)
deriving DecidableEq, Repr

/-- An expression. -/
inductive Expr where
  | int (value : UInt64) (loc : Location)
  | float (value : Float) (loc : Location)
  | bool (value : Bool) (loc : Location)
  | string (value : String) (loc : Location)
  | char (value : Char) (loc : Location)
  | ident (name : String) (loc : Location)
  | unary (op : UnaryOp) (operand : Expr) (loc : Location)
  | binary (op : BinaryOp) (lhs rhs : Expr) (loc : Location)
  | step (step : Step) (overflow : Overflow) (fixity : Fixity) (operand : Expr) (loc : Location)
  | call (callee : String) (args : List Expr) (loc : Location)

/-- The location of an expression. -/
def Expr.loc : Expr → Location
  | int _ loc | float _ loc | bool _ loc | string _ loc | char _ loc | ident _ loc
  | unary _ _ loc | binary _ _ _ loc | step _ _ _ _ loc | call _ _ loc => loc

/-- A parameter of a function. -/
structure Param where
  name : String
  type : TypeExpr
  loc : Location
deriving DecidableEq, Repr

/-- The head of a function. A function without a written return type returns `void` alone, so
there is always a return type. -/
structure Prototype where
  name : String
  params : List Param
  returns : List TypeExpr
  kind : FunctionKind
  isExtern : Bool
  loc : Location
deriving DecidableEq, Repr

/-- The declaration of a name with its type and its first value, both optional. -/
structure Binding where
  name : String
  type : Option TypeExpr
  init : Option Expr
  mutability : Mutability
  loc : Location

/-- A statement. The braces of a block are located by the opening one. -/
inductive Statement where
  | expr (e : Expr)
  | bind (binding : Binding)
  | ret (values : List Expr) (loc : Location)
  | block (statements : List Statement) (loc : Location)
  | namedBlock (name : String) (nameLoc : Location) (statements : List Statement) (loc : Location)

/-- The location of a statement. -/
def Statement.loc : Statement → Location
  | expr e => e.loc
  | bind b => b.loc
  | ret _ loc | block _ loc | namedBlock _ loc _ _ => loc

/-- What may stand at file scope. A function is located by its name, its body by the opening
brace. -/
inductive Declaration where
  | namespaceLine (name : String) (loc : Location)
  | function (prototype : Prototype) (body : List Statement) (bodyLoc : Location)
  | externFunction (prototype : Prototype)
  | statement (s : Statement)

/-- The location of a declaration. -/
def Declaration.loc : Declaration → Location
  | namespaceLine _ loc => loc
  | function p _ _ | externFunction p => p.loc
  | statement s => s.loc

end FrontEnd
