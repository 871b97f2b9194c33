import FrontEnd.Grammar.State

set_option autoImplicit false

/-! # Types and the heads of functions

A type is one word. The head of a function is its keyword, its name, its arguments in parentheses
and its return types. Without a written return type the function returns `void`; that is allowed
only if the body follows at once or the function has none. The name is declared as soon as it has
been read, so that the body may use it.
-/

namespace FrontEnd.Grammar.Parser

/-- A type: a builtin one or a name. -/
def typeExpr (place : Place) : Parser TypeExpr := do
  let t ← current
  match t.kind with
  | .builtin .void =>
    advance
    return .void (← locate t)
  | .builtin _ | .identifier =>
    advance
    return .named t.lexeme (← locate t)
  | _ => failExpecting (.type place)

/-- Types with a comma before each, at most `fuel` of them. -/
def furtherTypes : Nat → Parser (List TypeExpr)
  | 0 => return []
  | fuel + 1 => do
    if ← accept (.mark .comma) then
      let type ← typeExpr (.behind (.mark .comma))
      return type :: (← furtherTypes fuel)
    else
      return []

/-- Declares a symbol in the current scope, or complains that the scope has its name. -/
def declare (symbol : Symbol) (t : Token) : Parser Unit :=
  update fun s =>
    match s.scopes.declare symbol with
    | (true, scopes) => { s with scopes }
    | (false, _) => s.report (s.finding (.redefinedSymbol symbol.name) t)

/-- Declares a function. One that is named `main`, stands at file scope and has a body is the
entry point of the program. -/
def declareFunction (name : Token) (isExtern : Bool) : Parser Unit := do
  update fun s =>
    let atFileScope :=
      s.scopes.currentKind = .file || s.scopes.currentKind = .namespaceScope
    if name.lexeme = "main" ∧ atFileScope ∧ !isExtern then { s with entryPoint := true } else s
  declare ⟨name.lexeme, .function, .constant, true, ← locate name⟩ name

/-- An argument behind the arguments `before`. -/
def param (before : List Param) : Parser Param := do
  let name ← expect .identifier .inArgumentList
  onlyIf (before.any (·.name == name.lexeme)) (complain (.redefinedArgument name.lexeme) name)
  let _ ← expect (.mark .colon) .behindArgumentName
  let type ← typeExpr .forArgument
  onlyIf (before.length = maxArguments) (complain .tooManyArguments name)
  return ⟨name.lexeme, type, ← locate name⟩

/-- One or more arguments with commas between them, behind the arguments `before`, at most `fuel`
of them. -/
def paramsFrom : Nat → List Param → Parser (List Param)
  | 0, before => return before
  | fuel + 1, before => do
    let p ← param before
    if ← accept (.mark .comma) then paramsFrom fuel (before ++ [p]) else return before ++ [p]

/-- The arguments of a function: none if the closing parenthesis follows. -/
def params : Parser (List Param) := do
  let s ← get
  if s.current.kind = .mark .rightParen then return []
  paramsFrom (s.unread.length + 1) []

/-- The return types of a function, `void` if none is written. -/
def returnTypes (isExtern : Bool) : Parser (List TypeExpr) := do
  if ← accept (.mark .colon) then
    let first ← typeExpr (.behind (.mark .colon))
    return first :: (← furtherTypes (← get).unread.length)
  else
    let t ← current
    if isExtern ∨ t.kind = .mark .leftBrace then return [.void (← locate t)]
    else failExpecting .returnTypeOrBody

/-- The head of a function, from its keyword on. -/
def prototype (isExtern : Bool) : Parser Prototype := do
  let keyword ← take
  let name ← expect .identifier (.behind keyword.kind)
  declareFunction name isExtern
  let _ ← expect (.mark .leftParen) .behindFunctionName
  let params ← params
  let _ ← expect (.mark .rightParen) .behindArgumentList
  let returns ← returnTypes isExtern
  let kind := if keyword.kind = .word .mdWord then .method else .function
  return ⟨name.lexeme, params, returns, kind, isExtern, ← locate name⟩

end FrontEnd.Grammar.Parser
