import FrontEnd.Grammar.Statement

set_option autoImplicit false

/-! # Files

At file scope stand the line that sets the namespace, functions with and without a body, bindings,
and the statements that are read here only to be reported: named blocks and `return`. A
declaration that fails is reported and skipped, so that every file is read to its end.
-/

namespace FrontEnd.Grammar

/-- Declares the arguments of a function. Of two arguments of one name the first is declared. -/
def declareParams (params : List Param) (scopes : ScopeTable) : ScopeTable :=
  params.foldl (fun t p => (t.declare ⟨p.name, .value, .mutable, true, p.loc⟩).2) scopes

namespace State

/-- The state in the body of a function, its arguments declared in a scope of the function. -/
def enterFunction (s : State) (params : List Param) : State :=
  { s with scopes := declareParams params (s.scopes.push .function), inFunction := true }

/-- The state behind the body of a function. -/
def leaveFunction (s : State) (wasInFunction : Bool) : State :=
  { s.popScope with inFunction := wasInFunction }

end State

namespace Parser

/-- The line that sets the namespace of the file. A second one is reported and left out. -/
def namespaceLine : Parser (Option Declaration) := do
  let keyword ← take
  let name ← expect .identifier (.behind keyword.kind)
  let _ ← accept (.mark .semicolon)
  match (← get).namespaceLine with
  | some (_, line) =>
    complain (.namespaceTaken line) name
    return none
  | none =>
    update fun s =>
      { s with namespaceLine := some (name.lexeme, keyword.position.line) }.pushScope
        .namespaceScope
    return some (.namespaceLine name.lexeme (← locate keyword))

/-- The body of a function: its statements and the place of the opening brace. -/
def functionBody : Parser (List Statement × Location) := do
  let opening ← expect (.mark .leftBrace) .beforeFunctionBody
  let body ← statements
  return (body, ← locate opening)

/-- Runs a parser within a function whose arguments are given: in a scope of the function, which
is closed also on failure. -/
def withinFunction {α : Type} (params : List Param) (body : Parser α) : Parser α := fun s =>
  match body (s.enterFunction params) with
  | .ok value next => .ok value (next.leaveFunction s.inFunction)
  | .error failure next => .error failure (next.leaveFunction s.inFunction)

/-- A function with its body. -/
def function : Parser Declaration := do
  let head ← prototype false
  let (body, loc) ← withinFunction head.params functionBody
  return .function head body loc

/-- A function without a body. The semicolon behind it may be missing. -/
def externFunction : Parser Declaration := do
  let keyword ← take
  if (← current).kind = .word .fnWord then
    let head ← prototype true
    let _ ← accept (.mark .semicolon)
    return .externFunction head
  else
    failExpecting (.token (.word .fnWord) (.behind keyword.kind))

/-- A declaration; a namespace line that is left out leaves no node. -/
def declaration : Parser (Option Declaration) := do
  let s ← get
  match s.current.kind with
  | .word .namespaceWord => namespaceLine
  | .word .fnWord | .word .mdWord => return some (← function)
  | .word .externWord => return some (← externFunction)
  | .word .letWord | .word .valWord | .word .constWord =>
    return some (.statement (← keywordBinding))
  | .word .returnWord => return some (.statement (← returnStatement))
  | _ =>
    if startsBinding s then return some (.statement (← nameBinding statements))
    else failExpecting .declaration

end Parser

/-- The declarations up to the end of the file, in at most `fuel` rounds, and the state reached. -/
def declarations : Nat → State → List Declaration × State
  | 0, s => ([], s)
  | fuel + 1, s =>
    if s.current.kind = .endOfFile then ([], s)
    else
      match Parser.declaration s.exitPanic with
      | .ok node next =>
        match declarations fuel next with
        | (rest, last) => (node.toList ++ rest, last)
      | .error failure next => declarations fuel (next.recover failure s.unread.length)

/-- Reads a file to its end. -/
def State.run (s : State) : List Declaration × State := declarations s.unread.length s

end FrontEnd.Grammar
