import FrontEnd.Grammar.Expression
import FrontEnd.Grammar.Recovery
import FrontEnd.Grammar.Signature

set_option autoImplicit false

/-! # Statements

A statement is a binding, a `return`, a block with or without a name, a lone semicolon, or an
expression with a semicolon behind it. The statements of a block are read one after the other; one
that fails is reported and skipped, so a block itself never fails. A closing brace that is missing
is a mistake of its own, and the statements read so far are kept.

The parsers of single statements take the parser of the statements of an inner block as an
argument. `Parser.statements` ties the knot, with the number of unread tokens as fuel.
-/

namespace FrontEnd.Grammar

/-- The state behind the closing brace of a block. That the brace is missing is reported even in
panic. -/
def State.closeBlock (s : State) : State :=
  let s := s.exitPanic
  let t := s.current
  if t.kind = .mark .rightBrace then s.advance
  else
    let missing := Expectation.token (.mark .rightBrace) .behindBlock
    (s.report (s.finding (.expected missing t) t)).enterPanic

namespace Parser

/-! ## Bindings -/

/-- The node of a binding, its name declared in the current scope. The first value has been read
before, so a name in it is not yet the new one. -/
def finishBinding (name : Token) (type : Option TypeExpr) (init : Option Expr)
    (mutability : Mutability) : Parser Statement := do
  let loc ← locate name
  declare ⟨name.lexeme, .value, mutability, init.isSome, loc⟩ name
  return .bind ⟨name.lexeme, type, init, mutability, loc⟩

/-- The type of a binding behind a colon, if there is one. -/
def optionalType : Parser (Option TypeExpr) := do
  if ← accept (.mark .colon) then return some (← typeExpr (.behind (.mark .colon)))
  else return none

/-- The first value of a binding behind an equals sign, if there is one. -/
def optionalInit : Parser (Option Expr) := do
  if ← accept (.operator .assign) then return some (← expression) else return none

/-- The mutability that a keyword gives to the bindings it declares. -/
def mutabilityOf : Kind → Mutability
  | .word .valWord => .immutable
  | .word .constWord => .constant
  | _ => .mutable

/-- A binding that starts with a keyword. The semicolon behind it may be missing; a binding that
is not mutable needs a first value. -/
def keywordBinding : Parser Statement := do
  let keyword ← take
  let name ← expect .identifier (.behind keyword.kind)
  let type ← optionalType
  let init ← optionalInit
  let _ ← accept (.mark .semicolon)
  let mutability := mutabilityOf keyword.kind
  onlyIf (mutability ≠ .mutable ∧ init.isNone) (complain (.uninitialized name.lexeme) name)
  finishBinding name type init mutability

/-! ## Blocks -/

/-- A block in a scope of its own, its statements read by `inner`. -/
def block (inner : Parser (List Statement)) : Parser (List Statement × Location) := do
  let opening ← expect (.mark .leftBrace) .toOpenBlock
  update (·.pushScope .block)
  let statements ← inner
  update State.popScope
  return (statements, ← locate opening)

/-- A block with a name, which has been read with the colon behind it. Named blocks stand in
functions only. -/
def namedBlock (inner : Parser (List Statement)) (name : Token) : Parser Statement := do
  onlyIf (!(← get).inFunction) (complain .namedBlockOutsideFunction name)
  let (statements, loc) ← block inner
  return .namedBlock name.lexeme (← locate name) statements loc

/-- A binding or a named block starts here: a name, and behind it a sign that declares it. -/
def startsBinding (s : State) : Bool :=
  s.current.kind = .identifier &&
    match s.lookahead.kind with
    | .mark .define | .mark .defineConst | .mark .colon => true
    | _ => false

/-- A binding or a block that starts with a name. -/
def nameBinding (inner : Parser (List Statement)) : Parser Statement := do
  let name ← take
  let sign ← take
  match sign.kind with
  | .mark .define =>
    let node ← finishBinding name none (some (← expression)) .mutable
    let _ ← accept (.mark .semicolon)
    return node
  | .mark .defineConst =>
    let node ← finishBinding name none (some (← expression)) .constant
    let _ ← accept (.mark .semicolon)
    return node
  | _ =>
    if (← current).kind = .mark .leftBrace then namedBlock inner name
    else
      let type ← typeExpr (.behind (.mark .colon))
      let init ← optionalInit
      let node ← finishBinding name (some type) init .mutable
      let _ ← accept (.mark .semicolon)
      return node

/-! ## Other statements -/

/-- The tokens that show that a `return` has no values. -/
def endsReturn : Kind → Bool
  | .mark .semicolon | .mark .rightBrace | .endOfFile => true
  | _ => false

/-- The values of a `return`. -/
def returnValues : Parser (List Expr) := do
  if endsReturn (← current).kind then return [] else expressions

/-- A `return` with its values. One outside a function is reported, and read all the same. -/
def returnStatement : Parser Statement := do
  let keyword ← take
  onlyIf (!(← get).inFunction) (complain .returnOutsideFunction keyword)
  let values ← returnValues
  let _ ← accept (.mark .semicolon)
  return .ret values (← locate keyword)

/-- A statement; a lone semicolon leaves no node. -/
def statement (inner : Parser (List Statement)) : Parser (Option Statement) := do
  let s ← get
  match s.current.kind with
  | .word .letWord | .word .valWord | .word .constWord => return some (← keywordBinding)
  | .word .returnWord => return some (← returnStatement)
  | .mark .leftBrace =>
    let (statements, loc) ← block inner
    return some (.block statements loc)
  | .mark .semicolon =>
    advance
    return none
  | .word .fnWord | .word .mdWord | .word .externWord | .word .namespaceWord =>
    fail (.misplaced s.current.kind)
  | _ =>
    if startsBinding s then return some (← nameBinding inner)
    else
      let e ← expression
      let _ ← expect (.mark .semicolon) .behindExpression
      return some (.expr e)

/-! ## Sequences of statements -/

/-- The closing brace of a block. -/
def closeBlock : Parser Unit := update State.closeBlock

/-- The statements of a block and the closing brace, in at most `fuel` rounds. -/
def statementsWithin : Nat → Parser (List Statement)
  | 0 => do
    closeBlock
    return []
  | fuel + 1 => fun s =>
    if s.current.kind = .mark .rightBrace ∨ s.current.kind = .endOfFile then
      (do closeBlock; return []) s
    else
      match statement (statementsWithin fuel) s.exitPanic with
      | .ok node next =>
        (do return node.toList ++ (← statementsWithin fuel)) next
      | .error failure next =>
        statementsWithin fuel (next.recover failure s.unread.length)

/-- The statements of a block and the closing brace; the opening one has been read. -/
def statements : Parser (List Statement) := do statementsWithin ((← get).unread.length + 1)

end Parser

end FrontEnd.Grammar
