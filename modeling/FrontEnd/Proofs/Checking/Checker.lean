import FrontEnd.Diagnostic.Issue
import FrontEnd.Proofs.Scope.Frames

set_option autoImplicit false

/-! # The rules of names, checked on trees

A `Checker` walks through finished trees in the order of the source text. It knows nothing of
tokens: it holds a stack of scopes, and collects what is wrong with the names.

A name is declared once in a scope, and hides the same name in the scopes around it. A name that
is written to has to be mutable or without a value so far. A function is declared before its
arguments and its body are checked, a binding after its first value.

The scopes are those of `Frames`: a list of the open ones, the innermost first, each of them a list of
its symbols. A scope that is left is gone. Every function here is a recursion over the trees, and the
order in which it visits them is the order in which findings come out.
-/

namespace FrontEnd

/-- The visible names, and what was found. It is also kept whether the checker is within a function,
as `return` and named blocks are allowed there only. -/
structure Checker where
  frames : Frames
  inFunction : Bool
  findings : List Finding

namespace Checker

/-- The checker at the start of a file. The scope of the file is open, and no function is. -/
def start : Checker := ⟨[[]], false, []⟩

/-- Adds a finding. -/
def report (c : Checker) (issue : Issue) (loc : Location) (length : Nat) : Checker :=
  { c with findings := c.findings ++ [⟨issue, loc, length⟩] }

/-- Opens a scope. -/
def enter (c : Checker) : Checker := { c with frames := [] :: c.frames }

/-- Closes the innermost scope. -/
def leave (c : Checker) : Checker := { c with frames := c.frames.leave }

/-- Declares a symbol in the innermost scope. The first symbol of a name stays. -/
def declare (c : Checker) (symbol : Symbol) : Checker :=
  if c.frames.isLocal symbol.name then
    c.report (.redefinedSymbol symbol.name) symbol.loc symbol.name.length
  else { c with frames := c.frames.add symbol }

/-- A name is used. -/
def use (c : Checker) (name : String) (loc : Location) : Checker :=
  if (c.frames.lookup? name).isSome then c else c.report (.undeclared name) loc name.length

/-- An expression is written to. A name that nothing declares was found when it was used, and is not
found a second time. -/
def write (c : Checker) : Expr → Checker
  | .ident name loc =>
    match c.frames.lookup? name with
    | none => c
    | some symbol =>
      if symbol.mutability ≠ .mutable ∧ symbol.assigned then
        c.report (.reassigned name) loc name.length
      else { c with frames := c.frames.assign name }
  | target => c.report .notAssignable target.loc 1

end Checker

/-! ## Expressions -/

mutual

/-- Checks an expression. What is written to is checked as a value first. -/
def Expr.check : Expr → Checker → Checker
  | .int _ _, c | .float _ _, c | .bool _ _, c | .string _ _, c | .char _ _, c => c
  | .ident name loc, c => c.use name loc
  | .unary _ operand _, c => operand.check c
  | .binary op lhs rhs _, c =>
    let c := rhs.check (lhs.check c)
    if op.isAssignment then c.write lhs else c
  | .step _ _ _ operand _, c => (operand.check c).write operand
  | .call _ args _, c => Expr.checkAll args c

/-- Checks expressions from left to right. -/
def Expr.checkAll : List Expr → Checker → Checker
  | [], c => c
  | e :: es, c => Expr.checkAll es (e.check c)

end

/-! ## Statements -/

/-- Checks the first value of a binding, if there is one. -/
def Expr.checkInit : Option Expr → Checker → Checker
  | some e, c => e.check c
  | none, c => c

/-- Checks a binding: its first value, that it has one if it needs one, and its name. -/
def Binding.check (b : Binding) (c : Checker) : Checker :=
  let c := Expr.checkInit b.init c
  let c :=
    if b.mutability ≠ .mutable ∧ b.init.isNone then
      c.report (.uninitialized b.name) b.loc b.name.length
    else c
  c.declare ⟨b.name, .value, b.mutability, b.init.isSome, b.loc⟩

mutual

/-- Checks a statement. The statements of a block are checked in a scope of their own. -/
def Statement.check : Statement → Checker → Checker
  | .expr e, c => e.check c
  | .bind b, c => b.check c
  | .ret values loc, c =>
    Expr.checkAll values (if c.inFunction then c else c.report .returnOutsideFunction loc 6)
  | .block statements _, c => (Statement.checkAll statements c.enter).leave
  | .namedBlock name nameLoc statements _, c =>
    let c :=
      if c.inFunction then c else c.report .namedBlockOutsideFunction nameLoc name.length
    (Statement.checkAll statements c.enter).leave

/-- Checks statements from first to last. -/
def Statement.checkAll : List Statement → Checker → Checker
  | [], c => c
  | s :: rest, c => Statement.checkAll rest (s.check c)

end

theorem Statement.checkAll_append (xs ys : List Statement) (c : Checker) :
    Statement.checkAll (xs ++ ys) c = Statement.checkAll ys (Statement.checkAll xs c) := by
  induction xs generalizing c with
  | nil => simp [checkAll]
  | cons x xs ih => simp [checkAll, ih]

/-! ## Declarations -/

/-- Checks an argument of a function behind the arguments `before`: that its name differs from
theirs, and that there are not too many of them. -/
def checkParam (before : List Param) (p : Param) (c : Checker) : Checker :=
  let c :=
    if before.any (·.name == p.name) then c.report (.redefinedArgument p.name) p.loc p.name.length
    else c
  if before.length = maxArguments then c.report .tooManyArguments p.loc p.name.length else c

/-- Checks the arguments of a function behind the arguments `before`. They are compared with these
alone: their scope is opened only when the body is. -/
def checkParams : List Param → List Param → Checker → Checker
  | _, [], c => c
  | before, p :: rest, c => checkParams (before ++ [p]) rest (checkParam before p c)

/-- Checks the head of a function, its name first. The name is declared around the function, so that
its body may call it. -/
def Prototype.check (p : Prototype) (c : Checker) : Checker :=
  checkParams [] p.params (c.declare ⟨p.name, .function, .constant, true, p.loc⟩)

/-- The innermost scope with the arguments of a function. Of two of one name the first stays. -/
def Frames.addParams (params : List Param) (frames : Frames) : Frames :=
  params.foldl
    (fun f p => if f.isLocal p.name then f else f.add ⟨p.name, .value, .mutable, true, p.loc⟩) frames

/-- Checks a declaration. The scope of a namespace stays open to the end of the file. -/
def Declaration.check : Declaration → Checker → Checker
  | .namespaceLine _ _, c => c.enter
  | .function p body _, c =>
    let c := p.check c
    let inside := { c with frames := Frames.addParams p.params ([] :: c.frames), inFunction := true }
    { (Statement.checkAll body inside).leave with inFunction := c.inFunction }
  | .externFunction p, c => p.check c
  | .statement s, c => s.check c

/-- Checks declarations from first to last. -/
def Declaration.checkAll (declarations : List Declaration) (c : Checker) : Checker :=
  declarations.foldl (fun c d => Declaration.check d c) c

/-- What is wrong with the names in a file. They come in the order in which the parsers report them.
-/
def checkFile (declarations : List Declaration) : List Finding :=
  (Declaration.checkAll declarations .start).findings

end FrontEnd
