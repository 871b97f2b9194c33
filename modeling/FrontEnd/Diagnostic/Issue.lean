import FrontEnd.Diagnostic.Basic
import FrontEnd.Token.Basic

set_option autoImplicit false

/-! # What can be wrong with a file

An `Issue` is one thing that is wrong, or doubtful, in a source text. It is lexical (a piece of
text is no token), grammatical (a token stands where the grammar has no place for it) or about
the meaning of what was read; only an undeclared name is no more than a warning. A `Finding` is an
issue at a place, and becomes a diagnostic once the lines of the source are at hand. All wording is
here.
-/

namespace FrontEnd

/-- The most arguments that a function may have. -/
def maxArguments : Nat := 16

/-- Where in the grammar a token was missing. -/
inductive Place where
  | behind (kind : Kind)
  | behindFunctionName
  | inArgumentList
  | behindArgumentName
  | forArgument
  | behindArgumentList
  | beforeFunctionBody
  | toOpenBlock
  | behindBlock
  | behindExpression
  | behindArguments
deriving DecidableEq, Repr

/-- How a message refers to a place. -/
def Place.describe : Place → String
  | behind kind => "after " ++ kind.describe
  | behindFunctionName => "after function name"
  | inArgumentList => "in argument list"
  | behindArgumentName => "after argument name"
  | forArgument => "for argument"
  | behindArgumentList => "after argument list"
  | beforeFunctionBody => "before function body"
  | toOpenBlock => "to open block"
  | behindBlock => "after block"
  | behindExpression => "after expression"
  | behindArguments => "after arguments"

/-- What the grammar asks for. -/
inductive Expectation where
  | token (kind : Kind) (place : Place)
  | type (place : Place)
  | expression
  | declaration
  | returnTypeOrBody
deriving DecidableEq, Repr

/-- How a message refers to what was expected. -/
def Expectation.describe : Expectation → String
  | token kind place => kind.describe ++ " " ++ place.describe
  | type place => "type " ++ place.describe
  | expression => "expression"
  | declaration => "declaration"
  | returnTypeOrBody => "':' or '\x7b' after argument list"

/-- One thing that is wrong, or doubtful, in a source text. -/
inductive Issue where
  /-- A piece of text is no token. -/
  | lexical (message : String)
  /-- The grammar asks for something else than the token found. -/
  | expected (what : Expectation) (found : Token)
  /-- A declaration that belongs to file scope stands in a block. -/
  | misplaced (kind : Kind)
  | redefinedSymbol (name : String)
  | redefinedArgument (name : String)
  | tooManyArguments
  /-- The file has a namespace since the given line. -/
  | namespaceTaken (line : Nat)
  | uninitialized (name : String)
  | reassigned (name : String)
  | notAssignable
  | returnOutsideFunction
  | namedBlockOutsideFunction
  | numberOutOfRange (lexeme : String)
  | invalidCharacter
  | undeclared (name : String)
deriving DecidableEq, Repr

namespace Issue

/-- What the user is told. -/
def message : Issue → String
  | lexical text => text
  | expected what found =>
    "expected " ++ what.describe ++ ", got " ++ found.describe ++ " instead"
  | misplaced kind => kind.describe ++ " declarations are only allowed at file scope"
  | redefinedSymbol name => "redefinition of symbol '" ++ name ++ "'"
  | redefinedArgument name => "redefinition of argument '" ++ name ++ "'"
  | tooManyArguments =>
    "a function can't have more than " ++ toString maxArguments ++ " arguments"
  | namespaceTaken line => "namespace already set on line " ++ toString line
  | uninitialized name => "immutable binding '" ++ name ++ "' must be initialized"
  | reassigned name => "cannot assign twice to immutable binding '" ++ name ++ "'"
  | notAssignable => "invalid assignment target"
  | returnOutsideFunction => "return statement must be within a function"
  | namedBlockOutsideFunction => "a named block must be within a function"
  | numberOutOfRange lexeme => "numeric literal '" ++ lexeme ++ "' is out of range"
  | invalidCharacter => "invalid character literal"
  | undeclared name => "use of undeclared identifier '" ++ name ++ "'"

/-- An undeclared name may be declared elsewhere; everything else is an error. -/
def severity : Issue → Severity
  | undeclared _ => .warning
  | _ => .error

/-- The text does not follow the grammar. -/
def isGrammatical : Issue → Bool
  | expected _ _ | misplaced _ => true
  | _ => false

/-- The text is not made of tokens. -/
def isLexical : Issue → Bool
  | lexical _ => true
  | _ => false

end Issue

/-- An issue at a place, and the number of columns that it takes there. -/
structure Finding where
  issue : Issue
  location : Location
  length : Nat
deriving DecidableEq, Repr

namespace Finding

/-- A finding is an error, not a mere warning. -/
def isError (f : Finding) : Bool := f.issue.severity == .error

/-- The diagnostic of a finding, with its line out of `source`. -/
def diagnostic (source : Buffer) (f : Finding) : Diagnostic :=
  ⟨f.issue.severity, f.issue.message, f.location, f.length,
    source.line? f.location.position.line⟩

end Finding

end FrontEnd
