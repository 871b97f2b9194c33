import FrontEnd.Diagnostic.Issue
import FrontEnd.Scope.Table
import FrontEnd.Token.Stream

set_option autoImplicit false

/-! # The state of a parser

A parser works on a `Grammar.State`: the tokens not read yet, what has been found so far, the
scopes, and a few facts about the file. The first unread token, the current one, is never an
invalid token: `State.advance` reports invalid tokens as soon as they come up and drops them. The
token behind it may still be an invalid one.

After a mistake the parser is in *panic*: nothing is reported until the next statement, so that
one mistake gives one finding.

The findings are counted by severity. The counters are natural numbers and never overflow; counters
of 32 bits agree with them as long as a file has fewer than `2 ^ 32` findings of one severity, which
is assumed of all files.

A `Parser` may fail with a `Finding`. A failure keeps the state that was reached.
-/

namespace FrontEnd.Grammar

/-- The state of a parser. -/
structure State where
  /-- The name of the file. -/
  file : String
  /-- The tokens from the current one on, without the end of the file. -/
  unread : List Token
  /-- The token at the end of the file. -/
  finish : Token
  /-- What was reported, in order. -/
  findings : List Finding
  /-- How many of them are errors, taken to stay below `2 ^ 32`. -/
  errors : Nat
  /-- How many of them are warnings, taken to stay below `2 ^ 32`. -/
  warnings : Nat
  /-- Nothing is reported. -/
  panic : Bool
  scopes : ScopeTable
  /-- The namespace of the file and the line that sets it. -/
  namespaceLine : Option (String × Nat)
  inFunction : Bool
  /-- A function named `main` was declared at file scope. -/
  entryPoint : Bool

namespace State

/-- The current token. -/
def current (s : State) : Token := s.unread.headD s.finish

/-- The token behind the current one. -/
def lookahead (s : State) : Token := s.unread.tail.headD s.finish

/-- The place of a token. -/
def locate (s : State) (t : Token) : Location := ⟨s.file, t.position⟩

/-- An issue at a token. -/
def finding (s : State) (issue : Issue) (t : Token) : Finding := ⟨issue, s.locate t, t.width⟩

/-! ## Reporting -/

/-- Reports a finding, except in panic. -/
def report (s : State) (f : Finding) : State :=
  if s.panic then s
  else
    match f.issue.severity with
    | .error => { s with findings := s.findings ++ [f], errors := s.errors + 1 }
    | .warning => { s with findings := s.findings ++ [f], warnings := s.warnings + 1 }

theorem report_findings (s : State) (f : Finding) :
    (s.report f).findings = if s.panic then s.findings else s.findings ++ [f] := by
  unfold report
  split
  · rfl
  · split <;> rfl

@[simp] theorem report_unread (s : State) (f : Finding) : (s.report f).unread = s.unread := by
  unfold report
  split
  · rfl
  · split <;> rfl

@[simp] theorem report_file (s : State) (f : Finding) : (s.report f).file = s.file := by
  unfold report
  split
  · rfl
  · split <;> rfl

@[simp] theorem report_finish (s : State) (f : Finding) : (s.report f).finish = s.finish := by
  unfold report
  split
  · rfl
  · split <;> rfl

@[simp] theorem report_panic (s : State) (f : Finding) : (s.report f).panic = s.panic := by
  unfold report
  split
  · rfl
  · split <;> rfl

@[simp] theorem report_scopes (s : State) (f : Finding) : (s.report f).scopes = s.scopes := by
  unfold report
  split
  · rfl
  · split <;> rfl

@[simp] theorem report_inFunction (s : State) (f : Finding) :
    (s.report f).inFunction = s.inFunction := by
  unfold report
  split
  · rfl
  · split <;> rfl

@[simp] theorem report_namespaceLine (s : State) (f : Finding) :
    (s.report f).namespaceLine = s.namespaceLine := by
  unfold report
  split
  · rfl
  · split <;> rfl

/-- From now on nothing is reported. -/
def enterPanic (s : State) : State := { s with panic := true }

/-- From now on findings are reported again. -/
def exitPanic (s : State) : State := { s with panic := false }

/-! ## Moving on -/

/-- The state with the given tokens to read. Invalid tokens in front are reported and dropped; the
first of them starts a panic. -/
def settle (s : State) : List Token → State
  | [] => { s with unread := [] }
  | t :: rest =>
    if t.kind = .invalid then ((s.report (s.finding (.lexical t.lexeme) t)).enterPanic).settle rest
    else { s with unread := t :: rest }

@[simp] theorem settle_nil (s : State) : s.settle [] = { s with unread := [] } := rfl

theorem settle_invalid {t : Token} (h : t.kind = .invalid) (s : State) (rest : List Token) :
    s.settle (t :: rest) =
      ((s.report (s.finding (.lexical t.lexeme) t)).enterPanic).settle rest := by
  rw [settle, if_pos h]

/-- Tokens that do not start with an invalid one are read as they are. -/
theorem settle_valid {tokens : List Token} (h : ∀ t ∈ tokens.head?, t.kind ≠ .invalid)
    (s : State) : s.settle tokens = { s with unread := tokens } := by
  cases tokens with
  | nil => rfl
  | cons t rest => rw [settle, if_neg (h t rfl)]

/-- The state behind the current token. -/
def advance (s : State) : State := s.settle s.unread.tail

/-- The start of a file with the given tokens. -/
def start (file : String) (stream : Stream) : State :=
  settle
    { file
      unread := []
      finish := stream.finish
      findings := []
      errors := 0
      warnings := 0
      panic := false
      scopes := ScopeTable.empty
      namespaceLine := none
      inFunction := false
      entryPoint := false }
    stream.tokens

/-! ## Scopes -/

/-- Opens a scope. -/
def pushScope (s : State) (kind : ScopeKind) : State := { s with scopes := s.scopes.push kind }

/-- Closes the current scope. -/
def popScope (s : State) : State := { s with scopes := s.scopes.pop }

end State

/-- A parser changes a state, and either yields a value or fails with a finding. -/
abbrev Parser (α : Type) := EStateM Finding State α

namespace Parser

/-- Changes the state. -/
def update (f : State → State) : Parser Unit := modify f

/-- The current token. -/
def current : Parser Token := return (← get).current

/-- The token behind the current one. -/
def lookahead : Parser Token := return (← get).lookahead

/-- The place of a token. -/
def locate (t : Token) : Parser Location := return (← get).locate t

/-- Moves on to the next token. -/
def advance : Parser Unit := update State.advance

/-- The current token, read. -/
def take : Parser Token := do
  let t ← current
  advance
  return t

/-- Reports an issue at a token that leaves the grammar intact. -/
def complain (issue : Issue) (t : Token) : Parser Unit :=
  update fun s => s.report (s.finding issue t)

/-- Runs a parser only under a condition. -/
def onlyIf (condition : Bool) (p : Parser Unit) : Parser Unit :=
  if condition then p else return ()

/-- Fails at the current token. -/
def fail {α : Type} (issue : Issue) : Parser α := do
  let s ← get
  throw (s.finding issue s.current)

/-- Fails because the current token is not what the grammar asks for. -/
def failExpecting {α : Type} (what : Expectation) : Parser α := do
  fail (.expected what (← current))

/-- Reads a token of the given kind if it is the current one. -/
def accept (kind : Kind) : Parser Bool := do
  if (← current).kind = kind then
    advance
    return true
  else
    return false

/-- Reads a token that has to be of the given kind. -/
def expect (kind : Kind) (place : Place) : Parser Token := do
  let t ← current
  if t.kind = kind then
    advance
    return t
  else
    failExpecting (.token kind place)

end Parser

end FrontEnd.Grammar
