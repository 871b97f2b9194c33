import FrontEnd.Grammar.File

set_option autoImplicit false

/-! # Reports

A `Report` is all that reading a file has produced: its trees, what was found, and a few facts
about the file. A file may be used only if its report is without errors (`Report.isOk`).
-/

namespace FrontEnd

/-- What reading a file has produced. -/
structure Report where
  declarations : List Declaration
  /-- What was found, in the order of reporting. -/
  findings : List Finding
  errors : Nat
  warnings : Nat
  /-- A function named `main` was declared at file scope. -/
  entryPoint : Bool
  /-- The namespace of the file. -/
  namespaceName : Option String

namespace Report

/-- The file may be used. -/
def isOk (r : Report) : Bool := r.errors == 0

/-- The report on the declarations read, and on the state reached. -/
def ofRun (result : List Declaration × Grammar.State) : Report :=
  match result with
  | (declarations, s) =>
    { declarations
      findings := s.findings
      errors := s.errors
      warnings := s.warnings
      entryPoint := s.entryPoint
      namespaceName := s.namespaceLine.map (·.1) }

/-- The diagnostics of a report, with lines out of `source`. -/
def diagnostics (r : Report) (source : Buffer) : List Diagnostic :=
  r.findings.map (·.diagnostic source)

end Report

/-- The state in which a buffer is about to be read. -/
def Buffer.startState (b : Buffer) : Grammar.State :=
  Grammar.State.start b.name (Stream.ofText b.chars)

/-- The report on a buffer. -/
def Buffer.parse (b : Buffer) : Report := Report.ofRun b.startState.run

/-- Runs a parser again and again from where it has stopped, `n` times, with a report on each
run. -/
def Grammar.State.runs : Nat → Grammar.State → List Report
  | 0, _ => []
  | n + 1, s => Report.ofRun s.run :: runs n s.run.2

end FrontEnd
