import FrontEnd.Source.Buffer

set_option autoImplicit false

/-! # Diagnostics

A `Diagnostic` is a message about a place in a file. It is shown as a line with the place and the
message and, if the line of the source is known, that line and a line of marks below it, both
behind a gutter with the line number. Colours are put around the label, the gutters and the marks,
and leave the text as it is.

What a terminal is sent for a text in colour is not decided here: `Diagnostic.renderWith` takes a
`Styling` that does it. `Diagnostic.render` is the case of the escape sequences that terminals
understand (`Styling.ansi`).
-/

namespace FrontEnd

/-- How bad a finding is. -/
inductive Severity where
  | error
  | warning
deriving DecidableEq, Repr

/-- The word in front of a message. -/
def Severity.label : Severity → String
  | error => "Parse error"
  | warning => "Warning"

/-- A message about a place in a file. -/
structure Diagnostic where
  severity : Severity
  message : String
  location : Location
  /-- The number of columns that the message is about. -/
  length : Nat
  /-- The line of the source, if it is known. -/
  sourceLine : Option String
deriving DecidableEq, Repr

/-- `n` copies of a character. -/
def repeated (c : Char) (n : Nat) : String := String.ofList (List.replicate n c)

/-- The marks under a source line: tildes up to the column and a caret for each of the columns
meant, at least one. -/
def underline (column length : Nat) : String :=
  repeated '~' (column - 1) ++ repeated '^' (max length 1)

/-! ## Colours -/

/-- What is sent to a terminal to show a text in a style. -/
structure Styling where
  /-- In red and bold. -/
  boldRed : String → String
  /-- In yellow and bold. -/
  boldYellow : String → String
  green : String → String

/-- The escape sequence with the given parameters. -/
def escapeSequence (parameters : String) : String := "\x1b[" ++ parameters ++ "m"

/-- Colours out of the palette of 256. A bold text is set back altogether behind it, another one to
the colour in use before. -/
def Styling.ansi : Styling where
  boldRed text :=
    escapeSequence "38;5;9" ++ escapeSequence "1" ++ text ++ escapeSequence "0"
  boldYellow text :=
    escapeSequence "38;5;11" ++ escapeSequence "1" ++ text ++ escapeSequence "0"
  green text := escapeSequence "38;5;10" ++ text ++ escapeSequence "39"

/-! ## What is shown -/

/-- The label of a severity: errors stand out in red and warnings in yellow, if colours are wanted. -/
def Severity.renderLabel (styling : Styling) (colours : Bool) (s : Severity) : String :=
  match colours, s with
  | false, _ => s.label
  | true, .error => styling.boldRed s.label
  | true, .warning => styling.boldYellow s.label

namespace Diagnostic

/-- The place and the message, without a label. -/
def summary (d : Diagnostic) : String := d.location.render ++ ": " ++ d.message

/-- What stands in front of the line of the source. -/
def gutter (d : Diagnostic) : String := toString d.location.position.line ++ " | "

/-- What stands in front of the marks, as wide as the gutter with the line number. -/
def blankGutter (d : Diagnostic) : String :=
  repeated ' ' (toString d.location.position.line).length ++ " | "

/-- The marks under the line of the source. -/
def marks (d : Diagnostic) : String := underline d.location.position.column d.length

/-- What the user is shown, each line ended by a line feed. Without a line of the source that is the
place, the label and the message. The gutters and the marks are green if colours are wanted. -/
def renderWith (styling : Styling) (d : Diagnostic) (colours : Bool) : String :=
  d.location.render ++ ": " ++ d.severity.renderLabel styling colours ++ ": " ++ d.message ++ "\n" ++
    match d.sourceLine with
    | none => ""
    | some text =>
      if colours then
        styling.green d.gutter ++ text ++ "\n" ++
          (styling.green d.blankGutter ++ styling.green d.marks ++ "\n")
      else d.gutter ++ text ++ "\n" ++ (d.blankGutter ++ d.marks ++ "\n")

/-- What the user is shown on a terminal. -/
def render (d : Diagnostic) (colours : Bool) : String := d.renderWith .ansi colours

end Diagnostic

end FrontEnd
