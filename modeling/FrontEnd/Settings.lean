set_option autoImplicit false

/-! # Settings

How much is printed besides the diagnostics, and whether in colour.
-/

namespace FrontEnd

/-- How much is printed besides the diagnostics. -/
inductive Verbosity where
  /-- Nothing. -/
  | quiet
  /-- A line before and a line after each file. -/
  | info
  /-- The tokens and the trees of each file as well. -/
  | debug
deriving DecidableEq, Repr

/-- The rank of a verbosity: what is shown at a rank is shown at every higher one. -/
def Verbosity.rank : Verbosity → Nat
  | quiet => 0
  | info => 1
  | debug => 2

/-- The settings of a run. -/
structure Settings where
  colours : Bool := true
  verbosity : Verbosity := .info
deriving DecidableEq, Repr

/-- What belongs to a level is printed. -/
def Settings.shows (s : Settings) (level : Verbosity) : Bool := level.rank ≤ s.verbosity.rank

end FrontEnd
