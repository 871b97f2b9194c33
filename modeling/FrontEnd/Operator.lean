set_option autoImplicit false

/-! # Operators

The operators of the language, free of their use in tokens and trees. Some arithmetic operators
come in three flavours of `Overflow`, told apart by a mark in front of the plain spelling. Binary
operators have a level: an operator of a higher level binds tighter. All assignments share the
lowest level, the only one that groups from right to left.
-/

namespace FrontEnd

/-- What arithmetic does when a result does not fit. -/
inductive Overflow where
  | plain
  | wrapping
  | saturating
deriving DecidableEq, Repr

namespace Overflow

/-- The mark in front of an operator of this flavour. -/
def mark : Overflow → String
  | plain => ""
  | wrapping => "%"
  | saturating => "@"

/-- All flavours. -/
def all : List Overflow := [plain, wrapping, saturating]

end Overflow

/-- Operators between two operands, assignments included. -/
inductive BinaryOp where
  | add (overflow : Overflow)
  | sub (overflow : Overflow)
  | mul (overflow : Overflow)
  | div
  | mod
  | shl (overflow : Overflow)
  | shr
  | lt
  | le
  | gt
  | ge
  | eq
  | ne
  | bitAnd
  | bitXor
  | bitOr
  | and
  | or
  | nullCoalesce
  | assign
  | addAssign (overflow : Overflow)
  | subAssign (overflow : Overflow)
  | mulAssign (overflow : Overflow)
  | divAssign
  | modAssign
  | shlAssign (overflow : Overflow)
  | shrAssign
  | bitAndAssign
  | bitOrAssign
  | bitXorAssign
  | orAssign
  | nullCoalesceAssign
deriving DecidableEq, Repr

namespace BinaryOp

/-- The spelling of an operator. -/
def symbol : BinaryOp → String
  | add o => o.mark ++ "+"
  | sub o => o.mark ++ "-"
  | mul o => o.mark ++ "*"
  | div => "/"
  | mod => "%"
  | shl o => o.mark ++ "<<"
  | shr => ">>"
  | lt => "<"
  | le => "<="
  | gt => ">"
  | ge => ">="
  | eq => "=="
  | ne => "!="
  | bitAnd => "&"
  | bitXor => "^"
  | bitOr => "|"
  | and => "&&"
  | or => "||"
  | nullCoalesce => "??"
  | assign => "="
  | addAssign o => o.mark ++ "+="
  | subAssign o => o.mark ++ "-="
  | mulAssign o => o.mark ++ "*="
  | divAssign => "/="
  | modAssign => "%="
  | shlAssign o => o.mark ++ "<<="
  | shrAssign => ">>="
  | bitAndAssign => "&="
  | bitOrAssign => "|="
  | bitXorAssign => "^="
  | orAssign => "||="
  | nullCoalesceAssign => "??="

/-- The operators that write to their left operand. -/
def isAssignment : BinaryOp → Bool
  | assign | addAssign _ | subAssign _ | mulAssign _ | divAssign | modAssign | shlAssign _
  | shrAssign | bitAndAssign | bitOrAssign | bitXorAssign | orAssign | nullCoalesceAssign => true
  | _ => false

/-- The level of every assignment. -/
def assignmentLevel : Nat := 9

/-- How tightly an operator binds. -/
def level : BinaryOp → Nat
  | mul _ | div | mod => 80
  | add _ | sub _ => 70
  | shl _ | shr => 65
  | lt | le | gt | ge => 60
  | eq | ne => 50
  | bitAnd => 40
  | bitXor => 35
  | bitOr => 30
  | and => 20
  | nullCoalesce => 15
  | or => 10
  | assign | addAssign _ | subAssign _ | mulAssign _ | divAssign | modAssign | shlAssign _
  | shrAssign | bitAndAssign | bitOrAssign | bitXorAssign | orAssign | nullCoalesceAssign =>
    assignmentLevel

/-- Operators of one level group from left to right, unless it is the level of the assignments. -/
def groupsRight (op : BinaryOp) : Bool := op.level == assignmentLevel

/-- The least level of the operators that the right operand of `op` takes for itself: those above
the level of `op`, and for an assignment those of its own level too. -/
def rightLevel (op : BinaryOp) : Nat := if op.groupsRight then op.level else op.level + 1

/-- All binary operators. -/
def all : List BinaryOp :=
  Overflow.all.map add ++ Overflow.all.map sub ++ Overflow.all.map mul ++ [div, mod] ++
    Overflow.all.map shl ++
    [shr, lt, le, gt, ge, eq, ne, bitAnd, bitXor, bitOr, and, or, nullCoalesce, assign] ++
    Overflow.all.map addAssign ++ Overflow.all.map subAssign ++ Overflow.all.map mulAssign ++
    [divAssign, modAssign] ++ Overflow.all.map shlAssign ++
    [shrAssign, bitAndAssign, bitOrAssign, bitXorAssign, orAssign, nullCoalesceAssign]

end BinaryOp

/-- Operators in front of one operand. -/
inductive UnaryOp where
  | negate
  | not
  | complement
deriving DecidableEq, Repr

/-- The spelling of an operator. -/
def UnaryOp.symbol : UnaryOp → String
  | negate => "-"
  | not => "!"
  | complement => "~"

/-- The direction of an operator that changes its operand by one. -/
inductive Step where
  | increment
  | decrement
deriving DecidableEq, Repr

namespace Step

/-- The spelling without a mark of overflow. -/
def symbol : Step → String
  | increment => "++"
  | decrement => "--"

/-- How tightly a step binds: tighter than every binary operator. -/
def level : Nat := 100

/-- Both directions. -/
def all : List Step := [increment, decrement]

end Step

/-- The side of its operand on which a step stands. -/
inductive Fixity where
  | before
  | after
deriving DecidableEq, Repr

end FrontEnd
