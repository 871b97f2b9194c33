import FrontEnd.Grammar.State

set_option autoImplicit false

/-! # Recovery after a failure

A parser that has failed goes on at the next statement boundary: behind a semicolon, or at a
closing brace, at a token that starts a declaration, or at the end of the file. A group in braces
met on the way is skipped as a whole and ends the search. Since nothing is reported in panic, the
search is a function of the unread tokens alone; it drops the invalid tokens among them.
-/

namespace FrontEnd.Grammar

/-- The tokens at which a search for a statement boundary stops. -/
def startsDeclaration : Kind → Bool
  | .word .fnWord | .word .mdWord | .word .externWord | .word .namespaceWord | .word .letWord
  | .word .valWord | .word .constWord | .word .returnWord => true
  | _ => false

/-- The tokens without the invalid ones in front. -/
def dropInvalid (tokens : List Token) : List Token := tokens.dropWhile (·.kind == .invalid)

/-- The tokens behind the closing brace of the outermost of `depth` open groups. Groups that are
never closed reach to the end. -/
def skipGroups : Nat → List Token → List Token
  | _, [] => []
  | depth, t :: rest =>
    match t.kind with
    | .mark .leftBrace => skipGroups (depth + 1) rest
    | .mark .rightBrace => if depth ≤ 1 then dropInvalid rest else skipGroups (depth - 1) rest
    | _ => skipGroups depth rest

/-- The tokens from the next statement boundary on. The token before them is a semicolon if
`behindSemicolon` holds. -/
def synchronize : Bool → List Token → List Token
  | _, [] => []
  | behindSemicolon, t :: rest =>
    if t.kind = .invalid then synchronize behindSemicolon rest
    else if behindSemicolon then t :: rest
    else
      match t.kind with
      | .mark .rightBrace => t :: rest
      | .mark .leftBrace => skipGroups 0 (t :: rest)
      | kind =>
        if startsDeclaration kind then t :: rest
        else synchronize (kind = .mark .semicolon) rest

/-- The tokens to go on with when the first one has no place in the grammar: it is skipped, and
so is the group that it opens if it is a brace. -/
def skipStatement : List Token → List Token
  | [] => []
  | t :: rest =>
    if t.kind = .mark .leftBrace then skipGroups 0 (t :: rest)
    else synchronize (t.kind = .mark .semicolon) rest

/-- Reports a failure, and goes on at the next statement boundary. The statement started with
`before` unread tokens. If it has read none of them, the first one is skipped, so that the search
always makes progress; otherwise the token before the current one was read as part of the
statement, and it is no semicolon, since nothing that can fail follows one. -/
def State.recover (s : State) (failure : Finding) (before : Nat) : State :=
  let reported := (s.report failure).enterPanic
  { reported with
    unread :=
      if s.unread.length = before then skipStatement s.unread else synchronize false s.unread }

end FrontEnd.Grammar
