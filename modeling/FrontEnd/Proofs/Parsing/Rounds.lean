import FrontEnd.Proofs.Parsing.Fuel

set_option autoImplicit false

/-! # Rounds

A file and a block are read in rounds. One round reads a declaration or a statement, or skips one
that fails, and leaves fewer tokens than it began with. Since fuel is never used up, reading a file
or a block is nothing but its rounds: `State.HasEnd.run_eq` and `State.HasEnd.runBlock_round`. It
stops at the end of the file, or for a block at a closing brace too.

So what holds of a whole file can be shown by induction on the tokens that are left, with one round as
the step and no mention of fuel. Most results about files are shown in this way.
-/

namespace FrontEnd.Grammar

open FrontEnd.Grammar.Parser

variable {s s' : State}

/-! ## Files

A run of a file is its first round and the run of what is left, as long as a token is left. With
enough fuel no round is missed. -/

/-- One round at file scope: the declaration read, if it leaves a node, and the state behind it. A
declaration that fails leaves no node, and recovery is part of the round. -/
def State.fileRound (s : State) : Option Declaration × State :=
  match Parser.declaration s.exitPanic with
  | .ok node next => (node, next)
  | .error failure next => (none, next.recover failure s.unread.length)

theorem State.fileRound_ok {node : Option Declaration}
    (h : Parser.declaration s.exitPanic = .ok node s') : s.fileRound = (node, s') := by
  rw [fileRound, h]

theorem State.fileRound_error {failure : Finding}
    (h : Parser.declaration s.exitPanic = .error failure s') :
    s.fileRound = (none, s'.recover failure s.unread.length) := by
  rw [fileRound, h]

theorem moves_fileRound (s : State) : Moves s s.fileRound.2 := by
  have hexit : Moves s s.exitPanic := .of_change (.exitPanic s)
  cases h : Parser.declaration s.exitPanic with
  | ok node next =>
      rw [State.fileRound_ok h]
      exact hexit.trans (Regular.declaration.ok h)
  | error failure next =>
      obtain ⟨hm, hard⟩ := Regular.declaration.error h
      rw [State.fileRound_error h]
      exact (hexit.trans hm).trans (Regular.recover hard next _)

/-- A round at file scope leaves fewer tokens. -/
theorem State.HasEnd.fileRound_lt (hs : s.HasEnd) (hk : s.current.kind ≠ .endOfFile) :
    s.fileRound.2.unread.length < s.unread.length := by
  have hexit : Moves s s.exitPanic := .of_change (.exitPanic s)
  have hs' : s.exitPanic.HasEnd := hs.moves hexit
  cases h : Parser.declaration s.exitPanic with
  | ok node next =>
      have hlt := Shrinks.declaration hs' h
      rw [State.fileRound_ok h]
      exact hlt
  | error failure next =>
      have hm := (Regular.declaration.error h).1
      rw [State.fileRound_error h]
      exact State.recover_lt (hs.length_pos hk) (hexit.trans hm).length_le failure

/-- Reading a file is nothing but its rounds. -/
theorem State.HasEnd.run_eq (hs : s.HasEnd) :
    s.run = if s.current.kind = .endOfFile then ([], s)
      else (s.fileRound.1.toList ++ s.fileRound.2.run.1, s.fileRound.2.run.2) := by
  rw [← declarations_eq_run hs (Nat.le_succ _), declarations]
  split
  · rfl
  · next hk =>
    have hlt := hs.fileRound_lt hk
    have hnext := hs.moves (moves_fileRound s)
    rw [← declarations_eq_run hnext (Nat.le_of_lt hlt)]
    cases h : Parser.declaration s.exitPanic with
    | ok node next => rw [State.fileRound_ok h]
    | error failure next => rw [State.fileRound_error h]; rfl

theorem moves_run (s : State) : Moves s s.run.2 := moves_declarations _ s

/-- A file is read to its end. -/
theorem State.HasEnd.run_current (hs : s.HasEnd) : s.run.2.current.kind = .endOfFile := by
  induction hn : s.unread.length using Nat.strongRecOn generalizing s with
  | _ n ih =>
      rw [hs.run_eq]
      split
      · next hk => exact hk
      · next hk =>
        exact ih _ (hn ▸ hs.fileRound_lt hk) (hs.moves (moves_fileRound s)) rfl

/-- There is nothing to read behind the end. -/
theorem State.HasEnd.run_end (hs : s.HasEnd) (hk : s.current.kind = .endOfFile) :
    s.run = ([], s) := by
  rw [hs.run_eq, if_pos hk]

/-! ## Blocks

The statements of a block are read by the same kind of loop. It never fails: a statement that fails is
skipped, and a closing brace that is missing is reported. -/

/-- One round in a block: the statement read, if it leaves a node, and the state behind it. It
differs from a round at file scope only in what may be read. -/
def State.blockRound (s : State) : Option Statement × State :=
  match Parser.statement Parser.statements s.exitPanic with
  | .ok node next => (node, next)
  | .error failure next => (none, next.recover failure s.unread.length)

/-- The statements of a block, and the state behind the closing brace. -/
def State.runBlock (s : State) : List Statement × State :=
  match Parser.statements s with
  | .ok nodes last => (nodes, last)
  | .error _ last => ([], last)

/-- The statements of a block are always read. -/
theorem statements_eq_runBlock (s : State) : statements s = .ok s.runBlock.1 s.runBlock.2 := by
  unfold State.runBlock
  cases h : statements s with
  | ok nodes last => rfl
  | error f last => exact absurd h (statementsWithin_ne_error _ _ _ _)

theorem State.blockRound_ok {node : Option Statement}
    (h : Parser.statement Parser.statements s.exitPanic = .ok node s') :
    s.blockRound = (node, s') := by
  rw [blockRound, h]

theorem State.blockRound_error {failure : Finding}
    (h : Parser.statement Parser.statements s.exitPanic = .error failure s') :
    s.blockRound = (none, s'.recover failure s.unread.length) := by
  rw [blockRound, h]

theorem moves_blockRound (s : State) : Moves s s.blockRound.2 := by
  have hexit : Moves s s.exitPanic := .of_change (.exitPanic s)
  have hregular := Regular.statement Regular.statements
  cases h : Parser.statement Parser.statements s.exitPanic with
  | ok node next =>
      rw [State.blockRound_ok h]
      exact hexit.trans (hregular.ok h)
  | error failure next =>
      obtain ⟨hm, hard⟩ := hregular.error h
      rw [State.blockRound_error h]
      exact (hexit.trans hm).trans (Regular.recover hard next _)

/-- A round in a block leaves fewer tokens. -/
theorem State.HasEnd.blockRound_lt (hs : s.HasEnd) (he : ¬ s.endsBlock) :
    s.blockRound.2.unread.length < s.unread.length := by
  have hexit : Moves s s.exitPanic := .of_change (.exitPanic s)
  have hs' : s.exitPanic.HasEnd := hs.moves hexit
  have hk : s.current.kind ≠ .endOfFile := fun hk => he (.inr hk)
  cases h : Parser.statement Parser.statements s.exitPanic with
  | ok node next =>
      have hlt := Shrinks.statement Regular.statements hs' h
      rw [State.blockRound_ok h]
      exact hlt
  | error failure next =>
      have hm := ((Regular.statement Regular.statements).error h).1
      rw [State.blockRound_error h]
      exact State.recover_lt (hs.length_pos hk) (hexit.trans hm).length_le failure

theorem moves_runBlock (s : State) : Moves s s.runBlock.2 :=
  Regular.statements.ok (statements_eq_runBlock s)

/-- Reading a block is nothing but its rounds, and its closing brace. -/
theorem State.HasEnd.statements_eq (hs : s.HasEnd) (he : ¬ s.endsBlock) :
    statements s =
      .ok (s.blockRound.1.toList ++ s.blockRound.2.runBlock.1) s.blockRound.2.runBlock.2 := by
  have hexit := hs.moves (.of_change (.exitPanic s))
  have hnext := hs.moves (moves_blockRound s)
  have hlt := hs.blockRound_lt he
  -- all of the fuel that is left at the first round serves for the inner blocks and the rest
  have hbelow : AgreeBelow s.unread.length statements (statementsWithin s.unread.length) :=
    fun t ht hlt => statementsWithin_eq ht hlt
  have hinner : statement (statementsWithin s.unread.length) s.exitPanic =
      statement statements s.exitPanic :=
    statement_congr hbelow hexit (Nat.le_refl _)
  have hrest : statementsWithin s.unread.length s.blockRound.2 =
      .ok s.blockRound.2.runBlock.1 s.blockRound.2.runBlock.2 := by
    rw [statementsWithin_eq hnext hlt, statements_eq_runBlock]
  change statementsWithin (s.unread.length + 1) s = _
  cases h : statement statements s.exitPanic with
  | ok node next =>
      rw [State.blockRound_ok h] at hrest ⊢
      exact statementsWithin_ok he (hinner.trans h) hrest
  | error failure next =>
      rw [State.blockRound_error h] at hrest ⊢
      exact (statementsWithin_error he (hinner.trans h)).trans hrest

/-- Where a block ends it is closed, and its brace is read or missed. -/
theorem State.runBlock_end (he : s.endsBlock) : s.runBlock = ([], s.closeBlock) := by
  rw [runBlock, statements, get_bind, statementsWithin_end he]

theorem State.HasEnd.runBlock_round (hs : s.HasEnd) (he : ¬ s.endsBlock) :
    s.runBlock = (s.blockRound.1.toList ++ s.blockRound.2.runBlock.1, s.blockRound.2.runBlock.2) := by
  rw [State.runBlock, hs.statements_eq he]

end FrontEnd.Grammar
