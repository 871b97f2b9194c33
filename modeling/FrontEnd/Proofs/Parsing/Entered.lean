import FrontEnd.Proofs.Parsing.Counting
import FrontEnd.Proofs.Parsing.Ending

set_option autoImplicit false

/-! # Every mistake is counted

Reading is two loops within each other: the rounds of a file, and the rounds of each block that a
round opens. `State.Enters` collects the states at the heads of these loops, over a whole run. What
is found in a loop stays found to the end of the run (`State.Enters.moves_last`), so a round that
fails, or a block that is still open at the end of the file, is counted there.

A parser fails as soon as a part of it fails (`Parser.bind_eq_error`), and only the two loops go on
behind a failure. So the rounds that fail are those in which any parser has failed at all.

The block of a round may be followed by more within the same round, and the round may fail behind it.
So what a round does is shown to pass through the state at the end of the block (`Passes`), for each
parser that reads a block, whatever it does from there on.
-/

namespace FrontEnd

open Grammar

namespace Grammar

open FrontEnd.Grammar.Parser

variable {α β : Type} {s s' t u start : State}

/-! ## Parsers that read a block

A parser that opens a block reads its statements to the end, whatever is wrong in them. Wherever it
succeeds or fails then, it has come through the state behind the last of them. -/

/-- Whatever the parser does from `s` on, it passes through the state `u`: the state in which it
succeeds or fails is reached from `u`. -/
structure Passes (u : State) (p : Parser α) (s : State) : Prop where
  ok : ∀ {a s'}, p s = .ok a s' → Moves u s'
  error : ∀ {f s'}, p s = .error f s' → Moves u s'

namespace Passes

theorem of_ok {p : Parser α} {a : α} (hp : p s = .ok a s') (hm : Moves u s') : Passes u p s where
  ok h := by rw [hp] at h; cases h; exact hm
  error h := by rw [hp] at h; cases h

theorem bind {p : Parser α} {q : α → Parser β} (h : Passes u p s) (hq : ∀ a, Regular (q a)) :
    Passes u (p >>= q) s where
  ok hok := by
    obtain ⟨a, s', hp, hrest⟩ := bind_eq_ok.mp hok
    exact (h.ok hp).trans ((hq a).ok hrest)
  error herror := by
    rcases bind_eq_error.mp herror with hp | ⟨a, s', hp, hrest⟩
    · exact h.error hp
    · exact (h.ok hp).trans ((hq a).error hrest).1

theorem behind {p : Parser α} {q : α → Parser β} {a : α} (hp : p s = .ok a s')
    (h : Passes u (q a) s') : Passes u (p >>= q) s := by
  constructor
  · rw [bind_of_ok hp]
    exact h.ok
  · rw [bind_of_ok hp]
    exact h.error

end Passes

/-- The statements of a block are read to the state behind it. -/
theorem passes_statements (s : State) : Passes s.runBlock.2 statements s :=
  .of_ok (statements_eq_runBlock s) (.refl _)

theorem passes_block (hk : s.current.kind = .mark .leftBrace) :
    Passes s.openBlock.runBlock.2 (block statements) s := by
  refine .behind (expect_of_kind _ hk) (.behind rfl ?_)
  apply (passes_statements s.openBlock).bind
  intro _
  refine .bind .popScope ?_
  intro _
  refine .bind (.locate _) ?_
  intro _
  exact .pure _

theorem passes_nameBinding (h : s.AtNamed) :
    Passes s.openNamed.runBlock.2 (nameBinding statements) s := by
  obtain ⟨-, hcolon, hbrace⟩ := h
  refine .behind rfl (.behind rfl ?_)
  rw [hcolon]
  refine .behind rfl ?_
  rw [if_pos hbrace, namedBlock]
  refine .behind rfl (.behind (onlyIf_complain_eq ..) ?_)
  have hblock := passes_block (s := s.behindLabel) (by rw [s.behindLabel_current]; exact hbrace)
  apply hblock.bind
  intro _
  refine .bind (.locate _) ?_
  intro _
  exact .pure _

theorem passes_statement (h : s.openedInBlock? = some t) :
    Passes t.runBlock.2 (statement statements) s := by
  refine .behind rfl ?_
  unfold State.openedInBlock? at h
  split at h
  · next hk =>
    cases h
    rw [hk]
    exact (passes_block hk).bind fun _ => .pure _
  · split at h
    · next hnamed =>
      cases h
      have hident := State.current_of_startsBinding hnamed.1
      rw [hident, if_pos hnamed.1]
      exact (passes_nameBinding hnamed).bind fun _ => .pure _
    · cases h

theorem Passes.withinFunction {body : Parser α} {params : List Param}
    (h : Passes u body (s.enterFunction params)) : Passes u (withinFunction params body) s := by
  have hleave (s : State) (wasInFunction : Bool) : Moves s (s.leaveFunction wasInFunction) :=
    (Moves.of_change (.setScopes s _)).tail (.setInFunction s.popScope wasInFunction)
  constructor
  · intro a s' hok
    rw [Parser.withinFunction] at hok
    split at hok
    · next hbody =>
      cases hok
      exact (h.ok hbody).trans (hleave _ _)
    · cases hok
  · intro f s' herror
    rw [Parser.withinFunction] at herror
    split at herror
    · cases herror
    · next hbody =>
      cases herror
      exact (h.error hbody).trans (hleave _ _)

theorem passes_function (h : s.openBody? = some t) : Passes t.runBlock.2 function s := by
  rw [State.openBody?] at h
  split at h
  · next head next hhead =>
    dsimp only at h
    split at h
    · next hk =>
      cases h
      have hbody : Passes (next.enterFunction head.params).advance.runBlock.2 functionBody
          (next.enterFunction head.params) :=
        .behind (expect_of_kind _ hk) ((passes_statements _).bind fun _ =>
          .bind (.locate _) fun _ => .pure _)
      exact .behind hhead (hbody.withinFunction.bind fun _ => .pure _)
    · cases h
  · cases h

theorem passes_declaration (h : s.openedAtFile? = some t) :
    Passes t.runBlock.2 declaration s := by
  refine .behind rfl ?_
  unfold State.openedAtFile? at h
  split at h
  · next hk =>
    rw [hk]
    exact (passes_function h).bind fun _ => .pure _
  · next hk =>
    rw [hk]
    exact (passes_function h).bind fun _ => .pure _
  · split at h
    · next hnamed =>
      cases h
      rw [State.current_of_startsBinding hnamed.1, if_pos hnamed.1]
      exact (passes_nameBinding hnamed).bind fun _ => .pure _
    · cases h

/-! ## The loops of a run

The two loops have the same parts: when they stop, what a round leads to, when a round fails, and
which block it opens. Each part is a function of the loop, so that what holds of both is stated
once. -/

/-- The loops of reading: over the declarations of a file, and over the statements of a block. Both
of them recover from what fails, and go round until there is nothing left for them. -/
inductive Loop where
  | file
  | block

namespace State

/-- The loop is over. -/
def stops : Loop → State → Prop
  | .file, s => s.current.kind = .endOfFile
  | .block, s => s.endsBlock

/-- The state behind one round. -/
def round : Loop → State → State
  | .file, s => s.fileRound.2
  | .block, s => s.blockRound.2

/-- The state behind the loop. -/
def last : Loop → State → State
  | .file, s => s.run.2
  | .block, s => s.runBlock.2

/-- The declaration or the statement of a round fails. -/
def Fails : Loop → State → Prop
  | .file, s => ∃ failure next, declaration s.exitPanic = .error failure next
  | .block, s => ∃ failure next, statement statements s.exitPanic = .error failure next

/-- The state in the block that a round opens, if it opens one. -/
def opened? : Loop → State → Option State
  | .file, s => s.exitPanic.openedAtFile?
  | .block, s => s.exitPanic.openedInBlock?

/-- The states at the heads of all loops of a run: that of the file, and those of the blocks that
rounds open. -/
inductive Enters (start : State) : Loop → State → Prop where
  | file : Enters start .file start
  | round {loop : Loop} {s : State} (head : Enters start loop s) (goes : ¬ s.stops loop) :
      Enters start loop (s.round loop)
  | block {loop : Loop} {s t : State} (head : Enters start loop s) (goes : ¬ s.stops loop)
      (opens : s.opened? loop = some t) : Enters start .block t

theorem moves_round (loop : Loop) (s : State) : Moves s (s.round loop) := by
  cases loop with
  | file => exact moves_fileRound s
  | block => exact moves_blockRound s

theorem moves_last (loop : Loop) (s : State) : Moves s (s.last loop) := by
  cases loop with
  | file => exact moves_run s
  | block => exact moves_runBlock s

theorem moves_opened {loop : Loop} (h : s.opened? loop = some t) : Moves s t := by
  refine (Moves.of_change (.exitPanic s)).trans ?_
  cases loop with
  | file => exact moves_openedAtFile h
  | block => exact moves_openedInBlock h

/-- A loop goes on behind each round. -/
theorem HasEnd.last_round {loop : Loop} (hs : s.HasEnd) (h : ¬ s.stops loop) :
    (s.round loop).last loop = s.last loop := by
  cases loop with
  | file =>
      have hk : s.current.kind ≠ .endOfFile := h
      rw [last, last, hs.run_eq, if_neg hk]
      rfl
  | block => rw [last, last, hs.runBlock_round h]; rfl

/-- A block that a round opens is read within the round. -/
theorem moves_round_of_opened {loop : Loop} (h : s.opened? loop = some t) :
    Moves (t.last .block) (s.round loop) := by
  cases loop with
  | file =>
      have hpass := passes_declaration h
      cases hd : declaration s.exitPanic with
      | ok node next =>
          rw [round, fileRound_ok hd]
          exact hpass.ok hd
      | error failure next =>
          rw [round, fileRound_error hd]
          exact (hpass.error hd).trans (Regular.recover (Regular.declaration.error hd).2 next _)
  | block =>
      have hpass := passes_statement h
      cases hd : statement statements s.exitPanic with
      | ok node next =>
          rw [round, blockRound_ok hd]
          exact hpass.ok hd
      | error failure next =>
          have hard := ((Regular.statement Regular.statements).error hd).2
          rw [round, blockRound_error hd]
          exact (hpass.error hd).trans (Regular.recover hard next _)

namespace Enters

variable {loop : Loop}

theorem moves (h : start.Enters loop s) : Moves start s := by
  induction h with
  | file => exact .refl _
  | round head goes ih => exact ih.trans (moves_round _ _)
  | block head goes opens ih => exact ih.trans (moves_opened opens)

/-- What is entered from behind some rounds of a file is entered from the start. -/
theorem trans (h : start.Enters .file s) (h' : s.Enters loop t) : start.Enters loop t := by
  induction h' with
  | file => exact h
  | round _ goes ih => exact .round ih goes
  | block _ goes opens ih => exact .block ih goes opens

/-- A run goes on behind every loop that it enters. By induction on how the loop was entered: the loop
ends where it ends from its next round on, and a block ends before the round that opened it. -/
theorem moves_last (hstart : start.HasEnd) (h : start.Enters loop s) :
    Moves (s.last loop) start.run.2 := by
  induction h with
  | file => exact .refl _
  | round head goes ih => rwa [(hstart.moves head.moves).last_round goes]
  | @block loop s t head goes opens ih =>
      rw [← (hstart.moves head.moves).last_round goes] at ih
      exact ((moves_round_of_opened opens).trans (State.moves_last loop _)).trans ih

end Enters

/-! ## Mistakes in a loop

What goes wrong within a block goes wrong in the run of the loop around it. By induction on how the
block was entered it is counted in the run of the file. -/

/-- A round that fails counts an error. -/
theorem Counted.one_le_of_fails {loop : Loop} (hs : s.Counted) (h : s.Fails loop) :
    1 ≤ (s.round loop).errors := by
  have hexit := (Moves.of_change (.exitPanic s)).counted hs
  have hrecover {failure : Finding} {next : State} (before : Nat) (hnext : next.Counted)
      (hard : failure.issue.isGrammatical = true) : 1 ≤ (next.recover failure before).errors :=
    hnext.one_le_report (Finding.isError_of_isGrammatical hard)
  cases loop with
  | file =>
      obtain ⟨failure, next, hd⟩ := h
      obtain ⟨hm, hard⟩ := Regular.declaration.error hd
      rw [round, fileRound_error hd]
      exact hrecover _ (hm.counted hexit) hard
  | block =>
      obtain ⟨failure, next, hd⟩ := h
      obtain ⟨hm, hard⟩ := (Regular.statement Regular.statements).error hd
      rw [round, blockRound_error hd]
      exact hrecover _ (hm.counted hexit) hard

/-- A block without its closing brace counts an error. -/
theorem Counted.one_le_of_open (hs : s.Counted) (hk : s.current.kind = .endOfFile) :
    1 ≤ (s.last .block).errors := by
  have hexit := (Moves.of_change (.exitPanic s)).counted hs
  have hne : s.exitPanic.current.kind ≠ .mark .rightBrace := by
    intro he
    rw [show s.exitPanic.current = s.current from rfl, hk] at he
    cases he
  rw [last, runBlock_end (.inr hk), closeBlock]
  dsimp only
  rw [if_neg hne]
  exact hexit.one_le_report rfl

end State

end Grammar

/-! ## The report on a buffer -/

/-- Something went wrong while a buffer was read: a token is invalid, the declaration or the statement
of a round fails, or a block is still open at the end of the file. -/
inductive Buffer.Flawed (b : Buffer) : Prop where
  | token {t : Token} (read : t ∈ b.tokens) (invalid : t.kind = .invalid)
  | failure {loop : Loop} {s : State} (head : b.startState.Enters loop s) (goes : ¬ s.stops loop)
      (fails : s.Fails loop)
  | openBlock {s : State} (head : b.startState.Enters .block s) (ends : s.current.kind = .endOfFile)

theorem Buffer.startState_counted (b : Buffer) :
    b.startState.Counted ∧ b.startState.Seen (invalidTokens b.tokens) := by
  refine ⟨State.Counted.settle ?_ _, State.Counted.seen_settle ?_ rfl rfl⟩
  · exact ⟨rfl, rfl, nofun⟩
  · exact ⟨rfl, rfl, nofun⟩

/-- No token is left at the end of a run. -/
theorem Buffer.run_unread (b : Buffer) : b.startState.run.2.unread = [] := by
  have hend := b.startState_hasEnd.run_current
  have hunread : b.startState.run.2.unread <:+ b.tokens := by
    refine (moves_run b.startState).unread_suffix.trans ?_
    exact State.settle_suffix _ _
  cases h : b.startState.run.2.unread with
  | nil => rfl
  | cons t rest =>
      rw [h] at hunread
      have hne := (Stream.upTo_tokens (hunread.subset List.mem_cons_self)).1
      rw [State.current, h] at hend
      exact absurd hend hne

theorem Buffer.Flawed.one_le_errors {b : Buffer} (h : b.Flawed) : 1 ≤ b.parse.errors := by
  have hend := b.startState_hasEnd
  obtain ⟨hcounted, hseen⟩ := b.startState_counted
  change 1 ≤ b.startState.run.2.errors
  cases h with
  | @token t read invalid =>
      rcases (moves_run b.startState).seen hcounted hseen with herror | ⟨-, -, hleft⟩
      · exact herror
      · -- none of the invalid tokens is left at the end
        rw [b.run_unread] at hleft
        have hpos : 0 < invalidTokens b.tokens :=
          List.countP_pos_iff.mpr ⟨t, read, by rw [invalid]; rfl⟩
        rw [← hleft] at hpos
        cases hpos
  | @failure loop s head goes fails =>
      calc 1 ≤ (s.round loop).errors := (head.moves.counted hcounted).one_le_of_fails fails
        _ ≤ ((s.round loop).last loop).errors := (State.moves_last loop _).errors_le
        _ ≤ b.startState.run.2.errors := ((head.round goes).moves_last hend).errors_le
  | @openBlock s head ends =>
      calc 1 ≤ (s.last .block).errors := (head.moves.counted hcounted).one_le_of_open ends
        _ ≤ b.startState.run.2.errors := (head.moves_last hend).errors_le

/-- The counters of a report are the numbers of its errors and its warnings, a state in panic has
always counted an error, and whatever goes wrong is counted. So a file whose report is good consists
of valid tokens, every declaration and every statement of it was read, and every block is closed. -/
theorem parse_counts (b : Buffer) :
    b.parse.errors = (b.parse.diagnostics b).countP (·.severity == .error) ∧
    b.parse.warnings = (b.parse.diagnostics b).countP (·.severity == .warning) ∧
    (∀ s, Moves b.startState s → s.panic = true → 1 ≤ s.errors) ∧
    (b.Flawed → 1 ≤ b.parse.errors) ∧
    (b.parse.isOk = true → ¬ b.Flawed) := by
  have hcounted := b.startState_counted.1
  have hlast := (moves_run b.startState).counted hcounted
  have hcount (severity : Severity) : (b.parse.diagnostics b).countP (·.severity == severity) =
      b.startState.run.2.findings.countP (·.issue.severity == severity) := by
    rw [Report.diagnostics, List.countP_map]
    rfl
  refine ⟨?_, ?_, fun s hm hp => (hm.counted hcounted).of_panic hp, fun h => h.one_le_errors,
    fun hok h => ?_⟩
  · rw [hcount]
    exact hlast.errors_eq
  · rw [hcount]
    refine hlast.warnings_eq.trans (List.countP_congr fun f _ => ?_)
    rw [Finding.isError]
    cases f.issue.severity <;> decide
  · have herror := h.one_le_errors
    rw [Report.isOk, beq_iff_eq] at hok
    omega

/-- An invalid token behind a binding that fails. -/
theorem parse_counts_swallowed :
    let b := Buffer.ofText "swallowed.tp" "let = 1 $"
    b.Flawed ∧ 1 ≤ b.parse.errors := by
  have hflawed : (Buffer.ofText "swallowed.tp" "let = 1 $").Flawed :=
    .token (t := .invalid .unexpectedCharacter ⟨1, 9⟩) (by decide) rfl
  exact ⟨hflawed, (parse_counts _).2.2.2.1 hflawed⟩

end FrontEnd
