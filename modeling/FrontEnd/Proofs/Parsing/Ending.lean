import FrontEnd.Proofs.Parsing.Recovery
import FrontEnd.Proofs.Parsing.Start

set_option autoImplicit false

/-! # Reading always ends

Whatever the text is, its reading comes to the end of the file by itself: no parser uses up the fuel
it is given, every round of a block or a file leaves fewer tokens, and the searches of recovery stop
at the boundaries they look for. A file that has been read to its end gives nothing more.

That a parser does not use up its fuel is said by its result: with more fuel it would be the same.
This holds in every state that has an end in front of it, and the parser is only ever in such
states.
-/

namespace FrontEnd

open Grammar

namespace Grammar

/-- Whatever is read from `s` on comes to an end by itself. A recursive parser does the same with any
fuel from some amount on, and a round leaves fewer tokens for the rounds behind it. -/
structure State.Ends (s : State) : Prop where
  expression : ∀ fuel, Parser.expressionFuel s.unread.length ≤ fuel →
    Parser.expressionWithin fuel s = Parser.expression s
  expressions : ∀ fuel, Parser.expressionFuel s.unread.length ≤ fuel →
    Parser.expressionsWithin fuel s = Parser.expressions s
  types : ∀ fuel, s.unread.length ≤ fuel →
    Parser.furtherTypes fuel s = Parser.furtherTypes s.unread.length s
  params : ∀ fuel before, s.unread.length < fuel →
    Parser.paramsFrom fuel before s = Parser.paramsFrom (s.unread.length + 1) before s
  statements : ∀ fuel, s.unread.length < fuel →
    Parser.statementsWithin fuel s = Parser.statements s
  declarations : ∀ fuel, s.unread.length ≤ fuel → Grammar.declarations fuel s = s.run
  blockRound : ¬ s.endsBlock → s.blockRound.2.unread.length < s.unread.length ∧
    s.runBlock =
      (s.blockRound.1.toList ++ s.blockRound.2.runBlock.1, s.blockRound.2.runBlock.2)
  fileRound : s.current.kind ≠ .endOfFile →
    s.fileRound.2.unread.length < s.unread.length ∧
      s.run = (s.fileRound.1.toList ++ s.fileRound.2.run.1, s.fileRound.2.run.2)

theorem State.HasEnd.ends {s : State} (hs : s.HasEnd) : s.Ends where
  expression _ := expressionWithin_eq hs
  expressions _ := expressionsWithin_eq hs
  types _ := furtherTypes_eq hs
  params _ before := paramsFrom_eq hs before
  statements _ := statementsWithin_eq hs
  declarations _ := declarations_eq_run hs
  blockRound he := ⟨hs.blockRound_lt he, hs.runBlock_round he⟩
  fileRound hk := ⟨hs.fileRound_lt hk, by rw [hs.run_eq, if_neg hk]⟩

/-- At the end of the file every run gives the same report, without declarations. -/
theorem State.HasEnd.runs_end {s : State} (hs : s.HasEnd) (hk : s.current.kind = .endOfFile)
    (n : Nat) : s.runs n = List.replicate n (Report.ofRun ([], s)) := by
  induction n with
  | zero => rfl
  | succ n ih => rw [State.runs, hs.run_end hk, ih, List.replicate_succ]

end Grammar

theorem Buffer.startState_hasEnd (b : Buffer) : b.startState.HasEnd := by
  rw [State.HasEnd, Buffer.startState, State.start, State.settle_finish]
  exact Stream.upTo_finish _ _

/-- Reading ends on every text. In all states that are reached the parsers end by themselves and the
rounds make progress; moving on drops the invalid tokens in front; the search for a boundary goes on
at the first one, and skips a group in braces without a count below zero. The current token is the end
of the file at last, and running the parser again then changes nothing and gives no declarations. -/
theorem parse_ends (b : Buffer) :
    (∀ s, Moves b.startState s → s.Ends) ∧
    (∀ (s : State) tokens, (s.settle tokens).unread = dropInvalid tokens) ∧
    (∀ tokens, synchronize false tokens =
      behindBoundary (tokens.dropWhile fun t => !endsSearch t.kind)) ∧
    (∀ (t : Token) rest, t.kind = .mark .leftBrace → ∃ group behind, rest = group ++ behind ∧
      Closes 1 group behind ∧ skipGroups 0 (t :: rest) = dropInvalid behind) ∧
    b.startState.run.2.current.kind = .endOfFile ∧
    ∀ n, b.startState.runs (n + 1) =
      b.parse :: List.replicate n { b.parse with declarations := [] } := by
  have hs := b.startState_hasEnd
  have hlast := hs.moves (moves_run b.startState)
  refine ⟨fun s hm => (hs.moves hm).ends, State.settle_unread, synchronize_eq,
    fun t rest hk => skipGroups_group hk rest, hs.run_current, fun n => ?_⟩
  rw [State.runs, hlast.runs_end hs.run_current]
  rfl

/-- A file of nothing but braces that do not match, read again from its end. -/
theorem parse_ends_braces :
    let braces := Buffer.ofText "braces.tp" "\x7d\x7b\x7d\x7b\x7b"
    braces.startState.runs 2 = [braces.parse, { braces.parse with declarations := [] }] :=
  (parse_ends _).2.2.2.2.2 1

end FrontEnd
