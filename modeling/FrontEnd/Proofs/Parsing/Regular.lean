import FrontEnd.Proofs.Parsing.Compositional

set_option autoImplicit false

/-! # All parsers are regular

The parsers that open no scope are regular since the primitive ones are (`Regular.grammar`). Those
of blocks, statements and files have one lemma each, in the order of the grammar. The parsers of
statements recurse on fuel, and so do their lemmas.

A block leaves its scope in any case, also when something in it has failed: the failures of statements
are caught inside the block. Only a function is left by a failure as well, and puts back what it had
changed on entering (`withinFunction`).
-/

namespace FrontEnd.Grammar

namespace Regular

/-! ## Parsers that open no scope -/

theorem report (f : Finding) (soft : f.issue.isSemantic) (s : State) :
    Moves s (s.report f) := .of_change (.complain s f soft)

theorem checkTarget (target : Expr) : Regular (Parser.checkTarget target) := by
  refine update fun s => ?_
  split
  · split
    · exact .refl s
    · split
      · exact report _ rfl s
      · exact .of_change (.setScopes s _)
  · exact report _ rfl s

theorem declare (symbol : Symbol) (t : Token) : Regular (Parser.declare symbol t) := by
  refine update fun s => ?_
  split
  · exact .of_change (.setScopes s _)
  · exact report _ rfl s

theorem noteEntryPoint (name : Token) (isExtern : Bool) :
    Regular (Parser.noteEntryPoint name isExtern) := by
  refine update fun s => ?_
  dsimp only
  split
  · exact .of_change (.setEntryPoint s true)
  · exact .refl s

theorem grammar : Declarative @Regular where
  pure := pure
  bind := bind
  get := get
  advance := advance
  complain := complain
  checkTarget := checkTarget
  fail := fail
  declare := declare
  noteEntryPoint := noteEntryPoint

/-! ## Statements

Entering and leaving a scope are changes of the table of scopes, so the parsers of blocks are
sequences of regular parts like all others. -/

theorem pushScope (kind : ScopeKind) : Regular (Parser.update (·.pushScope kind)) :=
  update fun s => .of_change (.setScopes s _)

theorem popScope : Regular (Parser.update State.popScope) :=
  update fun s => .of_change (.setScopes s _)

theorem block {inner : Parser (List Statement)} (hinner : Regular inner) :
    Regular (Parser.block inner) := by
  refine bind (expect ..) ?_
  intro opening
  refine bind (pushScope _) ?_
  intro _
  apply bind hinner
  intro _
  apply bind popScope
  intro _
  apply bind (locate opening)
  intro _
  exact pure _

theorem namedBlock {inner : Parser (List Statement)} (hinner : Regular inner) (name : Token) :
    Regular (Parser.namedBlock inner name) := by
  apply bind get
  intro _
  refine bind (onlyIf _ (complain rfl name)) ?_
  intro _
  apply bind (block hinner)
  intro _
  apply bind (locate name)
  intro _
  exact pure _

theorem nameBinding {inner : Parser (List Statement)} (hinner : Regular inner) :
    Regular (Parser.nameBinding inner) := by
  have hdefine (name : Token) (mutability : Mutability) :
      Regular (do
        let node ← Parser.finishBinding name none (some (← Parser.expression)) mutability
        let _ ← Parser.accept (.mark .semicolon)
        return node) := by
    apply bind grammar.expression
    intro _
    refine bind (grammar.finishBinding ..) ?_
    intro _
    refine bind (accept _) ?_
    intro _
    exact pure _
  apply bind take
  intro name
  apply bind take
  intro sign
  split
  · exact hdefine name _
  · exact hdefine name _
  · refine bind current fun t => ite (namedBlock hinner name) ?_
    refine bind (grammar.typeExpr _) ?_
    intro _
    apply bind grammar.optionalInit
    intro _
    refine bind (grammar.finishBinding ..) ?_
    intro _
    refine bind (accept _) ?_
    intro _
    exact pure _

theorem statement {inner : Parser (List Statement)} (hinner : Regular inner) :
    Regular (Parser.statement inner) := by
  refine bind get fun _ => ?_
  split
  · exact bind grammar.keywordBinding fun _ => pure _
  · exact bind grammar.keywordBinding fun _ => pure _
  · exact bind grammar.keywordBinding fun _ => pure _
  · exact bind grammar.returnStatement fun _ => pure _
  · exact bind (block hinner) fun _ => pure _
  · exact bind advance fun _ => pure _
  · exact fail rfl
  · exact fail rfl
  · exact fail rfl
  · exact fail rfl
  · refine ite (bind (nameBinding hinner) fun _ => pure _) ?_
    apply bind grammar.expression
    intro _
    refine bind (expect ..) ?_
    intro _
    exact pure _

/-! ## Recovery

Recovery reports the failure and skips tokens. What it leaves is a suffix of what was left before, as
the change requires: the searches only ever drop tokens from the front. -/

theorem skipGroups_suffix (depth : Nat) (tokens : List Token) :
    skipGroups depth tokens <:+ tokens := by
  induction tokens generalizing depth with
  | nil => exact List.suffix_rfl
  | cons t rest ih =>
      rw [skipGroups]
      split
      · exact (ih _).trans (List.suffix_cons t rest)
      · split
        · exact (List.dropWhile_suffix _).trans (List.suffix_cons t rest)
        · exact (ih _).trans (List.suffix_cons t rest)
      · exact (ih _).trans (List.suffix_cons t rest)

theorem synchronize_suffix (behindSemicolon : Bool) (tokens : List Token) :
    synchronize behindSemicolon tokens <:+ tokens := by
  induction tokens generalizing behindSemicolon with
  | nil => exact List.suffix_rfl
  | cons t rest ih =>
      have hrest : ∀ b, synchronize b rest <:+ t :: rest :=
        fun b => (ih b).trans (List.suffix_cons t rest)
      rw [synchronize]
      split
      · exact hrest _
      · split
        · exact List.suffix_rfl
        · split
          · exact List.suffix_rfl
          · exact skipGroups_suffix _ _
          · split
            · exact List.suffix_rfl
            · exact hrest _

theorem skipStatement_suffix (tokens : List Token) : skipStatement tokens <:+ tokens := by
  cases tokens with
  | nil => exact List.suffix_rfl
  | cons t rest =>
      rw [skipStatement]
      split
      · exact skipGroups_suffix _ _
      · exact (synchronize_suffix _ rest).trans (List.suffix_cons t rest)

theorem recover {failure : Finding} (hard : failure.issue.isGrammatical = true) (s : State)
    (before : Nat) : Moves s (s.recover failure before) := by
  have hunread : ((s.report failure).enterPanic).unread = s.unread := by
    unfold State.report State.enterPanic
    split
    · rfl
    · split <;> rfl
  refine (Moves.of_change (.fail s failure hard)).tail (.skip _ _ ?_ rfl)
  rw [hunread]
  split
  · exact skipStatement_suffix _
  · exact synchronize_suffix _ _

/-! ## Sequences of statements

A block recovers from what fails in it, and recovery is made of changes too. So a sequence of
statements is regular although it never fails. -/

theorem closeBlock (s : State) : Moves s s.closeBlock := by
  refine (Moves.of_change (.exitPanic s)).trans ?_
  rw [State.closeBlock]
  dsimp only
  split
  · exact .of_change (.advance _)
  · exact .of_change (.fail _ _ rfl)

theorem statementsWithin (fuel : Nat) : Regular (Parser.statementsWithin fuel) := by
  refine ⟨?_, fun h => (Parser.statementsWithin_ne_error _ _ _ _ h).elim⟩
  induction fuel with
  | zero => intro s a s' h; cases h; exact closeBlock s
  | succ fuel ih =>
      intro s a s' h
      have hinner : Regular (Parser.statementsWithin fuel) :=
        ⟨ih, fun h => (Parser.statementsWithin_ne_error _ _ _ _ h).elim⟩
      have hexit : Moves s s.exitPanic := .of_change (.exitPanic s)
      rcases Parser.statementsWithin_cases h with
        ⟨-, -, rfl⟩ | ⟨-, node, rest, next, hs, hr, -⟩ | ⟨-, failure, next, hs, hr⟩
      · exact closeBlock s
      · exact (hexit.trans ((statement hinner).ok hs)).trans (ih hr)
      · obtain ⟨hm, hard⟩ := (statement hinner).error hs
        exact ((hexit.trans hm).trans (recover hard next _)).trans (ih hr)

theorem statements : Regular Parser.statements := bind get fun _ => statementsWithin _

/-! ## Files -/

theorem namespaceLine : Regular Parser.namespaceLine := by
  apply bind take
  intro keyword
  refine bind (expect ..) ?_
  intro name
  refine bind (accept _) ?_
  intro _
  apply bind get
  intro s
  split
  · exact bind (complain rfl name) fun _ => pure _
  · refine bind (update fun s => ?_) fun _ => bind (locate keyword) fun _ => pure _
    exact (Moves.of_change (.setNamespace s _)).tail (.setScopes _ _)

theorem functionBody : Regular Parser.functionBody := by
  refine bind (expect ..) ?_
  intro opening
  apply bind statements
  intro _
  apply bind (locate opening)
  intro _
  exact pure _

theorem enterFunction (s : State) (params : List Param) : Moves s (s.enterFunction params) :=
  (Moves.of_change (.setScopes s (declareParams params (s.scopes.push .function)))).tail
    (.setInFunction _ true)

theorem leaveFunction (s : State) (wasInFunction : Bool) :
    Moves s (s.leaveFunction wasInFunction) :=
  (Moves.of_change (.setScopes s _)).tail (.setInFunction s.popScope wasInFunction)

theorem withinFunction {α : Type} {body : Parser α} (hbody : Regular body)
    (params : List Param) : Regular (Parser.withinFunction params body) := by
  constructor
  · intro s a s' h
    rw [Parser.withinFunction] at h
    split at h
    · next value next hb =>
      cases h
      exact ((enterFunction s params).trans (hbody.ok hb)).trans (leaveFunction next _)
    · cases h
  · intro s f s' h
    rw [Parser.withinFunction] at h
    split at h
    · cases h
    · next failure next hb =>
      cases h
      obtain ⟨hm, hard⟩ := hbody.error hb
      exact ⟨((enterFunction s params).trans hm).trans (leaveFunction next _), hard⟩

theorem function : Regular Parser.function := by
  apply bind (grammar.prototype false)
  intro _
  refine bind (withinFunction functionBody _) ?_
  intro _
  exact pure _

theorem externFunction : Regular Parser.externFunction := by
  apply bind take
  intro _
  apply bind current
  intro _
  refine ite ?_ (failExpecting _)
  apply bind (grammar.prototype true)
  intro _
  refine bind (accept _) ?_
  intro _
  exact pure _

theorem declaration : Regular Parser.declaration := by
  refine bind get fun s => ?_
  split
  · exact namespaceLine
  · exact bind function fun _ => pure _
  · exact bind function fun _ => pure _
  · exact bind externFunction fun _ => pure _
  · exact bind grammar.keywordBinding fun _ => pure _
  · exact bind grammar.keywordBinding fun _ => pure _
  · exact bind grammar.keywordBinding fun _ => pure _
  · exact bind grammar.returnStatement fun _ => pure _
  · exact ite (bind (nameBinding statements) fun _ => pure _) (failExpecting _)

end Regular

/-- Reading declarations makes only changes of the known kinds. -/
theorem moves_declarations (fuel : Nat) (s : State) : Moves s (declarations fuel s).2 := by
  induction fuel generalizing s with
  | zero => exact .refl s
  | succ fuel ih =>
      rw [declarations]
      split
      · exact .refl s
      · have hexit : Moves s s.exitPanic := .of_change (.exitPanic s)
        split
        · next node next hd =>
          exact (hexit.trans (Regular.declaration.ok hd)).trans (ih next)
        · next failure next hd =>
          obtain ⟨hm, hard⟩ := Regular.declaration.error hd
          exact ((hexit.trans hm).trans (Regular.recover hard next _)).trans (ih _)

end FrontEnd.Grammar
