import FrontEnd.Proofs.Parsing.Balanced

set_option autoImplicit false

/-! # The mark of the entry point

A file is marked as soon as the name `main` has been read in the head of a function at file scope,
long before the function itself is read. Nothing else touches the mark (`SameEntry`). Reading that
function may still fail, but then an error is counted. So in a file without errors the mark stands
for a function among its trees.

The mark does not tell functions from methods: a method named `main` sets it too.

The proof goes through the parsers from the inside. Everything below a head of a function leaves the
mark alone, whether it succeeds or fails, so this is a property of the whole grammar but for one place
(`Leads.sameEntry`). That place is looked at by hand (`noteEntryPoint_entryPoint`): there the scope
matters, and that it is the file's own is the balance of scopes. What one round of a file does to the
mark follows (`AtFileScope.fileRound_entryPoint`), and the whole file by induction on what is unread.
-/

namespace FrontEnd

namespace Declaration

/-- A function of the given kind that is named `main` and has a body. -/
def isMain (kind : FunctionKind) : Declaration → Bool
  | .function head _ _ => head.name == "main" && head.kind == kind && !head.isExtern
  | _ => false

/-- What marks a file: a function or a method that is named `main`. Which of the two it is plays no
part, and neither do its arguments. -/
def marksEntry (d : Declaration) : Bool := d.isMain .function || d.isMain .method

@[simp] theorem marksEntry_namespaceLine (name : String) (loc : Location) :
    (namespaceLine name loc).marksEntry = false := rfl

@[simp] theorem marksEntry_externFunction (head : Prototype) :
    (externFunction head).marksEntry = false := rfl

@[simp] theorem marksEntry_statement (s : Statement) : (statement s).marksEntry = false := rfl

theorem marksEntry_function (head : Prototype) (body : List Statement) (loc : Location) :
    (function head body loc).marksEntry = (head.name == "main" && !head.isExtern) := by
  obtain ⟨name, params, returns, kind, isExtern, nameLoc⟩ := head
  cases kind <;> simp [marksEntry, isMain]

end Declaration

namespace Grammar

open FrontEnd.Grammar.Parser

variable {α : Type} {s s' : State}

/-! ## What leaves the mark alone

The parsers that declare no function are built of steps that leave the mark alone, and sequencing
keeps it so. Those that use the scopes are added one by one, since scopes are no part of the common
grammar. -/

/-- The file is marked iff it was before. All parsers but those of functions lead to this, whether
they succeed or fail. -/
def SameEntry (s s' : State) : Prop := s'.entryPoint = s.entryPoint

namespace SameEntry

theorem trans {s s' s'' : State} (h : SameEntry s s') (h' : SameEntry s' s'') : SameEntry s s'' :=
  Eq.trans h' h

theorem report (s : State) (f : Finding) : SameEntry s (s.report f) := by
  unfold State.report SameEntry
  split
  · rfl
  · split <;> rfl

theorem settle (s : State) (tokens : List Token) : SameEntry s (s.settle tokens) := by
  induction tokens generalizing s with
  | nil => rfl
  | cons t rest ih =>
      rw [State.settle]
      split
      · exact (report s _).trans (ih (s.report _).enterPanic)
      · rfl

theorem recover (s : State) (failure : Finding) (before : Nat) :
    SameEntry s (s.recover failure before) := report s failure

theorem closeBlock (s : State) : SameEntry s s.closeBlock := by
  rw [State.closeBlock]
  dsimp only
  split
  · exact settle s.exitPanic _
  · exact report s.exitPanic _

end SameEntry

namespace Leads

/-- What declares nothing leaves the mark alone. -/
theorem sameEntry : Compositional (@Leads SameEntry SameEntry) where
  pure a := ⟨fun h => by cases h; rfl, fun h => by cases h⟩
  bind hp hq := hp.bind hq .trans id .trans
  get := ⟨fun h => by cases h; rfl, fun h => by cases h⟩
  advance := update fun s => .settle s _
  complain _ _ := update fun s => .report s _
  checkTarget target := by
    refine update fun s => ?_
    split
    · split
      · rfl
      · split
        · exact .report s _
        · rfl
    · exact .report s _
  fail _ := ⟨fun h => absurd h fail_ne_ok, fun h => by cases h; rfl⟩

namespace SameEntry

theorem declare (symbol : Symbol) (t : Token) :
    Leads SameEntry SameEntry (Parser.declare symbol t) := by
  refine update fun s => ?_
  split
  · rfl
  · exact .report s _

theorem finishBinding (name : Token) (type : Option TypeExpr) (init : Option Expr)
    (mutability : Mutability) :
    Leads SameEntry SameEntry (Parser.finishBinding name type init mutability) := by
  apply sameEntry.bind (sameEntry.locate name)
  intro _
  refine sameEntry.bind (declare ..) ?_
  intro _
  exact sameEntry.pure _

theorem keywordBinding : Leads SameEntry SameEntry Parser.keywordBinding := by
  apply sameEntry.bind sameEntry.take
  intro _
  refine sameEntry.bind (sameEntry.expect ..) ?_
  intro name
  apply sameEntry.bind sameEntry.optionalType
  intro _
  apply sameEntry.bind sameEntry.optionalInit
  intro _
  refine sameEntry.bind (sameEntry.accept _) ?_
  intro _
  refine sameEntry.bind (sameEntry.onlyIf _ (sameEntry.complain rfl name)) ?_
  intro _
  exact finishBinding ..

section

variable {inner : Parser (List Statement)} (hinner : Leads SameEntry SameEntry inner)
include hinner

theorem block : Leads SameEntry SameEntry (Parser.block inner) := by
  refine sameEntry.bind (sameEntry.expect ..) ?_
  intro opening
  refine sameEntry.bind (update fun _ => rfl) ?_
  intro _
  apply sameEntry.bind hinner
  intro _
  refine sameEntry.bind (update fun _ => rfl) ?_
  intro _
  apply sameEntry.bind (sameEntry.locate opening)
  intro _
  exact sameEntry.pure _

theorem namedBlock (name : Token) : Leads SameEntry SameEntry (Parser.namedBlock inner name) := by
  apply sameEntry.bind sameEntry.get
  intro _
  refine sameEntry.bind (sameEntry.onlyIf _ (sameEntry.complain rfl name)) ?_
  intro _
  apply sameEntry.bind (block hinner)
  intro _
  apply sameEntry.bind (sameEntry.locate name)
  intro _
  exact sameEntry.pure _

theorem nameBinding : Leads SameEntry SameEntry (Parser.nameBinding inner) := by
  have hsigned (name : Token) (mutability : Mutability) :
      Leads SameEntry SameEntry (do
        let node ← Parser.finishBinding name none (some (← expression)) mutability
        let _ ← Parser.accept (.mark .semicolon)
        return node) :=
    sameEntry.bind sameEntry.expression fun _ => sameEntry.bind (finishBinding ..) fun _ =>
      sameEntry.bind (sameEntry.accept _) fun _ => sameEntry.pure _
  apply sameEntry.bind sameEntry.take
  intro name
  apply sameEntry.bind sameEntry.take
  intro sign
  split
  · exact hsigned name .mutable
  · exact hsigned name .constant
  · refine sameEntry.bind sameEntry.current fun t =>
      Compositional.ite (namedBlock hinner name) ?_
    refine sameEntry.bind (sameEntry.typeExpr _) ?_
    intro _
    apply sameEntry.bind sameEntry.optionalInit
    intro _
    refine sameEntry.bind (finishBinding ..) ?_
    intro _
    refine sameEntry.bind (sameEntry.accept _) ?_
    intro _
    exact sameEntry.pure _

theorem statement : Leads SameEntry SameEntry (Parser.statement inner) := by
  refine sameEntry.bind sameEntry.get fun _ => ?_
  split
  · exact sameEntry.bind keywordBinding fun _ => sameEntry.pure _
  · exact sameEntry.bind keywordBinding fun _ => sameEntry.pure _
  · exact sameEntry.bind keywordBinding fun _ => sameEntry.pure _
  · exact sameEntry.bind sameEntry.returnStatement fun _ => sameEntry.pure _
  · exact sameEntry.bind (block hinner) fun _ => sameEntry.pure _
  · exact sameEntry.bind sameEntry.advance fun _ => sameEntry.pure _
  · exact sameEntry.fail rfl
  · exact sameEntry.fail rfl
  · exact sameEntry.fail rfl
  · exact sameEntry.fail rfl
  · refine Compositional.ite (sameEntry.bind (nameBinding hinner) fun _ => sameEntry.pure _) ?_
    apply sameEntry.bind sameEntry.expression
    intro _
    refine sameEntry.bind (sameEntry.expect ..) ?_
    intro _
    exact sameEntry.pure _

end

theorem statementsWithin (fuel : Nat) :
    Leads SameEntry SameEntry (Parser.statementsWithin fuel) := by
  refine ⟨?_, fun h => (statementsWithin_ne_error _ _ _ _ h).elim⟩
  induction fuel with
  | zero => intro s a s' h; cases h; exact .closeBlock s
  | succ fuel ih =>
      intro s a s' h
      have hinner : Leads SameEntry SameEntry (Parser.statementsWithin fuel) :=
        ⟨ih, fun h => (statementsWithin_ne_error _ _ _ _ h).elim⟩
      rcases statementsWithin_cases h with
        ⟨-, -, rfl⟩ | ⟨-, node, rest, next, hs, hr, -⟩ | ⟨-, failure, next, hs, hr⟩
      · exact .closeBlock s
      · exact ((statement hinner).ok hs).trans (ih hr)
      · exact (((statement hinner).error hs).trans (.recover next failure _)).trans (ih hr)

theorem statements : Leads SameEntry SameEntry Parser.statements :=
  sameEntry.bind sameEntry.get fun _ => statementsWithin _

theorem functionBody : Leads SameEntry SameEntry Parser.functionBody := by
  refine sameEntry.bind (sameEntry.expect ..) ?_
  intro opening
  apply sameEntry.bind statements
  intro _
  apply sameEntry.bind (sameEntry.locate opening)
  intro _
  exact sameEntry.pure _

theorem namespaceLine : Leads SameEntry SameEntry Parser.namespaceLine := by
  apply sameEntry.bind sameEntry.take
  intro keyword
  refine sameEntry.bind (sameEntry.expect ..) ?_
  intro name
  refine sameEntry.bind (sameEntry.accept _) ?_
  intro _
  apply sameEntry.bind sameEntry.get
  intro _
  split
  · exact sameEntry.bind (sameEntry.complain rfl name) fun _ => sameEntry.pure _
  · refine sameEntry.bind (update fun _ => rfl) ?_
    intro _
    apply sameEntry.bind (sameEntry.locate keyword)
    intro _
    exact sameEntry.pure _

end SameEntry

end Leads

/-! ## Functions

At file scope the mark is set by the head of a function alone, and what it is set to depends on the
name and on whether there is to be a body. -/

/-- At file scope the innermost scope is the file's own or that of its namespace. -/
theorem State.AtFileScope.currentKind (h : s.AtFileScope) :
    s.scopes.currentKind = .file ∨ s.scopes.currentKind = .namespaceScope := by
  have hkind : s.scopes.currentKind =
      ((s.scopes.outline[s.scopes.current]?).map Prod.fst).getD .file := by
    rw [ScopeTable.currentKind, ScopeTable.outline, List.getElem?_map, Array.getElem?_toList]
    cases s.scopes.scopes[s.scopes.current]? <;> rfl
  rw [hkind]
  by_cases hset : s.namespaceLine = none
  · rw [(h.unset hset).1, h.root]
    exact .inl rfl
  · rw [(h.set hset).1]
    exact .inr rfl

/-- The name `main` of a function with a body marks the file. -/
theorem noteEntryPoint_entryPoint (h : s.AtFileScope) {name : Token} {isExtern : Bool} {u : Unit}
    (hok : noteEntryPoint name isExtern s = .ok u s') :
    s'.entryPoint = (s.entryPoint || (name.lexeme == "main" && !isExtern)) := by
  have hscope := h.currentKind
  obtain rfl := update_eq_ok.mp hok
  cases isExtern <;> by_cases hname : name.lexeme = "main" <;> simp [hname, hscope]

/-- What the head of a function does to the mark, at file scope. -/
theorem prototype_entryPoint (h : s.AtFileScope) {isExtern : Bool} {head : Prototype}
    (hok : prototype isExtern s = .ok head s') :
    head.isExtern = isExtern ∧
      s'.entryPoint = (s.entryPoint || (head.name == "main" && !isExtern)) := by
  rw [prototype, take_bind] at hok
  obtain ⟨name, s1, hname, hok⟩ := bind_eq_ok.mp hok
  obtain ⟨_, s2, hdeclare, hok⟩ := bind_eq_ok.mp hok
  obtain ⟨_, s3, hleft, hok⟩ := bind_eq_ok.mp hok
  obtain ⟨params, s4, hparams, hok⟩ := bind_eq_ok.mp hok
  obtain ⟨_, s5, hright, hok⟩ := bind_eq_ok.mp hok
  obtain ⟨returns, s6, hreturns, hok⟩ := bind_eq_ok.mp hok
  rw [locate_bind] at hok
  obtain ⟨rfl, rfl⟩ := pure_eq_ok.mp hok
  refine ⟨rfl, ?_⟩
  -- the name is noted at file scope still, and all else leaves the mark alone
  have hstill : Still s s1 := (Still.advance s).trans ((Leads.still.expect ..).ok hname)
  have hbefore : SameEntry s s1 :=
    (SameEntry.settle s _).trans ((Leads.sameEntry.expect ..).ok hname)
  have hbehind : SameEntry s2 s' :=
    ((((Leads.sameEntry.expect ..).ok hleft).trans (Leads.sameEntry.params.ok hparams)).trans
      ((Leads.sameEntry.expect ..).ok hright)).trans ((Leads.sameEntry.returnTypes _).ok hreturns)
  obtain ⟨u, t, hnote, hrest⟩ := bind_eq_ok.mp hdeclare
  rw [locate_bind] at hrest
  have hdeclared : SameEntry t s2 := (Leads.SameEntry.declare ..).ok hrest
  calc s'.entryPoint = t.entryPoint := hdeclared.trans hbehind
    _ = (s1.entryPoint || (name.lexeme == "main" && !isExtern)) :=
        noteEntryPoint_entryPoint (h.balanced hstill.balanced) hnote
    _ = (s.entryPoint || (name.lexeme == "main" && !isExtern)) := by rw [hbefore]

/-- A function that is read marks the file iff its tree is one that does. -/
theorem function_entryPoint (h : s.AtFileScope) {d : Declaration} (hok : function s = .ok d s') :
    s'.entryPoint = (s.entryPoint || d.marksEntry) := by
  obtain ⟨head, s1, hhead, hok⟩ := bind_eq_ok.mp hok
  obtain ⟨⟨body, loc⟩, s2, hbody, hok⟩ := bind_eq_ok.mp hok
  obtain ⟨rfl, rfl⟩ := pure_eq_ok.mp hok
  obtain ⟨hisExtern, hmark⟩ := prototype_entryPoint h hhead
  -- the body is read in a scope of its own, which the mark does not notice
  have hsame : SameEntry s1 s' := by
    rw [withinFunction] at hbody
    split at hbody
    · next hinner =>
      cases hbody
      have hread : SameEntry (s1.enterFunction head.params) _ :=
        Leads.SameEntry.functionBody.ok hinner
      exact hread
    · cases hbody
  rw [hsame, hmark, Declaration.marksEntry_function, hisExtern]

/-- An extern function marks nothing, whatever its name is. -/
theorem externFunction_entryPoint (h : s.AtFileScope) {d : Declaration}
    (hok : externFunction s = .ok d s') : s'.entryPoint = s.entryPoint := by
  rw [externFunction, take_bind, current_bind] at hok
  split at hok
  · obtain ⟨head, s1, hhead, hok⟩ := bind_eq_ok.mp hok
    obtain ⟨_, s2, haccept, hok⟩ := bind_eq_ok.mp hok
    obtain ⟨rfl, rfl⟩ := pure_eq_ok.mp hok
    have hbefore := h.balanced (Still.advance s).balanced
    have hmark := (prototype_entryPoint hbefore hhead).2
    have hbehind : SameEntry s1 s' := (Leads.sameEntry.accept _).ok haccept
    have hadvance : SameEntry s s.advance := .settle s _
    rw [hbehind, hmark, hadvance]
    simp
  · exact absurd hok failExpecting_ne_ok

/-! ## Files

The file is marked by one of its declarations, at file scope. The marks of all declarations are
collected round by round. -/

/-- A declaration at file scope marks the file iff it is a function named `main`. -/
theorem declaration_entryPoint (h : s.AtFileScope) {node : Option Declaration}
    (hok : declaration s = .ok node s') :
    s'.entryPoint = (s.entryPoint || node.any Declaration.marksEntry) := by
  -- statements leave the mark alone and are no function, so both sides are as before
  have hstatement {p : Parser Statement} (hp : Leads SameEntry SameEntry p)
      (hok : (do return some (Declaration.statement (← p))) s = .ok node s') :
      s'.entryPoint = (s.entryPoint || node.any Declaration.marksEntry) := by
    obtain ⟨d, s1, hd, hok⟩ := bind_eq_ok.mp hok
    obtain ⟨rfl, rfl⟩ := pure_eq_ok.mp hok
    have hsame : s'.entryPoint = s.entryPoint := hp.ok hd
    simpa using hsame
  have hfunction (hok : (do return some (← function)) s = .ok node s') :
      s'.entryPoint = (s.entryPoint || node.any Declaration.marksEntry) := by
    obtain ⟨d, s1, hd, hok⟩ := bind_eq_ok.mp hok
    obtain ⟨rfl, rfl⟩ := pure_eq_ok.mp hok
    exact function_entryPoint h hd
  rw [declaration, get_bind] at hok
  generalize s.current.kind = k at hok
  split at hok
  · have hsame : s'.entryPoint = s.entryPoint := Leads.SameEntry.namespaceLine.ok hok
    rcases namespaceLine_ok hok with ⟨-, rfl, -⟩ | ⟨-, name, line, loc, next, -, rfl, -⟩
    · simpa using hsame
    · simpa using hsame
  · exact hfunction hok
  · exact hfunction hok
  · obtain ⟨d, s1, hd, hok⟩ := bind_eq_ok.mp hok
    obtain ⟨rfl, rfl⟩ := pure_eq_ok.mp hok
    obtain ⟨head, rfl⟩ := externFunction_ok hd
    simpa using externFunction_entryPoint h hd
  · exact hstatement Leads.SameEntry.keywordBinding hok
  · exact hstatement Leads.SameEntry.keywordBinding hok
  · exact hstatement Leads.SameEntry.keywordBinding hok
  · exact hstatement Leads.sameEntry.returnStatement hok
  · split at hok
    · exact hstatement (Leads.SameEntry.nameBinding Leads.SameEntry.statements) hok
    · exact absurd hok failExpecting_ne_ok

namespace State

/-- A round at file scope that counts no error marks the file iff it leaves a function named
`main`. -/
theorem AtFileScope.fileRound_entryPoint (h : s.AtFileScope) (hcounted : s.Counted)
    (herrors : s.fileRound.2.errors = 0) :
    s.fileRound.2.entryPoint = (s.entryPoint || s.fileRound.1.any Declaration.marksEntry) := by
  have hexit : s.exitPanic.AtFileScope := h.balanced (Still.exitPanic s).balanced
  cases hd : Parser.declaration s.exitPanic with
  | ok node next =>
      rw [fileRound_ok hd]
      exact declaration_entryPoint hexit hd
  | error failure next =>
      -- a round that fails counts an error, whatever it had read before
      have hfails : s.Fails .file := ⟨failure, next, hd⟩
      have hcounts : 1 ≤ s.fileRound.2.errors := hcounted.one_le_of_fails hfails
      omega

/-- A file that is read without an error is marked in the end iff it was before, or one of its trees
is a function named `main`. -/
theorem HasEnd.run_entryPoint (hend : s.HasEnd) (h : s.AtFileScope) (hcounted : s.Counted)
    (herrors : s.run.2.errors = 0) :
    s.run.2.entryPoint = (s.entryPoint || s.run.1.any Declaration.marksEntry) := by
  induction hn : s.unread.length using Nat.strongRecOn generalizing s with
  | _ n ih =>
      rw [hend.run_eq] at herrors ⊢
      split at herrors
      · next hk => simp [hk]
      · next hk =>
        -- errors only grow, so neither the round nor the rest of the file counts one
        have hmoves := moves_fileRound s
        have hnone : s.fileRound.2.errors = 0 :=
          Nat.le_zero.mp (herrors ▸ (moves_run s.fileRound.2).errors_le)
        have hrest := ih _ (hn ▸ hend.fileRound_lt hk) (hend.moves hmoves) h.fileRound.1
          (hmoves.counted hcounted) herrors rfl
        rw [if_neg hk]
        show s.fileRound.2.run.2.entryPoint = _
        rw [hrest, h.fileRound_entryPoint hcounted hnone, List.any_append, Bool.or_assoc]
        cases s.fileRound.1 <;> simp

end State

end Grammar

open Grammar

/-- A file that is read without an error has an entry point iff one of its trees is a function or a
method with a body that is named `main`. -/
theorem parse_entryPoint (b : Buffer) (h : b.parse.errors = 0) :
    b.parse.entryPoint = true ↔
      ∃ d ∈ b.parse.declarations, d.isMain .function = true ∨ d.isMain .method = true := by
  have hrun := b.startState_hasEnd.run_entryPoint b.startState_atFileScope
    b.startState_counted.1 h
  have hunmarked : b.startState.entryPoint = false := SameEntry.settle _ _
  rw [hunmarked, Bool.false_or] at hrun
  calc b.parse.entryPoint = true ↔ b.parse.declarations.any Declaration.marksEntry = true :=
        iff_of_eq (congrArg (· = true) hrun)
    _ ↔ _ := by simp [Declaration.marksEntry]

/-- A file with a namespace, a method and the function `main`. -/
theorem parse_entryPoint_namespace :
    let b := Buffer.ofText "main.tp" "namespace a; md f() \x7b \x7d fn main() \x7b f(); \x7d"
    b.parse.errors = 0 ∧ b.parse.entryPoint = true ∧
      ∃ d ∈ b.parse.declarations, d.isMain .function = true ∨ d.isMain .method = true := by
  intro b
  have herrors : b.parse.errors = 0 := by decide +kernel
  have hmarked : b.parse.entryPoint = true := by decide +kernel
  exact ⟨herrors, hmarked, (parse_entryPoint b herrors).mp hmarked⟩

/-- A method named `main` makes an entry point where no function of that name is. -/
theorem entryPoint_of_method :
    let b := Buffer.ofText "main.tp" "md main() \x7b\x7d"
    b.parse.errors = 0 ∧ b.parse.entryPoint = true ∧
      ¬ ∃ d ∈ b.parse.declarations, d.isMain .function = true := by
  decide +kernel

end FrontEnd
