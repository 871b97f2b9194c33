import FrontEnd.Proofs.Parsing.Entered
import FrontEnd.Proofs.Scope.Outline

set_option autoImplicit false

/-! # Every scope is closed again

Blocks and functions open a scope and close it, and a function marks that it is being read. Reading
may fail in between, and goes on somewhere behind. Yet no statement leaves a scope open or the mark
changed, whether it is read or fails (`Balanced`), and one that fails has declared nothing
(`Still`). So every declaration of a file starts in the outermost scope, or in the one scope of the
namespace if that was set (`State.AtFileScope`), and outside all functions.

For each parser one lemma says what it leads to if it succeeds and if it fails (`Leads`). What
declares names or opens scopes comes last in every statement, behind all that can fail.

So a statement is a part that may fail and declares nothing, and behind it a part that never fails
and is balanced; `Leads.behind` puts the two together. The second part may well contain whole
statements, as a block does: those that fail in it are reported there, and the block goes on. A
declaration is not of this form, since the head of a function declares its name and may fail behind
it.
-/

namespace FrontEnd

/-- The name that a namespace line sets. -/
def Declaration.namespaceName? : Declaration → Option String
  | .namespaceLine name _ => some name
  | _ => none

namespace Grammar

open FrontEnd.Grammar.Parser

variable {α β : Type} {s s' s'' : State}

/-! ## States -/

/-- No scope was opened and no name declared. Names may have been marked as written to, which is all
that an expression does to them. -/
structure Still (s s' : State) : Prop where
  current : s'.scopes.current = s.scopes.current
  outline : s'.scopes.outline = s.scopes.outline
  names : s'.scopes.names = s.scopes.names
  inFunction : s'.inFunction = s.inFunction
  namespaceLine : s'.namespaceLine = s.namespaceLine

namespace Still

theorem refl (s : State) : Still s s := ⟨rfl, rfl, rfl, rfl, rfl⟩

theorem trans (h : Still s s') (h' : Still s' s'') : Still s s'' where
  current := h'.current.trans h.current
  outline := h'.outline.trans h.outline
  names := h'.names.trans h.names
  inFunction := h'.inFunction.trans h.inFunction
  namespaceLine := h'.namespaceLine.trans h.namespaceLine

theorem of_scopes (hscopes : s'.scopes = s.scopes) (hinFunction : s'.inFunction = s.inFunction)
    (hnamespace : s'.namespaceLine = s.namespaceLine) : Still s s' :=
  ⟨congrArg _ hscopes, congrArg _ hscopes, congrArg _ hscopes, hinFunction, hnamespace⟩

theorem report (s : State) (f : Finding) : Still s (s.report f) :=
  of_scopes (s.report_scopes f) (s.report_inFunction f) (s.report_namespaceLine f)

theorem enterPanic (s : State) : Still s s.enterPanic := of_scopes rfl rfl rfl

theorem exitPanic (s : State) : Still s s.exitPanic := of_scopes rfl rfl rfl

theorem settle (s : State) (tokens : List Token) : Still s (s.settle tokens) := by
  induction tokens generalizing s with
  | nil => exact of_scopes rfl rfl rfl
  | cons t rest ih =>
      rw [State.settle]
      split
      · exact ((report s _).trans (enterPanic _)).trans (ih _)
      · exact of_scopes rfl rfl rfl

theorem advance (s : State) : Still s s.advance := settle s _

theorem recover (s : State) (failure : Finding) (before : Nat) :
    Still s (s.recover failure before) :=
  ((report s failure).trans (enterPanic _)).trans (of_scopes rfl rfl rfl)

theorem closeBlock (s : State) : Still s s.closeBlock := by
  rw [State.closeBlock]
  dsimp only
  split
  · exact (exitPanic s).trans (advance _)
  · exact ((exitPanic s).trans (report _ _)).trans (enterPanic _)

theorem markAssigned (s : State) (name : String) :
    Still s { s with scopes := s.scopes.markAssigned name } where
  current := s.scopes.current_markAssigned name
  outline := s.scopes.outline_markAssigned name
  names := s.scopes.names_markAssigned name
  inFunction := rfl
  namespaceLine := rfl

end Still

/-- Every scope that was opened was closed again, and none of them was that of a namespace. Unlike
`Still` this allows names to be declared, in the current scope and in those closed since. -/
structure Balanced (s s' : State) : Prop where
  scopes : s.scopes.Encloses s'.scopes
  inFunction : s'.inFunction = s.inFunction
  namespaceLine : s'.namespaceLine = s.namespaceLine

theorem encloses_declareParams (params : List Param) (t : ScopeTable) :
    t.Encloses (declareParams params t) := by
  induction params generalizing t with
  | nil => exact .refl t
  | cons p params ih => exact (ScopeTable.Encloses.declare t _).trans (ih _)

theorem Still.balanced (h : Still s s') : Balanced s s' :=
  ⟨.of_outline h.current h.outline, h.inFunction, h.namespaceLine⟩

namespace Balanced

theorem refl (s : State) : Balanced s s := (Still.refl s).balanced

theorem trans (h : Balanced s s') (h' : Balanced s' s'') : Balanced s s'' :=
  ⟨h.scopes.trans h'.scopes, h'.inFunction.trans h.inFunction,
    h'.namespaceLine.trans h.namespaceLine⟩

theorem popScope {kind : ScopeKind} (hkind : kind ≠ .namespaceScope)
    (h : Balanced (s.pushScope kind) s') : Balanced s s'.popScope :=
  ⟨h.scopes.pop hkind, h.inFunction, h.namespaceLine⟩

theorem leaveFunction {params : List Param} (h : Balanced (s.enterFunction params) s') :
    Balanced s (s'.leaveFunction s.inFunction) :=
  ⟨((encloses_declareParams params _).trans h.scopes).pop (by simp), rfl, h.namespaceLine⟩

end Balanced

/-! ## Parsers

The two relations of `Leads` are any, as the heads of functions are followed through other relations
in other modules. Here they are `Still`, `Balanced` and `Never`. -/

/-- What a parser leads to if it succeeds, and what if it fails. A statement that fails has not
declared its name yet, so less is said of success. -/
structure Leads (onOk onError : State → State → Prop) {α : Type} (p : Parser α) : Prop where
  ok : ∀ {s a s'}, p s = .ok a s' → onOk s s'
  error : ∀ {s f s'}, p s = .error f s' → onError s s'

/-- What a parser leads to that never fails. No state is reached in this way. -/
def Never : State → State → Prop := fun _ _ => False

namespace Leads

variable {R R' R'' E E' E'' : State → State → Prop}

theorem mono {p : Parser α} (hp : Leads R E p) (hok : ∀ {s s'}, R s s' → R' s s')
    (herror : ∀ {s s'}, E s s' → E' s s') : Leads R' E' p where
  ok h := hok (hp.ok h)
  error h := herror (hp.error h)

theorem bind {p : Parser α} {q : α → Parser β} (hp : Leads R E p) (hq : ∀ a, Leads R' E' (q a))
    (hok : ∀ {s s' s''}, R s s' → R' s' s'' → R'' s s'')
    (hfirst : ∀ {s s'}, E s s' → E'' s s')
    (hsecond : ∀ {s s' s''}, R s s' → E' s' s'' → E'' s s'') : Leads R'' E'' (p >>= q) where
  ok h := by
    obtain ⟨a, s', h, h'⟩ := bind_eq_ok.mp h
    exact hok (hp.ok h) ((hq a).ok h')
  error h := by
    rcases bind_eq_error.mp h with h | ⟨a, s', h, h'⟩
    · exact hfirst (hp.error h)
    · exact hsecond (hp.ok h) ((hq a).error h')

theorem update {f : State → State} (hf : ∀ s, R s (f s)) : Leads R E (Parser.update f) where
  ok h := by cases h; exact hf _
  error h := by cases h

theorem checkTarget (target : Expr) : Leads Still E (Parser.checkTarget target) := by
  refine update fun s => ?_
  split
  · split
    · exact .refl s
    · split
      · exact .report s _
      · exact .markAssigned s _
  · exact .report s _

/-- What every change within a scope leads to, every parser leads to that declares nothing. -/
theorem compositional (hstill : ∀ {s s'}, Still s s' → R s s')
    (htrans : ∀ {s s' s''}, R s s' → R s' s'' → R s s'') : Compositional (@Leads R R) where
  pure a := ⟨fun h => by cases h; exact hstill (.refl _), fun h => by cases h⟩
  bind hp hq := hp.bind hq htrans id htrans
  get := ⟨fun h => by cases h; exact hstill (.refl _), fun h => by cases h⟩
  advance := update fun s => hstill (.advance s)
  complain _ _ := update fun s => hstill (.report s _)
  checkTarget target := (checkTarget target).mono hstill id
  fail _ := ⟨fun h => absurd h fail_ne_ok, fun h => by cases h; exact hstill (.refl _)⟩

/-- What declares nothing declares nothing when it fails. -/
theorem still : Compositional (@Leads Still Still) := compositional id Still.trans

theorem declare (symbol : Symbol) (t : Token) : Leads Balanced E (Parser.declare symbol t) := by
  refine update fun s => ?_
  have hscopes := ScopeTable.Encloses.declare s.scopes symbol
  split
  · next heq =>
    rw [heq] at hscopes
    exact ⟨hscopes, rfl, rfl⟩
  · exact (Still.report s _).balanced

theorem noteEntryPoint (name : Token) (isExtern : Bool) :
    Leads Balanced E (Parser.noteEntryPoint name isExtern) := by
  refine update fun s => ?_
  dsimp only
  split
  · exact ⟨.refl s.scopes, rfl, rfl⟩
  · exact .refl s

/-- What opens no scope leaves none open. -/
theorem balanced : Declarative (@Leads Balanced Balanced) where
  toCompositional := compositional Still.balanced Balanced.trans
  declare := declare
  noteEntryPoint := noteEntryPoint

/-! ## Statements

In front is what can fail, which declares nothing. -/

theorem behind {p : Parser α} {q : α → Parser β} (hp : Leads Still Still p)
    (hq : ∀ a, Leads Balanced Still (q a)) : Leads Balanced Still (p >>= q) :=
  hp.bind hq (fun h => h.balanced.trans) id Still.trans

theorem closing {p : Parser α} {q : α → Parser β} (hp : Leads Balanced E p)
    (hq : ∀ a, Leads Balanced Never (q a)) : Leads Balanced E (p >>= q) :=
  hp.bind hq Balanced.trans id fun _ h => h.elim

theorem pure (a : α) : Leads Balanced E (Pure.pure a : Parser α) where
  ok h := by cases h; exact .refl _
  error h := by cases h

theorem locate (t : Token) : Leads Balanced E (Parser.locate t) where
  ok h := by cases h; exact .refl _
  error h := by cases h

theorem accept (kind : Kind) : Leads Balanced Never (Parser.accept kind) where
  ok h := (still.accept kind).ok h |>.balanced
  error {s f s'} h := by
    rw [accept_eq] at h
    split at h <;> cases h

theorem finishBinding (name : Token) (type : Option TypeExpr) (init : Option Expr)
    (mutability : Mutability) :
    Leads Balanced E (Parser.finishBinding name type init mutability) := by
  apply closing (locate name)
  intro _
  refine closing (declare ..) ?_
  intro _
  exact pure _

theorem keywordBinding : Leads Balanced Still Parser.keywordBinding := by
  apply behind still.take
  intro _
  refine behind (still.expect ..) ?_
  intro name
  apply behind still.optionalType
  intro _
  apply behind still.optionalInit
  intro _
  refine behind (still.accept _) ?_
  intro _
  refine behind (still.onlyIf _ (still.complain rfl name)) ?_
  intro _
  exact finishBinding ..

theorem returnStatement : Leads Balanced Still Parser.returnStatement :=
  still.returnStatement.mono Still.balanced id

/-- A scope around what never fails. -/
theorem inScope {kind : ScopeKind} (hkind : kind ≠ .namespaceScope) {inner : Parser α}
    {q : α → Parser β} (hinner : Leads Balanced Never inner) (hq : ∀ a, Leads Balanced Never (q a)) :
    Leads Balanced Never (do
      Parser.update (·.pushScope kind)
      let a ← inner
      Parser.update State.popScope
      q a) where
  ok {s b s''} h := by
    rw [update_bind] at h
    obtain ⟨a, t, hok, hrest⟩ := bind_eq_ok.mp h
    rw [update_bind] at hrest
    exact ((hinner.ok hok).popScope hkind).trans ((hq a).ok hrest)
  error {s f s''} h := by
    rw [update_bind] at h
    rcases bind_eq_error.mp h with h | ⟨a, t, hok, hrest⟩
    · exact False.elim (hinner.error h)
    · rw [update_bind] at hrest
      exact False.elim ((hq a).error hrest)

section

variable {inner : Parser (List Statement)} (hinner : Leads Balanced Never inner)
include hinner

theorem block : Leads Balanced Still (Parser.block inner) :=
  behind (still.expect ..) fun opening =>
    (inScope (by simp) hinner fun _ => closing (locate opening) fun _ => pure _).mono id False.elim

theorem namedBlock (name : Token) : Leads Balanced Still (Parser.namedBlock inner name) := by
  apply behind still.get
  intro _
  refine behind (still.onlyIf _ (still.complain rfl name)) ?_
  intro _
  apply closing (block hinner)
  intro _
  apply closing (locate name)
  intro _
  exact pure _

theorem nameBinding : Leads Balanced Still (Parser.nameBinding inner) := by
  have hdefine (name : Token) (mutability : Mutability) :
      Leads Balanced Still (do
        let node ← Parser.finishBinding name none (some (← Parser.expression)) mutability
        let _ ← Parser.accept (.mark .semicolon)
        return node) := by
    apply behind still.expression
    intro _
    refine closing (finishBinding ..) ?_
    intro _
    refine closing (accept _) ?_
    intro _
    exact pure _
  apply behind still.take
  intro name
  apply behind still.take
  intro sign
  split
  · exact hdefine name _
  · exact hdefine name _
  · refine behind still.current fun t => Compositional.ite (namedBlock hinner name) ?_
    refine behind (still.typeExpr _) ?_
    intro _
    apply behind still.optionalInit
    intro _
    refine closing (finishBinding ..) ?_
    intro _
    refine closing (accept _) ?_
    intro _
    exact pure _

/-- A statement leaves no scope open, and it declares nothing if it fails. -/
theorem statement : Leads Balanced Still (Parser.statement inner) := by
  refine behind still.get fun _ => ?_
  split
  · exact closing keywordBinding fun _ => pure _
  · exact closing keywordBinding fun _ => pure _
  · exact closing keywordBinding fun _ => pure _
  · exact closing returnStatement fun _ => pure _
  · exact closing (block hinner) fun _ => pure _
  · exact behind still.advance fun _ => pure _
  · exact (still.fail rfl).mono Still.balanced id
  · exact (still.fail rfl).mono Still.balanced id
  · exact (still.fail rfl).mono Still.balanced id
  · exact (still.fail rfl).mono Still.balanced id
  · refine Compositional.ite (closing (nameBinding hinner) fun _ => pure _) ?_
    apply behind still.expression
    intro _
    refine behind (still.expect ..) ?_
    intro _
    exact pure _

end

theorem statementsWithin (fuel : Nat) : Leads Balanced Never (Parser.statementsWithin fuel) := by
  refine ⟨?_, fun h => (statementsWithin_ne_error _ _ _ _ h).elim⟩
  induction fuel with
  | zero => intro s a s' h; cases h; exact (Still.closeBlock s).balanced
  | succ fuel ih =>
      intro s a s' h
      have hinner : Leads Balanced Never (Parser.statementsWithin fuel) :=
        ⟨ih, fun h => (statementsWithin_ne_error _ _ _ _ h).elim⟩
      have hexit := (Still.exitPanic s).balanced
      rcases statementsWithin_cases h with
        ⟨-, -, rfl⟩ | ⟨-, node, rest, next, hs, hr, -⟩ | ⟨-, failure, next, hs, hr⟩
      · exact (Still.closeBlock s).balanced
      · exact (hexit.trans ((statement hinner).ok hs)).trans (ih hr)
      · -- what recovery goes on from has the scopes of the failure
        have hfailed := ((statement hinner).error hs).trans (.recover next failure s.unread.length)
        exact (hexit.trans hfailed.balanced).trans (ih hr)

theorem statements : Leads Balanced Never Parser.statements where
  ok h := (statementsWithin _).ok h
  error h := (statementsWithin _).error h

/-! ## Declarations

A function opens a scope for its arguments and closes it behind its body, also if the body fails.
The name of the function is declared in the scope around it. -/

theorem functionBody : Leads Balanced Balanced Parser.functionBody := by
  refine balanced.bind (balanced.expect ..) ?_
  intro opening
  apply closing (statements.mono id False.elim)
  intro _
  apply closing (locate opening)
  intro _
  exact pure _

theorem withinFunction {body : Parser α} (hbody : Leads Balanced Balanced body)
    (params : List Param) : Leads Balanced Balanced (Parser.withinFunction params body) where
  ok {s a s'} h := by
    rw [Parser.withinFunction] at h
    split at h
    · next hok => cases h; exact (hbody.ok hok).leaveFunction
    · cases h
  error {s f s'} h := by
    rw [Parser.withinFunction] at h
    split at h
    · cases h
    · next herror => cases h; exact (hbody.error herror).leaveFunction

theorem function : Leads Balanced Balanced Parser.function := by
  apply balanced.bind (balanced.prototype false)
  intro _
  refine closing (withinFunction functionBody _) ?_
  intro _
  exact pure _

theorem externFunction : Leads Balanced Balanced Parser.externFunction := by
  apply balanced.bind balanced.take
  intro _
  apply balanced.bind balanced.current
  intro _
  refine Compositional.ite ?_ (balanced.failExpecting _)
  apply closing (balanced.prototype true)
  intro _
  refine closing (accept _) ?_
  intro _
  exact pure _

/-- A declaration other than a namespace line leaves no scope open. -/
theorem declaration (hk : s.current.kind ≠ .word .namespaceWord) :
    ∃ p, Leads Balanced Balanced p ∧ Parser.declaration s = p s := by
  rw [Parser.declaration, get_bind]
  generalize s.current.kind = k at hk
  split
  · exact absurd rfl hk
  · exact ⟨_, closing function fun _ => pure _, rfl⟩
  · exact ⟨_, closing function fun _ => pure _, rfl⟩
  · exact ⟨_, closing externFunction fun _ => pure _, rfl⟩
  · exact ⟨_, closing balanced.keywordBinding fun _ => pure _, rfl⟩
  · exact ⟨_, closing balanced.keywordBinding fun _ => pure _, rfl⟩
  · exact ⟨_, closing balanced.keywordBinding fun _ => pure _, rfl⟩
  · exact ⟨_, closing balanced.returnStatement fun _ => pure _, rfl⟩
  · split
    · have hbinding := (nameBinding statements).mono id Still.balanced
      exact ⟨_, closing hbinding fun _ => pure _, rfl⟩
    · exact ⟨_, balanced.failExpecting _, rfl⟩

/-- A namespace line that fails changes nothing. -/
theorem namespaceLine : Leads (fun _ _ => True) Still Parser.namespaceLine := by
  have hsure {α β : Type} {p : Parser α} {q : α → Parser β} (hp : Leads Still Still p)
      (hq : ∀ a, Leads (fun _ _ => True) Still (q a)) : Leads (fun _ _ => True) Still (p >>= q) :=
    hp.bind hq (fun _ _ => trivial) id Still.trans
  apply hsure still.take
  intro _
  refine hsure (still.expect ..) ?_
  intro _
  refine hsure (still.accept _) ?_
  intro _
  apply hsure still.get
  intro s
  split
  · exact ⟨fun _ => trivial, fun h => by cases h⟩
  · exact ⟨fun _ => trivial, fun h => by cases h⟩

end Leads

/-- A declaration that fails leaves no scope open. -/
theorem Balanced.of_declaration_error {f : Finding} (h : declaration s = .error f s') :
    Balanced s s' := by
  by_cases hk : s.current.kind = .word .namespaceWord
  · rw [Parser.declaration, get_bind, hk] at h
    exact (Leads.namespaceLine.error h).balanced
  · obtain ⟨p, hp, heq⟩ := Leads.declaration hk
    exact hp.error (heq ▸ h)

/-- A namespace line either finds that the namespace is set, or sets it and opens its scope. -/
theorem namespaceLine_ok {node : Option Declaration} (h : namespaceLine s = .ok node s') :
    (∃ line, s.namespaceLine = some line) ∧ node = none ∧ Still s s' ∨
      s.namespaceLine = none ∧ ∃ name line loc next, Still s next ∧
        node = some (.namespaceLine name loc) ∧
        s' = { next with namespaceLine := some (name, line) }.pushScope .namespaceScope := by
  rw [Parser.namespaceLine, take_bind] at h
  obtain ⟨name, s1, hname, h⟩ := bind_eq_ok.mp h
  obtain ⟨found, s2, hfound, h⟩ := bind_eq_ok.mp h
  have htaken : Still s s1 := (Still.advance s).trans ((Leads.still.expect ..).ok hname)
  have hstill : Still s s2 := htaken.trans ((Leads.still.accept _).ok hfound)
  rw [get_bind] at h
  cases hline : s2.namespaceLine with
  | some line =>
      rw [hline] at h
      obtain ⟨⟩ := h
      exact .inl ⟨⟨line, hstill.namespaceLine.symm.trans hline⟩, rfl, hstill.trans (.report s2 _)⟩
  | none =>
      rw [hline] at h
      obtain ⟨⟩ := h
      exact .inr ⟨hstill.namespaceLine.symm.trans hline, _, _, _, s2, hstill, rfl, rfl⟩

/-! ## Files

Between two declarations the state is at file scope. A namespace line is the only one that opens a
scope and leaves it open, and it can do so once. -/

theorem function_ok {d : Declaration} (h : function s = .ok d s') :
    ∃ head body loc, d = .function head body loc := by
  obtain ⟨head, s1, -, h⟩ := bind_eq_ok.mp h
  obtain ⟨⟨body, loc⟩, s2, -, h⟩ := bind_eq_ok.mp h
  obtain ⟨rfl, -⟩ := pure_eq_ok.mp h
  exact ⟨head, body, loc, rfl⟩

theorem externFunction_ok {d : Declaration} (h : externFunction s = .ok d s') :
    ∃ head, d = .externFunction head := by
  rw [externFunction, take_bind, current_bind] at h
  split at h
  · obtain ⟨head, s1, -, h⟩ := bind_eq_ok.mp h
    obtain ⟨found, s2, -, h⟩ := bind_eq_ok.mp h
    obtain ⟨rfl, -⟩ := pure_eq_ok.mp h
    exact ⟨head, rfl⟩
  · exact absurd h failExpecting_ne_ok

/-- Only a namespace line yields one. -/
theorem namespaceName?_of_declaration (hk : s.current.kind ≠ .word .namespaceWord)
    {d : Declaration} (h : declaration s = .ok (some d) s') : d.namespaceName? = none := by
  -- every other kind of declaration is wrapped into a node of its own kind
  have hstatement {p : Parser Statement}
      (h : (do return some (Declaration.statement (← p))) s = .ok (some d) s') :
      d.namespaceName? = none := by
    obtain ⟨node, s1, -, h⟩ := bind_eq_ok.mp h
    obtain ⟨⟨⟩, -⟩ := pure_eq_ok.mp h
    rfl
  have hfunction (h : (do return some (← function)) s = .ok (some d) s') :
      d.namespaceName? = none := by
    obtain ⟨d', s1, hd, h⟩ := bind_eq_ok.mp h
    obtain ⟨⟨⟩, -⟩ := pure_eq_ok.mp h
    obtain ⟨head, body, loc, rfl⟩ := function_ok hd
    rfl
  rw [Parser.declaration, get_bind] at h
  generalize s.current.kind = k at hk h
  split at h
  · exact absurd rfl hk
  · exact hfunction h
  · exact hfunction h
  · obtain ⟨d', s1, hd, h⟩ := bind_eq_ok.mp h
    obtain ⟨⟨⟩, -⟩ := pure_eq_ok.mp h
    obtain ⟨head, rfl⟩ := externFunction_ok hd
    rfl
  · exact hstatement h
  · exact hstatement h
  · exact hstatement h
  · exact hstatement h
  · split at h
    · exact hstatement h
    · exact absurd h failExpecting_ne_ok

/-- The name of the namespace that is set. -/
def State.namespaceName (s : State) : Option String := s.namespaceLine.map (·.1)

theorem Balanced.namespaceName (h : Balanced s s') : s'.namespaceName = s.namespaceName :=
  congrArg (Option.map Prod.fst) h.namespaceLine

namespace State

/-- What holds between two declarations. Reading is outside all functions, and in the outermost
scope. If the namespace is set then it is in the scope of the namespace, which is the only one of
its kind and lies directly in the outermost one. -/
structure AtFileScope (s : State) : Prop where
  inFunction : s.inFunction = false
  root : s.scopes.outline[0]? = some (.file, none)
  unset : s.namespaceLine = none → s.scopes.current = 0 ∧ s.scopes.namespaces = 0
  set : s.namespaceLine ≠ none →
    s.scopes.outline[s.scopes.current]? = some (.namespaceScope, some 0) ∧
      s.scopes.namespaces = 1

namespace AtFileScope

theorem balanced (h : s.AtFileScope) (hs : Balanced s s') : s'.AtFileScope := by
  obtain ⟨opened, houtline, hopened⟩ := hs.scopes.outline
  have hkeeps {i : Nat} {e : ScopeKind × Option Nat} (he : s.scopes.outline[i]? = some e) :
      s'.scopes.outline[i]? = some e := by
    rw [houtline, List.getElem?_append_left (List.getElem?_eq_some_iff.mp he).1, he]
  have hnamespaces := hs.scopes.namespaces_eq
  refine ⟨hs.inFunction.trans h.inFunction, hkeeps h.root, fun hunset => ?_, fun hset => ?_⟩
  · rw [hs.scopes.current, hnamespaces]
    exact h.unset (hs.namespaceLine ▸ hunset)
  · obtain ⟨hcurrent, hone⟩ := h.set (hs.namespaceLine ▸ hset)
    rw [hs.scopes.current, hnamespaces]
    exact ⟨hkeeps hcurrent, hone⟩

/-- A namespace line opens the scope of the namespace in the outermost one. -/
theorem pushScope (h : s.AtFileScope) (hunset : s.namespaceLine = none) (line : String × Nat) :
    ({ s with namespaceLine := some line }.pushScope .namespaceScope).AtFileScope := by
  obtain ⟨hcurrent, hnone⟩ := h.unset hunset
  have houtline := s.scopes.outline_push .namespaceScope
  refine ⟨h.inFunction, ?_, fun hnamespace => (by cases hnamespace), fun _ => ⟨?_, ?_⟩⟩
  · show (s.scopes.push .namespaceScope).outline[0]? = _
    rw [houtline, List.getElem?_append_left (List.getElem?_eq_some_iff.mp h.root).1, h.root]
  · show (s.scopes.push .namespaceScope).outline[s.scopes.scopes.size]? = _
    rw [houtline, ← s.scopes.length_outline, List.getElem?_concat_length, hcurrent]
  · show (s.scopes.push .namespaceScope).namespaces = 1
    rw [ScopeTable.namespaces_push, hnone]
    rfl

/-- What a declaration leads to: the next one starts at file scope too, and the name of a namespace is
set by a namespace line. -/
theorem declaration (h : s.AtFileScope) {node : Option Declaration}
    (hd : Parser.declaration s = .ok node s') :
    s'.AtFileScope ∧ s.namespaceName.toList ++ node.toList.filterMap Declaration.namespaceName? =
      s'.namespaceName.toList := by
  by_cases hk : s.current.kind = .word .namespaceWord
  · rw [Parser.declaration, get_bind, hk] at hd
    rcases namespaceLine_ok hd with
      ⟨-, rfl, hstill⟩ | ⟨hunset, name, line, loc, next, hstill, rfl, rfl⟩
    · refine ⟨h.balanced hstill.balanced, ?_⟩
      rw [hstill.balanced.namespaceName]
      exact List.append_nil _
    · have hnext := h.balanced hstill.balanced
      refine ⟨hnext.pushScope (hstill.namespaceLine.trans hunset) (name, line), ?_⟩
      rw [namespaceName, hunset]
      rfl
  · obtain ⟨p, hp, heq⟩ := Leads.declaration hk
    have hbalanced := hp.ok (heq ▸ hd)
    refine ⟨h.balanced hbalanced, ?_⟩
    have hnone : node.toList.filterMap Declaration.namespaceName? = [] := by
      cases node with
      | none => rfl
      | some d =>
          rw [Option.toList_some, List.filterMap_cons_none (namespaceName?_of_declaration hk hd)]
          rfl
    rw [hnone, List.append_nil, hbalanced.namespaceName]

/-- What one round at file scope leads to. -/
theorem fileRound (h : s.AtFileScope) :
    s.fileRound.2.AtFileScope ∧
      s.namespaceName.toList ++ s.fileRound.1.toList.filterMap Declaration.namespaceName? =
        s.fileRound.2.namespaceName.toList := by
  have hexit : s.exitPanic.AtFileScope := h.balanced (Still.exitPanic s).balanced
  cases hd : Parser.declaration s.exitPanic with
  | ok node next =>
      rw [fileRound_ok hd]
      exact hexit.declaration hd
  | error failure next =>
      have hbalanced := (Balanced.of_declaration_error hd).trans
        (Still.recover next failure s.unread.length).balanced
      rw [fileRound_error hd]
      refine ⟨hexit.balanced hbalanced, ?_⟩
      rw [hbalanced.namespaceName]
      exact List.append_nil _

end AtFileScope

/-- The namespace lines among the declarations of a file set its namespace. Both sides are lists, so
this says at once that there is at most one such line and that it is the one that was kept. -/
theorem HasEnd.run_namespaceName (hend : s.HasEnd) (h : s.AtFileScope) :
    s.namespaceName.toList ++ s.run.1.filterMap Declaration.namespaceName? =
      s.run.2.namespaceName.toList := by
  induction hn : s.unread.length using Nat.strongRecOn generalizing s with
  | _ n ih =>
      rw [hend.run_eq]
      split
      · exact List.append_nil _
      · next hk =>
        obtain ⟨hround, hname⟩ := h.fileRound
        have hnext := hend.moves (moves_fileRound s)
        rw [List.filterMap_append, ← List.append_assoc, hname]
        exact ih _ (hn ▸ hend.fileRound_lt hk) hnext hround rfl

/-- Every declaration of a file that starts at file scope starts there. -/
theorem Enters.atFileScope {start : State} {loop : Loop} (h : start.Enters loop s)
    (hloop : loop = .file) (hstart : start.AtFileScope) : s.AtFileScope := by
  induction h with
  | file => exact hstart
  | round _ _ ih =>
      subst hloop
      exact (ih rfl).fileRound.1
  | block => cases hloop

end State

end Grammar

open Grammar Grammar.Parser

theorem Buffer.startState_atFileScope (b : Buffer) : b.startState.AtFileScope :=
  State.AtFileScope.balanced ⟨rfl, rfl, fun _ => ⟨rfl, rfl⟩, fun hset => absurd rfl hset⟩
    (Still.settle _ _).balanced

/-- Reading a file never loses track of the scopes. Every declaration is read outside all functions,
in the outermost scope or in the one scope of the namespace (`State.AtFileScope`). Every statement
leaves the current scope and the mark of functions as they were (`Balanced`), and one that fails has
declared no name anywhere (`Still`). At most one namespace line is among the nodes, and it names the
namespace of the report. -/
theorem parse_balanced (b : Buffer) :
    (∀ s, b.startState.Enters .file s → s.exitPanic.AtFileScope) ∧
      (∀ fuel s,
        (∀ node s', statement (statementsWithin fuel) s = .ok node s' → Balanced s s') ∧
          ∀ failure s', statement (statementsWithin fuel) s = .error failure s' → Still s s') ∧
      b.parse.declarations.filterMap Declaration.namespaceName? = b.parse.namespaceName.toList := by
  have hstart := b.startState_atFileScope
  refine ⟨fun s h => (h.atFileScope rfl hstart).balanced (Still.exitPanic s).balanced,
    fun fuel s => ?_, ?_⟩
  · have hleads := Leads.statement (Leads.statementsWithin fuel)
    exact ⟨fun _ _ => hleads.ok, fun _ _ => hleads.error⟩
  · have hrun := b.startState_hasEnd.run_namespaceName hstart
    -- no namespace is set at the start
    have hunset : b.startState.namespaceName = none :=
      (Still.settle _ _).balanced.namespaceName
    rw [Buffer.parse]
    rw [hunset] at hrun
    generalize b.startState.run = result at hrun
    exact hrun

/-- A namespace, and a function in it with a binding that lacks its value. -/
def unfinished : Buffer :=
  Buffer.ofText "unfinished.tp" "namespace a; fn f() \x7b x := ; \x7d"

/-- The namespace line and the function are read at file scope, the binding alone fails and declares
nothing, and the file has the namespace. -/
theorem parse_balanced_unfinished :
    let start := unfinished.startState
    let body := (Buffer.ofText "body.tp" "x := ;").startState
    start.exitPanic.AtFileScope ∧ start.fileRound.2.exitPanic.AtFileScope ∧
      (∃ failure next, statement (statementsWithin 1) body = .error failure next ∧ Still body next) ∧
      unfinished.parse.declarations.filterMap Declaration.namespaceName? = ["a"] := by
  intro start body
  obtain ⟨hfile, hstatement, hnames⟩ := parse_balanced unfinished
  have hgoes : start.current.kind ≠ .endOfFile := by decide
  refine ⟨hfile _ .file, hfile _ (.round .file hgoes), ?_, ?_⟩
  · exact ⟨_, _, rfl, (hstatement 1 body).2 _ _ rfl⟩
  · rw [hnames]
    rfl

end FrontEnd
