import FrontEnd.Proofs.Parsing.Outcome
import FrontEnd.Proofs.Tree.Source

set_option autoImplicit false

/-! # States without places

Tokens, scopes, findings and whole states as they are without the places in them (`State.bare`). None
of the changes that a parser makes to its state looks at places, so each commutes with leaving them
out: names are looked up and declared alike, and a search for a boundary stops at the same token.

The equations point one way, from a change of a state with its places left out to the changed state
with its places left out or back, as the parsers are rewritten with them.
-/

namespace FrontEnd

/-! ## Leaving out places

Every data type with places in it has a function that leaves them out. What asks for kinds, names or
numbers does not see the difference. -/

/-- A token with no place of its own. It keeps its kind and its spelling, which is all that the
parsers decide by. -/
def Token.placeless (t : Token) : Token := { t with position := Location.nowhere.position }

-- not by `rfl` alone, so that conditions are rewritten together with their instances
@[simp] theorem Token.kind_placeless (t : Token) : t.placeless.kind = t.kind := by cases t; rfl

@[simp] theorem Token.lexeme_placeless (t : Token) : t.placeless.lexeme = t.lexeme := by
  cases t; rfl

@[simp] theorem Token.numeral?_placeless (t : Token) : t.placeless.numeral? = t.numeral? := rfl

/-- Where the namespace was set is a place too, and so is that of a token found in place of another.
-/
def Issue.bare : Issue → Issue
  | .expected what found => .expected what found.placeless
  | .namespaceTaken _ => .namespaceTaken Location.nowhere.position.line
  | issue => issue

def Finding.bare (f : Finding) : Finding := { f with issue := f.issue.bare, location := .nowhere }

def Symbol.bare (symbol : Symbol) : Symbol := { symbol with loc := .nowhere }

@[simp] theorem Symbol.name_bare (symbol : Symbol) : symbol.bare.name = symbol.name := by
  cases symbol; rfl

def Scope.bare (s : Scope) : Scope := { s with symbols := s.symbols.map Symbol.bare }

def ScopeTable.bare (t : ScopeTable) : ScopeTable := { t with scopes := t.scopes.map Scope.bare }

theorem Issue.severity_bare (issue : Issue) : issue.bare.severity = issue.severity := by
  cases issue <;> rfl

/-! ## Scopes without places

A symbol carries the place where it was declared, which no change of a table reads. The arena of the
scopes has the same shape with and without these places. -/

namespace Scope

theorem find?_bare (s : Scope) (name : String) : s.bare.find? name = (s.find? name).map Symbol.bare :=
  List.find?_map ..

theorem add_bare (s : Scope) (symbol : Symbol) : (s.add symbol).bare = s.bare.add symbol.bare := rfl

theorem markAssigned_bare (s : Scope) (name : String) :
    (s.markAssigned name).bare = s.bare.markAssigned name := by
  rw [bare, markAssigned, bare, markAssigned]
  simp only [List.map_map]
  refine congrArg _ (List.map_congr_left fun x _ => ?_)
  simp only [Function.comp, Symbol.name_bare]
  split <;> rfl

end Scope

namespace ScopeTable

variable (t : ScopeTable)

theorem empty_bare : empty.bare = empty := by simp [empty, bare, Scope.bare]

theorem getElem?_bare (i : Nat) : t.bare.scopes[i]? = t.scopes[i]?.map Scope.bare :=
  Array.getElem?_map

theorem currentKind_bare : t.bare.currentKind = t.currentKind := by
  have hcurrent : t.bare.scopes[t.bare.current]? = t.scopes[t.current]?.map Scope.bare :=
    t.getElem?_bare t.current
  rw [currentKind, currentKind, hcurrent]
  cases t.scopes[t.current]? <;> rfl

theorem chainFrom_bare (fuel i : Nat) : t.bare.chainFrom fuel i = t.chainFrom fuel i := by
  induction fuel generalizing i with
  | zero => rfl
  | succ fuel ih =>
      rw [chainFrom, chainFrom, getElem?_bare]
      cases t.scopes[i]? with
      | none => rfl
      | some s =>
          cases hparent : s.parent with
          | none => simp only [Option.map_some, Scope.bare, hparent]
          | some parent => simp only [Option.map_some, Scope.bare, hparent, ih]

theorem chain_bare : t.bare.chain = t.chain := t.chainFrom_bare _ _

theorem findIn?_bare (name : String) (i : Nat) :
    t.bare.findIn? name i = (t.findIn? name i).map Symbol.bare := by
  rw [findIn?, findIn?, getElem?_bare]
  cases t.scopes[i]? with
  | none => rfl
  | some s => exact s.find?_bare name

theorem lookup?_bare (name : String) :
    t.bare.lookup? name = (t.lookup? name).map Symbol.bare := by
  rw [lookup?, lookup?, chain_bare]
  induction t.chain with
  | nil => rfl
  | cons i chain ih =>
      rw [List.findSome?_cons, List.findSome?_cons, findIn?_bare]
      cases t.findIn? name i with
      | none => exact ih
      | some symbol => rfl

theorem isVisible_bare (name : String) : t.bare.isVisible name = t.isVisible name := by
  rw [isVisible, lookup?_bare, Option.isSome_map, isVisible]

theorem isLocal_bare (name : String) : t.bare.isLocal name = t.isLocal name := by
  rw [isLocal, findIn?_bare, Option.isSome_map]
  rfl

theorem push_bare (kind : ScopeKind) : (t.push kind).bare = t.bare.push kind := by
  rw [bare, push, Array.map_push, push, bare]
  simp only [Array.size_map]
  rfl

theorem pop_bare : t.pop.bare = t.bare.pop := by
  have hparent : t.bare.scopes[t.bare.current]?.bind Scope.parent =
      t.scopes[t.current]?.bind Scope.parent := by
    rw [getElem?_bare]
    show (t.scopes[t.current]?.map Scope.bare).bind Scope.parent = _
    cases t.scopes[t.current]? <;> rfl
  rw [pop, pop, hparent]
  cases t.scopes[t.current]?.bind Scope.parent <;> rfl

/-- A change of one scope that has nothing to do with places. -/
theorem modify_bare (i : Nat) {f g : Scope → Scope} (h : ∀ s, (f s).bare = g s.bare) :
    ({ t with scopes := t.scopes.modify i f } : ScopeTable).bare =
      { t.bare with scopes := t.bare.scopes.modify i g } := by
  refine congrArg (ScopeTable.mk · t.current) (Array.ext_getElem? fun j => ?_)
  rw [Array.getElem?_map, Array.getElem?_modify, Array.getElem?_modify, getElem?_bare]
  split
  · cases t.scopes[j]? with
    | none => rfl
    | some s => exact congrArg some (h s)
  · rfl

theorem declare_bare (symbol : Symbol) :
    t.bare.declare symbol.bare = ((t.declare symbol).1, (t.declare symbol).2.bare) := by
  rw [declare, declare, show symbol.bare.name = symbol.name from rfl, isLocal_bare]
  split
  · rfl
  · refine congrArg (Prod.mk true) ?_
    exact (t.modify_bare t.current (f := (·.add symbol)) fun s => s.add_bare symbol).symm

theorem markAssigned_bare (name : String) :
    (t.markAssigned name).bare = t.bare.markAssigned name := by
  have hfind : (fun i => (t.bare.findIn? name i).isSome) = fun i => (t.findIn? name i).isSome := by
    funext i
    rw [findIn?_bare, Option.isSome_map]
  rw [markAssigned, markAssigned, chain_bare, hfind]
  split
  · next i _ => exact t.modify_bare i (f := (·.markAssigned name)) fun s => s.markAssigned_bare name
  · rfl

end ScopeTable

namespace Grammar

open FrontEnd.Grammar.Parser

/-! ## States without places -/

namespace State

/-- A state with all its places left out. -/
def bare (s : State) : State :=
  { s with
    file := Location.nowhere.file
    unread := s.unread.map Token.placeless
    finish := s.finish.placeless
    findings := s.findings.map Finding.bare
    scopes := s.scopes.bare
    namespaceLine := s.namespaceLine.map fun line => (line.1, Location.nowhere.position.line) }

variable (s : State)

theorem current_bare : s.bare.current = s.current.placeless := by
  cases s with
  | mk file unread => cases unread <;> rfl

theorem lookahead_bare : s.bare.lookahead = s.lookahead.placeless := by
  rw [lookahead, lookahead]
  show ((s.unread.map Token.placeless).tail).headD s.finish.placeless = _
  rw [← List.map_tail]
  cases s.unread.tail <;> rfl

theorem report_bare (f : Finding) : (s.report f).bare = s.bare.report f.bare := by
  have hseverity : f.bare.issue.severity = f.issue.severity := f.issue.severity_bare
  rw [report, report, hseverity]
  show (if s.panic then _ else _ : State).bare = if s.panic then _ else _
  split
  · rfl
  · split
    · rw [bare, bare]
      simp only [List.map_append, List.map_cons, List.map_nil]
    · rw [bare, bare]
      simp only [List.map_append, List.map_cons, List.map_nil]

theorem settle_bare (tokens : List Token) :
    (s.settle tokens).bare = s.bare.settle (tokens.map Token.placeless) := by
  induction tokens generalizing s with
  | nil => rfl
  | cons t rest ih =>
      rw [settle, List.map_cons, settle]
      simp only [Token.kind_placeless, Token.lexeme_placeless]
      split
      · rw [ih]
        exact congrArg (fun s : State => s.enterPanic.settle (rest.map Token.placeless))
          (s.report_bare _)
      · rfl

theorem advance_bare : s.advance.bare = s.bare.advance := by
  rw [advance, settle_bare, List.map_tail]
  rfl

theorem pushScope_bare (kind : ScopeKind) : (s.pushScope kind).bare = s.bare.pushScope kind :=
  congrArg (fun scopes => { s.bare with scopes }) (s.scopes.push_bare kind)

theorem popScope_bare : s.popScope.bare = s.bare.popScope :=
  congrArg (fun scopes => { s.bare with scopes }) s.scopes.pop_bare

theorem startsBinding_bare : startsBinding s.bare = startsBinding s := by
  rw [startsBinding, startsBinding, current_bare, lookahead_bare]
  rfl

end State

theorem declareParams_bare (params : List Param) (t : ScopeTable) :
    declareParams (params.map Param.bare) t.bare = (declareParams params t).bare := by
  induction params generalizing t with
  | nil => rfl
  | cons p params ih =>
      rw [declareParams, declareParams, List.map_cons, List.foldl_cons, List.foldl_cons,
        ← declareParams, ← declareParams, ← ih]
      refine congrArg (declareParams _) ?_
      exact congrArg Prod.snd (t.declare_bare ⟨p.name, .value, .mutable, true, p.loc⟩)

theorem State.enterFunction_bare (s : State) (params : List Param) :
    (s.enterFunction params).bare = s.bare.enterFunction (params.map Param.bare) := by
  have hscopes : (declareParams params (s.scopes.push .function)).bare =
      declareParams (params.map Param.bare) (s.scopes.bare.push .function) := by
    rw [← s.scopes.push_bare, declareParams_bare]
  exact congrArg (fun scopes => { s.bare with scopes, inFunction := true }) hscopes

theorem State.leaveFunction_bare (s : State) (wasInFunction : Bool) :
    (s.leaveFunction wasInFunction).bare = s.bare.leaveFunction wasInFunction :=
  congrArg (fun scopes => { s.bare with scopes, inFunction := wasInFunction }) s.scopes.pop_bare

/-! ## Recovery without places

Each search is a recursion over the tokens that decides by their kinds, so it skips as many of them
without their places. -/

theorem dropInvalid_placeless (tokens : List Token) :
    dropInvalid (tokens.map Token.placeless) = (dropInvalid tokens).map Token.placeless :=
  List.dropWhile_map ..

theorem skipGroups_placeless (depth : Nat) (tokens : List Token) :
    skipGroups depth (tokens.map Token.placeless) =
      (skipGroups depth tokens).map Token.placeless := by
  induction tokens generalizing depth with
  | nil => rfl
  | cons t rest ih =>
      rw [List.map_cons, skipGroups, skipGroups]
      simp only [Token.kind_placeless]
      split
      · exact ih _
      · split
        · exact dropInvalid_placeless rest
        · exact ih _
      · exact ih _

theorem synchronize_placeless (behindSemicolon : Bool) (tokens : List Token) :
    synchronize behindSemicolon (tokens.map Token.placeless) =
      (synchronize behindSemicolon tokens).map Token.placeless := by
  induction tokens generalizing behindSemicolon with
  | nil => rfl
  | cons t rest ih =>
      have hgroup := skipGroups_placeless 0 (t :: rest)
      rw [List.map_cons] at hgroup ⊢
      rw [synchronize, synchronize]
      simp only [Token.kind_placeless]
      split
      · exact ih _
      · split
        · rfl
        · split
          · rfl
          · exact hgroup
          · split
            · rfl
            · exact ih _

theorem skipStatement_placeless (tokens : List Token) :
    skipStatement (tokens.map Token.placeless) = (skipStatement tokens).map Token.placeless := by
  cases tokens with
  | nil => rfl
  | cons t rest =>
      have hgroup := skipGroups_placeless 0 (t :: rest)
      rw [List.map_cons] at hgroup ⊢
      rw [skipStatement, skipStatement]
      simp only [Token.kind_placeless]
      split
      · exact hgroup
      · exact synchronize_placeless _ rest

theorem State.recover_bare (s : State) (failure : Finding) (before : Nat) :
    (s.recover failure before).bare = s.bare.recover failure.bare before := by
  have hunread : s.bare.unread = s.unread.map Token.placeless := rfl
  rw [State.recover, State.recover, hunread, List.length_map, skipStatement_placeless,
    synchronize_placeless, ← State.report_bare, ← apply_ite (List.map Token.placeless)]
  rfl

theorem State.closeBlock_bare (s : State) : s.closeBlock.bare = s.bare.closeBlock := by
  rw [State.closeBlock, State.closeBlock]
  dsimp only
  have hcurrent : s.bare.exitPanic.current = s.exitPanic.current.placeless :=
    s.exitPanic.current_bare
  rw [hcurrent]
  simp only [Token.kind_placeless]
  split
  · exact s.exitPanic.advance_bare
  · exact congrArg State.enterPanic (s.exitPanic.report_bare _)

end Grammar

end FrontEnd
