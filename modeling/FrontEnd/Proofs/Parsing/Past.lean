import FrontEnd.Proofs.Parsing.Twins
import FrontEnd.Proofs.Parsing.Recovery

set_option autoImplicit false

/-! # Behind the last token

A run that comes to the end of its tokens is compared with one that goes on behind them. If the
token that comes next is a valid one then the states stay equal apart from the tokens. If it is
invalid, it is reported as soon as the last token before it is read, and the second run is in panic
from then on: what the first one still finds, the second one leaves out (`State.Muted`). What can be
found there is found by a few changes of the state (`Late`), of a few kinds (`Issue.isLate`).

These are the changes that come behind the last token of a phrase: a name is declared or found to be
declared already, a value is found to be missing, a scope is opened or closed. None of them reads a
token, so what they do to scopes and flags is the same in both runs (`SameFrame`); only what they
report may differ.
-/

namespace FrontEnd

/-- The issues that are found behind the semicolon of a declaration. They are reported when the
semicolon has been taken, so what follows it may silence them. -/
def Issue.isLate : Issue → Bool
  | namespaceTaken _ | uninitialized _ | redefinedSymbol _ => true
  | _ => false

namespace Grammar

open FrontEnd.Grammar.Parser

variable {α β : Type}

/-! ## States that differ in tokens and findings

Behind the last token the two runs have read the same. What the second one finds there may be kept
back, so its findings are those of the first one or fewer. -/

/-- The states are equal apart from their tokens and from what was found. The counters and the panic
belong to what was found. -/
structure SameFrame (s t : State) : Prop where
  file : t.file = s.file
  scopes : t.scopes = s.scopes
  namespaceLine : t.namespaceLine = s.namespaceLine
  inFunction : t.inFunction = s.inFunction
  entryPoint : t.entryPoint = s.entryPoint

theorem SameFrame.of_withTokens {s t : State} (h : t = s.withTokens t.unread t.finish) :
    SameFrame s t := by
  rw [h]
  exact ⟨rfl, rfl, rfl, rfl, rfl⟩

theorem SameFrame.trans {s t u : State} (h : SameFrame s t) (h' : SameFrame t u) : SameFrame s u :=
  ⟨h'.file.trans h.file, h'.scopes.trans h.scopes, h'.namespaceLine.trans h.namespaceLine,
    h'.inFunction.trans h.inFunction, h'.entryPoint.trans h.entryPoint⟩

/-- The second state is in panic. What was found in the first one was found before in the second one
too, or is of one of the late kinds. What is known belongs to the former. -/
structure State.Muted (s t : State) (known : List Finding) : Prop where
  panic : t.panic = true
  findings : ∃ early late, s.findings = early ++ late ∧ known <+: early ∧ early <+: t.findings ∧
    ∀ f ∈ late, f.issue.isLate = true

theorem SameFrame.report (s : State) (f : Finding) : SameFrame s (s.report f) := by
  cases h : s.panic with
  | true =>
      rw [s.report_of_panic f h]
      exact ⟨rfl, rfl, rfl, rfl, rfl⟩
  | false =>
      rw [s.report_eq f h]
      exact ⟨rfl, rfl, rfl, rfl, rfl⟩

theorem SameFrame.symm {s t : State} (h : SameFrame s t) : SameFrame t s :=
  ⟨h.file.symm, h.scopes.symm, h.namespaceLine.symm, h.inFunction.symm, h.entryPoint.symm⟩

theorem SameFrame.locate {s t : State} (h : SameFrame s t) (x : Token) : t.locate x = s.locate x := by
  rw [State.locate, State.locate, h.file]

/-- What is reported in the two states need not be the same. -/
theorem SameFrame.reports {s t : State} (h : SameFrame s t) (f g : Finding) :
    SameFrame (s.report f) (t.report g) :=
  ((SameFrame.report s f).symm.trans h).trans (.report t g)

theorem SameFrame.settle (s : State) (tokens : List Token) : SameFrame s (s.settle tokens) := by
  induction tokens generalizing s with
  | nil => exact ⟨rfl, rfl, rfl, rfl, rfl⟩
  | cons t rest ih =>
      rw [State.settle]
      split
      · have hreport := SameFrame.report s (s.finding (.lexical t.lexeme) t)
        have hpanic : SameFrame (s.report (s.finding (.lexical t.lexeme) t))
            (s.report (s.finding (.lexical t.lexeme) t)).enterPanic := ⟨rfl, rfl, rfl, rfl, rfl⟩
        exact (hreport.trans hpanic).trans (ih _)
      · exact ⟨rfl, rfl, rfl, rfl, rfl⟩

theorem State.settle_panic {s : State} (h : s.panic = true) (tokens : List Token) :
    (s.settle tokens).panic = true := by
  induction tokens generalizing s with
  | nil => exact h
  | cons t rest ih =>
      rw [settle]
      split
      · exact ih rfl
      · exact h

/-! ## Changes behind the last token

Declaring names and closing scopes goes on in both runs alike. Only what is reported may be lost in
the second one, if it is in panic mode. -/

/-- A change of the state that may come behind the last token. In states of the same frame it does the
same to both, and what it finds is of the late kinds. -/
structure Late (f : State → State) : Prop extends Quiet f where
  frame : ∀ {s t}, SameFrame s t → SameFrame (f s) (f t)
  muted : ∀ {s t known}, SameFrame s t → s.Muted t known → (f s).Muted (f t) known

theorem Issue.isSemantic_of_isLate {issue : Issue} (h : issue.isLate = true) : issue.isSemantic := by
  cases issue with
  | namespaceTaken | uninitialized | redefinedSymbol => rfl
  | _ => cases h

/-- What is reported last in the first state is left out in the second one. -/
theorem State.Muted.report {s t : State} {known : List Finding} (h : s.Muted t known) {f : Finding}
    (g : Finding) (hlate : f.issue.isLate = true) : (s.report f).Muted (t.report g) known := by
  rw [t.report_of_panic g h.panic]
  refine ⟨h.panic, ?_⟩
  obtain ⟨early, late, hs, hknown, hearly, hkinds⟩ := h.findings
  rw [State.report_findings]
  split
  · exact ⟨early, late, hs, hknown, hearly, hkinds⟩
  · refine ⟨early, late ++ [f], by rw [hs, List.append_assoc], hknown, hearly, fun x hx => ?_⟩
    rcases List.mem_append.mp hx with hx | hx
    · exact hkinds x hx
    · rw [List.mem_singleton.mp hx]
      exact hlate

namespace Late

/-- A change that finds nothing. -/
theorem of_frame {f : State → State} (hf : Quiet f) (hfindings : ∀ s, (f s).findings = s.findings)
    (hframe : ∀ {s t}, SameFrame s t → SameFrame (f s) (f t)) : Late f where
  toQuiet := hf
  frame := hframe
  muted _ h := by
    refine ⟨(hf.calm _).panic.trans h.panic, ?_⟩
    rw [hfindings, hfindings]
    exact h.findings

theorem complainIf {issue : Issue} (hlate : issue.isLate = true) (x : Token) (condition : Bool) :
    Late fun s => if condition then s.report (s.finding issue x) else s where
  toQuiet := (Quiet.complain (Issue.isSemantic_of_isLate hlate) x).onlyIf condition
  frame {s t} h := by
    cases condition with
    | true => exact h.reports _ _
    | false => exact h
  muted {s t _} _ h := by
    cases condition with
    | true => exact h.report _ hlate
    | false => exact h

theorem declare (symbol : Symbol) (x : Token) :
    Late fun s => s.behind (Parser.declare symbol x) where
  toQuiet := .declare symbol x
  frame {s t} h := by
    rw [Parser.declare, State.behind_update, State.behind_update, h.scopes]
    split
    · exact ⟨h.file, rfl, h.namespaceLine, h.inFunction, h.entryPoint⟩
    · exact h.reports _ _
  muted {s t _} h hmuted := by
    rw [Parser.declare, State.behind_update, State.behind_update, h.scopes]
    split
    · exact ⟨hmuted.panic, hmuted.findings⟩
    · exact hmuted.report _ rfl

theorem pushScope (kind : ScopeKind) : Late fun s => s.pushScope kind :=
  of_frame ⟨fun _ _ _ => rfl, fun _ => .of_findings rfl rfl⟩ (fun _ => rfl) fun h =>
    ⟨h.file, congrArg (·.push kind) h.scopes, h.namespaceLine, h.inFunction, h.entryPoint⟩

theorem popScope : Late State.popScope :=
  of_frame ⟨fun _ _ _ => rfl, fun _ => .of_findings rfl rfl⟩ (fun _ => rfl) fun h =>
    ⟨h.file, congrArg ScopeTable.pop h.scopes, h.namespaceLine, h.inFunction, h.entryPoint⟩

theorem leaveFunction (wasInFunction : Bool) : Late fun s => s.leaveFunction wasInFunction :=
  of_frame ⟨fun _ _ _ => rfl, fun _ => .of_findings rfl rfl⟩ (fun _ => rfl) fun h =>
    ⟨h.file, congrArg ScopeTable.pop h.scopes, h.namespaceLine, rfl, h.entryPoint⟩

theorem setNamespace (line : String × Nat) :
    Late fun s => { s with namespaceLine := some line }.pushScope .namespaceScope :=
  of_frame ⟨fun _ _ _ => rfl, fun _ => .of_findings rfl rfl⟩ (fun _ => rfl) fun h =>
    ⟨h.file, congrArg (·.push .namespaceScope) h.scopes, rfl, h.inFunction, h.entryPoint⟩

end Late

/-! ## States behind the last token

The first run is at its end. The second one stands before the tokens that follow, and has looked at
the first of them. -/

/-- The first run reads the same tokens as the second one and ends behind them. Nothing stands
behind the last token of its file, and something may in the other one. -/
structure Twins.Whole (c : Twins) : Prop where
  same : c.same
  first_eq : c.first = []
  loud : c.base.panic = false

/-- The first run has read its last token, and the second one has read it too. If the token behind is
valid then the states are equal apart from the tokens; otherwise the second one is in panic. -/
structure Past (c : Twins) (s t : State) : Prop where
  done : s.unread = []
  rest : t.unread = dropInvalid c.second
  left : s.HasEnd
  right : t.HasEnd
  frame : SameFrame s t
  ledger : (∀ x ∈ c.second.head?, x.kind ≠ .invalid) ∧ t = s.withTokens t.unread t.finish ∨
    (∃ x ∈ c.second.head?, x.kind = .invalid) ∧ s.Muted t c.base.findings

variable {c : Twins} {s t : State}

theorem Past.update {f : State → State} (h : Past c s t) (hf : Late f) : Past c (f s) (f t) where
  done := (hf.unread_eq s).trans h.done
  rest := (hf.unread_eq t).trans h.rest
  left := (congrArg Token.kind (hf.finish_eq s)).trans h.left
  right := (congrArg Token.kind (hf.finish_eq t)).trans h.right
  frame := hf.frame h.frame
  ledger := by
    refine h.ledger.imp (fun ⟨hnext, heq⟩ => ⟨hnext, ?_⟩) (fun ⟨hnext, hmuted⟩ => ⟨hnext, ?_⟩)
    · rw [hf.unread_eq, hf.finish_eq, ← hf.blind, ← heq]
    · exact hf.muted h.frame hmuted

/-- In front of a valid token the states differ in nothing but the tokens. -/
theorem Past.eq_of_valid (h : Past c s t) (hnext : ∀ x ∈ c.second.head?, x.kind ≠ .invalid) :
    t = s.withTokens c.second t.finish := by
  rcases h.ledger with ⟨-, heq⟩ | ⟨⟨x, hx, hk⟩, -⟩
  · rwa [h.rest, dropInvalid_of_valid hnext] at heq
  · exact absurd hk (hnext x hx)

/-- Reading the last token. -/
theorem Alike.past (hc : c.Whole) (h : Alike c s t) (hs : s.unread = [c.stop])
    (ht : t.unread = c.stop :: c.second) : Past c s.advance t.advance := by
  have hadvance : s.advance = { s with unread := [] } := State.advance_eq hs nofun
  have hsettle : t.advance = t.settle c.second := by rw [State.advance, ht, List.tail_cons]
  have heq := h.agrees hc.same
  have hframe : SameFrame s.advance t := by
    rw [hadvance, heq]
    exact ⟨rfl, rfl, rfl, rfl, rfl⟩
  refine ⟨by rw [hadvance], by rw [hsettle, State.settle_unread], ?_, ?_, ?_, ?_⟩
  · rw [hadvance]
    exact h.left
  · rw [State.HasEnd, hsettle, State.settle_finish]
    exact h.right
  · rw [hsettle]
    exact hframe.trans (.settle t c.second)
  · cases hsecond : c.second with
    | nil =>
        rw [hsettle, hsecond, hadvance, heq]
        exact .inl ⟨nofun, rfl⟩
    | cons x rest =>
        by_cases hx : x.kind = .invalid
        · -- the invalid token is reported as the last token is read, and panic mode begins
          refine .inr ⟨⟨x, rfl, hx⟩, ?_, ?_⟩
          · rw [hsettle, hsecond, State.settle_invalid hx]
            exact State.settle_panic rfl rest
          · have hfindings : t.findings = s.findings := by rw [heq]; rfl
            refine ⟨s.findings, [], ?_, ?_, ?_, fun f hf => absurd hf List.not_mem_nil⟩
            · rw [hadvance, List.append_nil]
            · rw [← hfindings]
              exact h.calm.findings
            · rw [hsettle, ← hfindings]
              exact t.findings_prefix_settle _
        · have hvalid : ∀ y ∈ (x :: rest).head?, y.kind ≠ .invalid := by
            intro y hy
            cases hy
            exact hx
          refine .inl ⟨hvalid, ?_⟩
          rw [hsettle, hsecond, State.settle_valid hvalid, hadvance, heq]
          rfl

end Grammar

end FrontEnd
