import FrontEnd.Proofs.Parsing.Counting
import FrontEnd.Proofs.Parsing.Opened

set_option autoImplicit false

/-! # Two runs side by side

Two runs of a parser on the same tokens up to one that ends a statement (`Alike`) go on side by side
as long as they do not read that token: both fail at the same token, or both succeed with the same
tokens left before it (`Along`). The states may be equal apart from what stands behind, and then the
results are equal too. Or they may differ in all that was found and declared, which has no influence
on how tokens are read.

Both cases are kept in one relation, with the first as a proposition that may hold or not
(`Twins.same`): so each parser is looked at once and not twice. Of what the second run finds, only
that it is nothing grammatical is remembered (`Calm`).
-/

namespace FrontEnd.Grammar

open FrontEnd.Grammar.Parser

variable {α β : Type}

/-- The tokens that end a statement or a block. No parser looks at what stands behind one of these
before it takes the token. -/
def isTerminator : Kind → Bool
  | .mark .semicolon | .mark .rightBrace => true
  | _ => false

theorem isTerminator_ne_invalid {kind : Kind} (h : isTerminator kind = true) : kind ≠ .invalid := by
  rintro rfl
  cases h

theorem not_isTerminator_of_unaryOp? {kind : Kind} {op : UnaryOp} (h : unaryOp? kind = some op) :
    isTerminator kind = false := by
  unfold unaryOp? at h
  split at h
  · rfl
  · rfl
  · rfl
  · cases h

/-! ## Changes that do not look at the tokens

Complaints and declarations change the state without reading. They do the same whatever tokens are
left, which is what allows the tokens to be exchanged under them. -/

/-- From `s` to `s'` nothing grammatical was found, and no panic has begun or ended. So findings are
kept back in `s'` iff they are in `s`. -/
structure Calm (s s' : State) : Prop where
  panic : s'.panic = s.panic
  findings : s.findings <+: s'.findings
  grammatical : s'.grammatical = s.grammatical

theorem Calm.trans {s s' s'' : State} (h : Calm s s') (h' : Calm s' s'') : Calm s s'' :=
  ⟨h'.panic.trans h.panic, h.findings.trans h'.findings, h'.grammatical.trans h.grammatical⟩

/-- Where nothing is found. -/
theorem Calm.of_findings {s s' : State} (hpanic : s'.panic = s.panic)
    (hfindings : s'.findings = s.findings) : Calm s s' :=
  ⟨hpanic, hfindings ▸ List.prefix_rfl, congrArg (List.filter _) hfindings⟩

/-- The state with other tokens before it. -/
def State.withTokens (s : State) (unread : List Token) (finish : Token) : State :=
  { s with unread, finish }

/-- What is reported does not depend on the tokens. -/
theorem State.withTokens_report (s : State) (unread : List Token) (finish : Token) (f : Finding) :
    (s.withTokens unread finish).report f = (s.report f).withTokens unread finish := by
  cases h : s.panic with
  | true => rw [s.report_of_panic f h, (s.withTokens unread finish).report_of_panic f h]
  | false =>
      rw [s.report_eq f h, (s.withTokens unread finish).report_eq f h]
      rfl

theorem State.withTokens_self (s : State) : s.withTokens s.unread s.finish = s := rfl

/-- A change of the state that neither reads tokens nor looks at them. It does the same to two
states that differ in their tokens alone. -/
structure Quiet (f : State → State) : Prop where
  blind : ∀ s unread finish, f (s.withTokens unread finish) = (f s).withTokens unread finish
  calm : ∀ s, Calm s (f s)

/-- The state in which a parser stops. -/
def State.behind (s : State) (p : Parser α) : State :=
  match p s with
  | .ok _ s' => s'
  | .error _ s' => s'

theorem State.behind_update (s : State) (f : State → State) : s.behind (update f) = f s := rfl

theorem State.withTokens_scopes (s : State) (unread : List Token) (finish : Token) :
    (s.withTokens unread finish).scopes = s.scopes := rfl

theorem State.withTokens_findings (s : State) (unread : List Token) (finish : Token) :
    (s.withTokens unread finish).findings = s.findings := rfl

namespace Quiet

variable {f : State → State}

theorem unread_eq (h : Quiet f) (s : State) : (f s).unread = s.unread := by
  have hblind := h.blind s s.unread s.finish
  rw [s.withTokens_self] at hblind
  rw [hblind]
  rfl

theorem finish_eq (h : Quiet f) (s : State) : (f s).finish = s.finish := by
  have hblind := h.blind s s.unread s.finish
  rw [s.withTokens_self] at hblind
  rw [hblind]
  rfl

theorem report_calm (s : State) {f : Finding} (soft : f.issue.isSemantic) : Calm s (s.report f) :=
  ⟨s.report_panic f, s.findings_prefix_report f,
    s.report_grammatical (Issue.isSemantic_iff.mp soft).1⟩

theorem complain {issue : Issue} (soft : issue.isSemantic) (t : Token) :
    Quiet fun s => s.report (s.finding issue t) where
  blind s unread finish := s.withTokens_report unread finish _
  calm s := report_calm s soft

theorem onlyIf (condition : Bool) (h : Quiet f) : Quiet fun s => if condition then f s else s := by
  cases condition with
  | true => exact h
  | false => exact ⟨fun _ _ _ => rfl, fun _ => .of_findings rfl rfl⟩

theorem checkTarget (target : Expr) : Quiet fun s => s.behind (Parser.checkTarget target) := by
  refine ⟨fun s unread finish => ?_, fun s => ?_⟩
  · rw [Parser.checkTarget, State.behind_update, State.behind_update, State.withTokens_scopes]
    split
    · split
      · rfl
      · split
        · exact s.withTokens_report ..
        · rfl
    · exact s.withTokens_report ..
  · rw [Parser.checkTarget, State.behind_update]
    split
    · split
      · exact .of_findings rfl rfl
      · split
        · exact report_calm s rfl
        · exact .of_findings rfl rfl
    · exact report_calm s rfl

theorem declare (symbol : Symbol) (t : Token) :
    Quiet fun s => s.behind (Parser.declare symbol t) := by
  refine ⟨fun s unread finish => ?_, fun s => ?_⟩
  · rw [Parser.declare, State.behind_update, State.behind_update, State.withTokens_scopes]
    split
    · rfl
    · exact s.withTokens_report ..
  · rw [Parser.declare, State.behind_update]
    split
    · exact .of_findings rfl rfl
    · exact report_calm s rfl

end Quiet

/-! ## States that are alike

The tokens in front of the stop are valid, so moving on within them reports nothing and never starts a
panic; and the stop itself is not an invalid token either, so it may be moved on to. -/

/-- What two runs side by side have in common. -/
structure Twins where
  /-- Their states are equal apart from the tokens. -/
  same : Prop
  /-- The token up to which they read the same tokens. -/
  stop : Token
  ends : isTerminator stop.kind = true
  /-- The tokens that stand behind it in the first run. -/
  first : List Token
  /-- Those of the second run. -/
  second : List Token
  /-- A state since which the second run has been calm. -/
  base : State

/-- The two states have the same tokens before them up to the one at which the runs stop. The token
itself belongs to both, so that they may look at it. -/
structure Alike (c : Twins) (s t : State) : Prop where
  tokens : ∃ w, (∀ x ∈ w, x.kind ≠ .invalid) ∧
    s.unread = w ++ c.stop :: c.first ∧ t.unread = w ++ c.stop :: c.second
  left : s.HasEnd
  right : t.HasEnd
  agrees : c.same → t = s.withTokens t.unread t.finish
  calm : Calm c.base t

/-- A valid token behind the current one is moved on to. -/
theorem State.advance_eq {s : State} {x : Token} {rest : List Token} (hs : s.unread = x :: rest)
    (hnext : ∀ y ∈ rest.head?, y.kind ≠ .invalid) : s.advance = { s with unread := rest } := by
  rw [advance, hs, List.tail_cons]
  exact settle_valid hnext s

variable {c : Twins} {s t : State}

/-- The first token up to the stop is valid. -/
theorem Twins.head_valid {w rest : List Token} (c : Twins) (hw : ∀ x ∈ w, x.kind ≠ .invalid) :
    ∀ y ∈ (w ++ c.stop :: rest).head?, y.kind ≠ .invalid := by
  cases w with
  | nil =>
      intro y hy
      cases hy
      exact isTerminator_ne_invalid c.ends
  | cons x w =>
      intro y hy
      cases hy
      exact hw x List.mem_cons_self

namespace Alike

theorem current (h : Alike c s t) : t.current = s.current := by
  obtain ⟨w, -, hs, ht⟩ := h.tokens
  rw [State.current, State.current, hs, ht]
  cases w <;> rfl

/-- Another token stands in front of the stop. -/
theorem exists_cons (h : Alike c s t) (hk : isTerminator s.current.kind = false) :
    ∃ x w, (∀ y ∈ w, y.kind ≠ .invalid) ∧
      s.unread = x :: (w ++ c.stop :: c.first) ∧ t.unread = x :: (w ++ c.stop :: c.second) := by
  obtain ⟨w, hw, hs, ht⟩ := h.tokens
  cases w with
  | nil =>
      have hcurrent : s.current = c.stop := by rw [State.current, hs]; rfl
      rw [hcurrent, c.ends] at hk
      cases hk
  | cons x w => exact ⟨x, w, fun y hy => hw y (List.mem_cons_of_mem x hy), hs, ht⟩

theorem lookahead (h : Alike c s t) (hk : isTerminator s.current.kind = false) :
    t.lookahead = s.lookahead := by
  obtain ⟨x, w, -, hs, ht⟩ := h.exists_cons hk
  rw [State.lookahead, State.lookahead, hs, ht]
  cases w <;> rfl

/-- Both runs move on over a token in front of the stop. -/
theorem advance_cons {x : Token} {w : List Token} (h : Alike c s t) (hw : ∀ y ∈ w, y.kind ≠ .invalid)
    (hs : s.unread = x :: (w ++ c.stop :: c.first))
    (ht : t.unread = x :: (w ++ c.stop :: c.second)) : Alike c s.advance t.advance := by
  rw [State.advance_eq hs (c.head_valid hw), State.advance_eq ht (c.head_valid hw)]
  refine ⟨⟨w, hw, rfl, rfl⟩, h.left, h.right, fun hsame => ?_,
    h.calm.trans (.of_findings rfl rfl)⟩
  rw [h.agrees hsame]
  rfl

theorem advance (h : Alike c s t) (hk : isTerminator s.current.kind = false) :
    Alike c s.advance t.advance := by
  obtain ⟨x, w, hw, hs, ht⟩ := h.exists_cons hk
  exact h.advance_cons hw hs ht

theorem update {f g : State → State} (h : Alike c s t) (hf : Quiet f) (hg : Quiet g)
    (heq : c.same → g = f) : Alike c (f s) (g t) where
  tokens := by
    rw [hf.unread_eq, hg.unread_eq]
    exact h.tokens
  left := by
    rw [State.HasEnd, hf.finish_eq]
    exact h.left
  right := by
    rw [State.HasEnd, hg.finish_eq]
    exact h.right
  agrees hsame := by
    have hblind := hf.blind s t.unread t.finish
    rw [hg.unread_eq, hg.finish_eq, heq hsame, ← hblind, ← h.agrees hsame]
  calm := h.calm.trans (hg.calm t)

theorem locate (h : Alike c s t) (hsame : c.same) (x : Token) : t.locate x = s.locate x := by
  rw [h.agrees hsame]
  rfl

theorem scopes (h : Alike c s t) (hsame : c.same) : t.scopes = s.scopes := by
  rw [h.agrees hsame]
  rfl

theorem inFunction (h : Alike c s t) (hsame : c.same) : t.inFunction = s.inFunction := by
  rw [h.agrees hsame]
  rfl

end Alike

/-! ## Parsers that go on side by side

The steps of the parsers in two runs. Values that are built on the way may depend on what was
declared, so they are equal only for twins that are the same; whether a parser fails does not depend
on it. -/

/-- Two results of the same kind, in states that are alike. A failure is at the current token. -/
def Match (c : Twins) : EStateM.Result Finding State α → EStateM.Result Finding State α → Prop
  | .ok a s, .ok b t => (c.same → b = a) ∧ Alike c s t
  | .error f s, .error g t =>
    (c.same → g = f) ∧ g = t.finding g.issue t.current ∧ Alike c s t
  | _, _ => False

/-- From states that are alike the two parsers come to results that match. -/
def Along (c : Twins) (p q : Parser α) : Prop := ∀ ⦃s t⦄, Alike c s t → Match c (p s) (q t)

/-- Sequences match if their parts do. -/
theorem Match.bind {p q : Parser α} {p' q' : α → Parser β} (h : Match c (p s) (q t))
    (h' : ∀ a b, (c.same → b = a) → Along c (p' a) (q' b)) :
    Match c ((p >>= p') s) ((q >>= q') t) := by
  change Match c (EStateM.bind p p' s) (EStateM.bind q q' t)
  unfold EStateM.bind
  cases hp : p s with
  | ok a s' =>
      cases hq : q t with
      | ok b t' =>
          rw [hp, hq] at h
          exact h' a b h.1 h.2
      | error g t' => rw [hp, hq] at h; exact h.elim
  | error f s' =>
      cases hq : q t with
      | ok b t' => rw [hp, hq] at h; exact h.elim
      | error g t' => rw [hp, hq] at h; exact h

namespace Along

theorem pure {a b : α} (h : c.same → b = a) : Along c (Pure.pure a) (Pure.pure b) :=
  fun _ _ halike => ⟨h, halike⟩

theorem bind {p q : Parser α} {p' q' : α → Parser β} (h : Along c p q)
    (h' : ∀ a b, (c.same → b = a) → Along c (p' a) (q' b)) : Along c (p >>= p') (q >>= q') :=
  fun _ _ halike => (h halike).bind h'

theorem update {f g : State → State} (hf : Quiet f) (hg : Quiet g) (heq : c.same → g = f) :
    Along c (Parser.update f) (Parser.update g) :=
  fun _ _ h => ⟨fun _ => rfl, h.update hf hg heq⟩

theorem updateSelf {f : State → State} (hf : Quiet f) :
    Along c (Parser.update f) (Parser.update f) :=
  update hf hf fun _ => rfl

theorem locate (x : Token) : Along c (Parser.locate x) (Parser.locate x) :=
  fun _ _ h => ⟨fun hsame => h.locate hsame x, h⟩

theorem fail (issue : Issue) : Along c (Parser.fail issue : Parser α) (Parser.fail issue) := by
  intro s t h
  refine ⟨fun hsame => ?_, rfl, h⟩
  rw [h.current, State.finding, State.finding, h.locate hsame]

theorem failExpecting (what : Expectation) :
    Along c (Parser.failExpecting what : Parser α) (Parser.failExpecting what) := by
  intro s t h
  have hmatch := fail (α := α) (.expected what s.current) h
  rw [Parser.failExpecting, current_bind, current_bind, h.current]
  exact hmatch

/-- A complaint that may depend on what was declared. -/
theorem complainIf {issue : Issue} (soft : issue.isSemantic) (x : Token) {a b : Bool}
    (h : c.same → b = a) :
    Along c (Parser.onlyIf a (Parser.complain issue x))
      (Parser.onlyIf b (Parser.complain issue x)) := by
  intro s t halike
  have hquiet (d : Bool) := (Quiet.complain soft x).onlyIf d
  have hnext := halike.update (hquiet a) (hquiet b) fun hsame => by rw [h hsame]
  rw [onlyIf_complain_eq, onlyIf_complain_eq]
  exact ⟨fun _ => rfl, hnext⟩

theorem onlyIf (condition : Bool) {p q : Parser Unit} (h : Along c p q) :
    Along c (Parser.onlyIf condition p) (Parser.onlyIf condition q) := by
  cases condition with
  | true => exact h
  | false => exact pure fun _ => rfl

theorem complain {issue : Issue} (soft : issue.isSemantic) (x : Token) :
    Along c (Parser.complain issue x) (Parser.complain issue x) :=
  updateSelf (.complain soft x)

/-- A token that does not end a statement is read in both runs, or in none. -/
theorem accept {kind : Kind} (hk : isTerminator kind = false) {p q : Bool → Parser α}
    (h : ∀ b, Along c (p b) (q b)) :
    Along c (Parser.accept kind >>= p) (Parser.accept kind >>= q) := by
  intro s t halike
  by_cases hkind : s.current.kind = kind
  · have hs : Parser.accept kind s = .ok true s.advance := by rw [accept_eq, if_pos hkind]
    have ht : Parser.accept kind t = .ok true t.advance := by
      rw [accept_eq, halike.current, if_pos hkind]
    rw [bind_of_ok hs, bind_of_ok ht]
    exact h true (halike.advance (by rw [hkind, hk]))
  · have hs : Parser.accept kind s = .ok false s := by rw [accept_eq, if_neg hkind]
    have ht : Parser.accept kind t = .ok false t := by
      rw [accept_eq, halike.current, if_neg hkind]
    rw [bind_of_ok hs, bind_of_ok ht]
    exact h false halike

theorem expect {kind : Kind} (hk : isTerminator kind = false) (place : Place)
    {p q : Token → Parser α} (h : ∀ x, Along c (p x) (q x)) :
    Along c (Parser.expect kind place >>= p) (Parser.expect kind place >>= q) := by
  intro s t halike
  by_cases hkind : s.current.kind = kind
  · rw [bind_of_ok (expect_of_kind place hkind),
      bind_of_ok (expect_of_kind place (by rw [halike.current, hkind])), halike.current]
    exact h _ (halike.advance (by rw [hkind, hk]))
  · have hs := bind_eq_error (q := p).mpr (.inl (show Parser.expect kind place s = .error _ _ by
      rw [expect_eq, if_neg hkind]))
    have ht := bind_eq_error (q := q).mpr (.inl (show Parser.expect kind place t = .error _ _ by
      rw [expect_eq, halike.current, if_neg hkind]))
    rw [hs, ht]
    refine ⟨fun hsame => ?_, ?_, halike⟩
    · rw [State.finding, State.finding, halike.locate hsame]
    · rw [halike.current]
      rfl

end Along

end FrontEnd.Grammar
