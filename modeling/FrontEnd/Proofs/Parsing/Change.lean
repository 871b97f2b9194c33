import FrontEnd.Proofs.Parsing.Outcome
import Mathlib.Logic.Relation

set_option autoImplicit false

/-! # The changes that a parser makes to its state

Whatever a parser does, it does by a few kinds of changes (`Change`): it reports, moves on to the
next token, opens or closes scopes, fails and skips to the next boundary. `Moves` is a run of such
changes. Every parser of the grammar is `Regular`: it makes only these changes, on success and on
failure, and it fails only because a token has no place in the grammar.

A property of states that every change keeps is therefore kept by every parser. Three of them are
used below: what was found stays found, nothing lexical is found where there are no invalid tokens,
and a state without invalid tokens and without panic stays so until the first finding that is
grammatical.
-/

namespace FrontEnd

/-- The issue is about the meaning of what was read. Such an issue neither stops a parser nor starts
panic mode. -/
def Issue.isSemantic (issue : Issue) : Bool := !issue.isGrammatical && !issue.isLexical

theorem Issue.isSemantic_iff {issue : Issue} :
    issue.isSemantic ↔ issue.isGrammatical = false ∧ issue.isLexical = false := by
  simp [isSemantic]

namespace Grammar

variable {α β : Type}

/-- One change of a state. Whatever the parsers do to a state is a run of these, so what each of
them preserves holds everywhere behind the start of a file. -/
inductive Change : State → State → Prop where
  /-- Something is reported that leaves the grammar intact. -/
  | complain (s : State) (f : Finding) (soft : f.issue.isSemantic) :
      Change s (s.report f)
  | advance (s : State) : Change s s.advance
  | setScopes (s : State) (scopes : ScopeTable) : Change s { s with scopes }
  | setInFunction (s : State) (inFunction : Bool) : Change s { s with inFunction }
  | setEntryPoint (s : State) (entryPoint : Bool) : Change s { s with entryPoint }
  | setNamespace (s : State) (namespaceLine : Option (String × Nat)) :
      Change s { s with namespaceLine }
  | exitPanic (s : State) : Change s s.exitPanic
  /-- A failure is reported. -/
  | fail (s : State) (f : Finding) (hard : f.issue.isGrammatical = true) :
      Change s (s.report f).enterPanic
  /-- Tokens are skipped, which happens in panic only. -/
  | skip (s : State) (rest : List Token) (behind : rest <:+ s.unread) (quiet : s.panic = true) :
      Change s { s with unread := rest }

/-- A run of changes. -/
def Moves : State → State → Prop := Relation.ReflTransGen Change

namespace Moves

variable {s s' s'' : State}

theorem refl (s : State) : Moves s s := Relation.ReflTransGen.refl

theorem trans (h : Moves s s') (h' : Moves s' s'') : Moves s s'' := Relation.ReflTransGen.trans h h'

theorem of_change (h : Change s s') : Moves s s' := .single h

theorem tail (h : Moves s s') (h' : Change s' s'') : Moves s s'' := Relation.ReflTransGen.tail h h'

/-- What every change keeps, every run keeps. -/
theorem keeps {P : State → Prop} (step : ∀ s s', Change s s' → P s → P s') (h : Moves s s') :
    P s → P s' := by
  induction h with
  | refl => exact id
  | tail _ hc ih => exact fun hp => step _ _ hc (ih hp)

end Moves

/-! ## What no change touches

The name of the file and the token at its end are set once, before anything is read. -/

@[simp] theorem State.settle_file (s : State) (tokens : List Token) :
    (s.settle tokens).file = s.file := by
  induction tokens generalizing s with
  | nil => rfl
  | cons t rest ih =>
      rw [settle]
      split
      · simp [ih, enterPanic]
      · rfl

@[simp] theorem State.settle_finish (s : State) (tokens : List Token) :
    (s.settle tokens).finish = s.finish := by
  induction tokens generalizing s with
  | nil => rfl
  | cons t rest ih =>
      rw [settle]
      split
      · simp [ih, enterPanic]
      · rfl

theorem Change.file_eq {s s' : State} (h : Change s s') : s'.file = s.file := by
  cases h <;> simp [State.advance, State.enterPanic, State.exitPanic]

theorem Change.finish_eq {s s' : State} (h : Change s s') : s'.finish = s.finish := by
  cases h <;> simp [State.advance, State.enterPanic, State.exitPanic]

theorem Moves.file_eq {s s' : State} (h : Moves s s') : s'.file = s.file :=
  h.keeps (P := fun t => t.file = s.file) (fun _ _ hc ht => hc.file_eq.trans ht) rfl

theorem Moves.finish_eq {s s' : State} (h : Moves s s') : s'.finish = s.finish :=
  h.keeps (P := fun t => t.finish = s.finish) (fun _ _ hc ht => hc.finish_eq.trans ht) rfl

/-! ## What was found stays found

Findings are only ever added at the end. So a state that is free of some kind of finding in the end
has been free of it all along, and proofs may reason backwards from the end of a run. -/

/-- Nothing that was found is grammatical. -/
def State.Clean (s : State) : Prop := ∀ f ∈ s.findings, f.issue.isGrammatical = false

/-- The findings that are grammatical. -/
def State.grammatical (s : State) : List Finding := s.findings.filter (·.issue.isGrammatical)

theorem State.clean_iff {s : State} : s.Clean ↔ s.grammatical = [] := by
  simp [Clean, grammatical, List.filter_eq_nil_iff]

theorem State.report_grammatical (s : State) {f : Finding} (soft : f.issue.isGrammatical = false) :
    (s.report f).grammatical = s.grammatical := by
  rw [grammatical, report_findings]
  split
  · rfl
  · rw [List.filter_append, List.filter_cons_of_neg (by simp [soft])]
    exact List.append_nil _

theorem State.findings_prefix_report (s : State) (f : Finding) :
    s.findings <+: (s.report f).findings := by
  rw [report_findings]
  split
  · exact List.prefix_rfl
  · exact List.prefix_append _ _

theorem State.findings_prefix_settle (s : State) (tokens : List Token) :
    s.findings <+: (s.settle tokens).findings := by
  induction tokens generalizing s with
  | nil => exact List.prefix_rfl
  | cons t rest ih =>
      rw [settle]
      split
      · have := ih (s.report (s.finding (.lexical t.lexeme) t)).enterPanic
        exact (s.findings_prefix_report _).trans this
      · exact List.prefix_rfl

theorem Change.findings_prefix {s s' : State} (h : Change s s') : s.findings <+: s'.findings := by
  cases h with
  | complain f soft => exact s.findings_prefix_report f
  | advance => exact s.findings_prefix_settle _
  | fail f hard => exact s.findings_prefix_report f
  | setScopes | setInFunction | setEntryPoint | setNamespace | exitPanic | skip =>
      exact List.prefix_rfl

theorem Moves.findings_prefix {s s' : State} (h : Moves s s') : s.findings <+: s'.findings := by
  induction h with
  | refl => exact List.prefix_rfl
  | tail _ hc ih => exact ih.trans hc.findings_prefix

/-- A state that is clean in the end was clean before. -/
theorem Moves.clean {s s' : State} (h : Moves s s') (hc : s'.Clean) : s.Clean :=
  fun f hf => hc f (h.findings_prefix.subset hf)

/-! ## Panic comes from a grammatical finding

Invalid tokens start a panic too, so the states here have none left to read. -/

/-- Only valid tokens are left to read, and the end of the file stands behind them alone. What the
lexer reports plays no part in such a state. -/
structure State.Lexed (s : State) : Prop where
  valid : ∀ t ∈ s.unread, t.kind ≠ .invalid
  inner : ∀ t ∈ s.unread, t.kind ≠ .endOfFile
  finish : s.finish.kind = .endOfFile

theorem State.Lexed.of_suffix {s s' : State} (h : s.Lexed) (hf : s'.finish = s.finish)
    (hu : s'.unread <:+ s.unread) : s'.Lexed :=
  ⟨fun t ht => h.valid t (hu.subset ht), fun t ht => h.inner t (hu.subset ht), hf ▸ h.finish⟩

theorem State.Lexed.advance_eq {s : State} (h : s.Lexed) :
    s.advance = { s with unread := s.unread.tail } :=
  settle_valid (fun t ht => h.valid t (List.mem_of_mem_tail (List.mem_of_mem_head? ht))) s

theorem Change.lexed {s s' : State} (h : Change s s') (hs : s.Lexed) : s'.Lexed := by
  cases h with
  | complain f soft => exact hs.of_suffix (by simp) (by simp)
  | advance =>
      rw [hs.advance_eq]
      exact hs.of_suffix rfl (List.tail_suffix _)
  | fail f hard => exact hs.of_suffix (by simp [State.enterPanic]) (by simp [State.enterPanic])
  | skip rest behind => exact hs.of_suffix rfl behind
  | setScopes | setInFunction | setEntryPoint | setNamespace | exitPanic =>
      exact hs.of_suffix rfl List.suffix_rfl

theorem Moves.lexed {s s' : State} (h : Moves s s') : s.Lexed → s'.Lexed :=
  h.keeps fun _ _ hc => hc.lexed

/-- Nothing lexical is found among valid tokens. -/
theorem Change.not_lexical {s s' : State} (h : Change s s') (hs : s.Lexed)
    (hfindings : ∀ f ∈ s.findings, f.issue.isLexical = false) :
    ∀ f ∈ s'.findings, f.issue.isLexical = false := by
  have hreport {f : Finding} (hf : f.issue.isLexical = false) :
      ∀ g ∈ (s.report f).findings, g.issue.isLexical = false := by
    intro g hg
    rw [State.report_findings] at hg
    split at hg
    · exact hfindings g hg
    · rcases List.mem_append.mp hg with hg | hg
      · exact hfindings g hg
      · rwa [List.mem_singleton.mp hg]
  cases h with
  | complain f soft => exact hreport (Issue.isSemantic_iff.mp soft).2
  | advance =>
      rw [hs.advance_eq]
      exact hfindings
  | fail f hard =>
      -- a failure is about the grammar: other tokens were expected, or a declaration is misplaced
      refine hreport ?_
      generalize f.issue = issue at hard
      cases issue with
      | expected | misplaced => rfl
      | _ => cases hard
  | setScopes | setInFunction | setEntryPoint | setNamespace | exitPanic | skip => exact hfindings

theorem Moves.not_lexical {s s' : State} (h : Moves s s') (hs : s.Lexed)
    (hfindings : ∀ f ∈ s.findings, f.issue.isLexical = false) :
    ∀ f ∈ s'.findings, f.issue.isLexical = false := by
  have hboth := h.keeps
    (P := fun t => t.Lexed ∧ ∀ f ∈ t.findings, f.issue.isLexical = false)
    (fun _ _ hc ht => ⟨hc.lexed ht.1, hc.not_lexical ht.1 ht.2⟩) ⟨hs, hfindings⟩
  exact hboth.2

/-- Only valid tokens are left to read, and in panic something grammatical was found. So where panic
mode keeps a finding back, another one was reported before. -/
structure State.Sober (s : State) : Prop where
  lexed : s.Lexed
  loud : s.panic = false ∨ ¬ s.Clean

theorem State.not_clean_report {s : State} (f : Finding) (h : ¬ s.Clean) :
    ¬ (s.report f).Clean := by
  intro hc
  apply h
  intro g hg
  exact hc g ((s.findings_prefix_report f).subset hg)

/-- A failure is never silent. -/
theorem State.Sober.not_clean_fail {s : State} (h : s.Sober) {f : Finding}
    (hard : f.issue.isGrammatical = true) : ¬ (s.report f).Clean := by
  rcases h.loud with hp | hd
  · intro hc
    have hf : f ∈ (s.report f).findings := by simp [report_findings, hp]
    rw [hc f hf] at hard
    cases hard
  · exact s.not_clean_report f hd

theorem Change.sober {s s' : State} (h : Change s s') (hs : s.Sober) : s'.Sober := by
  refine ⟨h.lexed hs.lexed, ?_⟩
  cases h with
  | complain f soft =>
      rw [State.report_panic]
      exact hs.loud.imp_right (s.not_clean_report f)
  | advance =>
      rw [hs.lexed.advance_eq]
      exact hs.loud
  | exitPanic => exact .inl rfl
  | fail f hard => exact .inr (hs.not_clean_fail hard)
  | skip | setScopes | setInFunction | setEntryPoint | setNamespace => exact hs.loud

theorem Moves.sober {s s' : State} (h : Moves s s') : s.Sober → s'.Sober :=
  h.keeps fun _ _ hc => hc.sober

/-! ## Regular parsers

For a regular parser it is enough to know that it has run, and not what it has read: all invariants of
changes hold behind it. -/

/-- A parser that changes the state by `Change`s alone and fails only for a grammatical reason. All
parsers of the grammar are regular, which is proved once for all of them. -/
structure Regular (p : Parser α) : Prop where
  ok : ∀ {s a s'}, p s = .ok a s' → Moves s s'
  error : ∀ {s f s'}, p s = .error f s' → Moves s s' ∧ f.issue.isGrammatical = true

namespace Regular

/-- A parser that never fails. -/
theorem of_state {p : Parser α} {f : State → State} {a : State → α}
    (hp : ∀ s, p s = .ok (a s) (f s)) (hf : ∀ s, Moves s (f s)) : Regular p where
  ok {s b s'} h := by rw [hp] at h; cases h; exact hf s
  error {s f s'} h := by rw [hp] at h; cases h

theorem pure (a : α) : Regular (Pure.pure a) := of_state (fun _ => rfl) .refl

theorem bind {p : Parser α} {q : α → Parser β} (hp : Regular p) (hq : ∀ a, Regular (q a)) :
    Regular (p >>= q) where
  ok h := by
    obtain ⟨a, s', h, h'⟩ := Parser.bind_eq_ok.mp h
    exact (hp.ok h).trans ((hq a).ok h')
  error h := by
    rcases Parser.bind_eq_error.mp h with h | ⟨a, s', h, h'⟩
    · exact hp.error h
    · obtain ⟨hm, hard⟩ := (hq a).error h'
      exact ⟨(hp.ok h).trans hm, hard⟩

theorem ite {c : Prop} [Decidable c] {p q : Parser α} (hp : Regular p) (hq : Regular q) :
    Regular (if c then p else q) := by
  split
  · exact hp
  · exact hq

theorem onlyIf (condition : Bool) {p : Parser Unit} (hp : Regular p) :
    Regular (Parser.onlyIf condition p) := ite hp (pure ())

theorem update {f : State → State} (hf : ∀ s, Moves s (f s)) : Regular (Parser.update f) :=
  of_state (fun _ => rfl) hf

theorem get : Regular (get : Parser State) := of_state (fun _ => rfl) .refl

theorem current : Regular Parser.current := of_state (fun _ => rfl) .refl

theorem lookahead : Regular Parser.lookahead := of_state (fun _ => rfl) .refl

theorem locate (t : Token) : Regular (Parser.locate t) := of_state (fun _ => rfl) .refl

theorem advance : Regular Parser.advance := update fun s => .of_change (.advance s)

theorem take : Regular Parser.take := by
  apply bind current
  intro _
  apply bind advance
  intro _
  exact pure _

theorem complain {issue : Issue} (soft : issue.isSemantic) (t : Token) :
    Regular (Parser.complain issue t) := update fun s => .of_change (.complain s _ soft)

theorem fail {issue : Issue} (hard : issue.isGrammatical = true) :
    Regular (Parser.fail issue : Parser α) where
  ok h := absurd h Parser.fail_ne_ok
  error h := by cases h; exact ⟨.refl _, hard⟩

theorem failExpecting (what : Expectation) : Regular (Parser.failExpecting what : Parser α) where
  ok h := absurd h Parser.failExpecting_ne_ok
  error h := by cases h; exact ⟨.refl _, rfl⟩

theorem accept (kind : Kind) : Regular (Parser.accept kind) :=
  bind current fun _ => ite (bind advance fun _ => pure _) (pure _)

theorem expect (kind : Kind) (place : Place) : Regular (Parser.expect kind place) :=
  bind current fun _ => ite (bind advance fun _ => pure _) (failExpecting _)

end Regular

end Grammar

end FrontEnd
