import FrontEnd.Proofs.Parsing.Change

set_option autoImplicit false

/-! # What was counted

The counters of a state are the numbers of the errors and the warnings that were found, and a state
in panic has counted an error (`State.Counted`). Every change keeps this, so what is left out in
panic is never the only trace of a mistake. In particular an invalid token leaves an error behind,
whether it is reported or skipped (`State.Seen`).

Both are shown for one change of the state (`Change`), of which there are nine kinds, and then hold
along every run of changes (`Moves.keeps`). No parser is looked at here.
-/

namespace FrontEnd

theorem Finding.isError_of_isGrammatical {f : Finding} (h : f.issue.isGrammatical = true) :
    f.isError = true := by
  rw [isError]
  cases hissue : f.issue with
  | expected | misplaced => rfl
  | _ => rw [hissue] at h; cases h

namespace Grammar

variable {s s' : State}

/-- The counters are the numbers of errors and warnings that were found, and a panic comes from an
error. The last part is what makes leaving out safe: what a state in panic does not report is
covered by the error that the panic began with. -/
structure State.Counted (s : State) : Prop where
  errors_eq : s.errors = s.findings.countP Finding.isError
  warnings_eq : s.warnings = s.findings.countP fun f => !f.isError
  of_panic : s.panic = true → 1 ≤ s.errors

/-- A report that is not left out counts an error, or else a warning. -/
theorem State.report_eq (s : State) (f : Finding) (h : s.panic = false) :
    s.report f =
      { s with
        findings := s.findings ++ [f]
        errors := s.errors + if f.isError then 1 else 0
        warnings := s.warnings + if f.isError then 0 else 1 } := by
  rw [report, h, Finding.isError]
  cases f.issue.severity <;> rfl

theorem State.report_of_panic (s : State) (f : Finding) (h : s.panic = true) : s.report f = s := by
  rw [report, h]
  rfl

theorem State.errors_le_report (s : State) (f : Finding) : s.errors ≤ (s.report f).errors := by
  cases h : s.panic with
  | true => exact Nat.le_of_eq (by rw [s.report_of_panic f h])
  | false => rw [s.report_eq f h]; exact Nat.le_add_right _ _

namespace State.Counted

theorem report (h : s.Counted) (f : Finding) : (s.report f).Counted := by
  cases hp : s.panic with
  | true => rwa [s.report_of_panic f hp]
  | false =>
      rw [s.report_eq f hp]
      refine ⟨?_, ?_, fun hpanic => ?_⟩
      · rw [List.countP_append, List.countP_singleton, ← h.errors_eq]
      · rw [List.countP_append, List.countP_singleton, ← h.warnings_eq]
        cases f.isError <;> rfl
      · rw [hp] at hpanic
        cases hpanic

/-- Behind an error that was reported or left out an error is counted. -/
theorem one_le_report (h : s.Counted) {f : Finding} (hf : f.isError = true) :
    1 ≤ (s.report f).errors := by
  cases hp : s.panic with
  | true => rw [s.report_of_panic f hp]; exact h.of_panic hp
  | false => rw [s.report_eq f hp, hf]; exact Nat.le_add_left 1 _

theorem fail (h : s.Counted) {f : Finding} (hf : f.isError = true) :
    (s.report f).enterPanic.Counted :=
  ⟨(h.report f).errors_eq, (h.report f).warnings_eq, fun _ => h.one_le_report hf⟩

theorem settle (h : s.Counted) (tokens : List Token) : (s.settle tokens).Counted := by
  induction tokens generalizing s with
  | nil => exact ⟨h.errors_eq, h.warnings_eq, h.of_panic⟩
  | cons t rest ih =>
      rw [State.settle]
      split
      · exact ih (h.fail rfl)
      · exact ⟨h.errors_eq, h.warnings_eq, h.of_panic⟩

end State.Counted

theorem Change.counted (h : Change s s') (hs : s.Counted) : s'.Counted := by
  cases h with
  | complain f soft => exact hs.report f
  | advance => exact hs.settle _
  | fail f hard => exact hs.fail (Finding.isError_of_isGrammatical hard)
  | exitPanic => exact ⟨hs.errors_eq, hs.warnings_eq, nofun⟩
  | setScopes | setInFunction | setEntryPoint | setNamespace | skip =>
      exact ⟨hs.errors_eq, hs.warnings_eq, hs.of_panic⟩

theorem Moves.counted (h : Moves s s') : s.Counted → s'.Counted := h.keeps fun _ _ hc => hc.counted

/-! ## Errors stay counted

The counters only grow. Panic mode keeps findings back, but it is entered with an error that was
counted. -/

theorem State.errors_le_settle (s : State) (tokens : List Token) :
    s.errors ≤ (s.settle tokens).errors := by
  induction tokens generalizing s with
  | nil => exact Nat.le_refl _
  | cons t rest ih =>
      rw [settle]
      split
      · exact Nat.le_trans (s.errors_le_report _) (ih (s.report _).enterPanic)
      · exact Nat.le_refl _

theorem Change.errors_le (h : Change s s') : s.errors ≤ s'.errors := by
  cases h with
  | complain f soft => exact s.errors_le_report f
  | advance => exact s.errors_le_settle _
  | fail f hard => exact s.errors_le_report f
  | setScopes | setInFunction | setEntryPoint | setNamespace | exitPanic | skip =>
      exact Nat.le_refl _

theorem Moves.errors_le (h : Moves s s') : s.errors ≤ s'.errors :=
  h.keeps (P := fun t => s.errors ≤ t.errors) (fun _ _ hc ht => Nat.le_trans ht hc.errors_le)
    (Nat.le_refl _)

/-! ## No invalid token goes unseen

An invalid token is passed in one of two ways. When it comes up it is reported, unless the state is in
panic, and then an error is counted already; or it is skipped, which happens in panic only. -/

/-- The number of invalid tokens. -/
def invalidTokens (tokens : List Token) : Nat := tokens.countP (·.kind == .invalid)

/-- An error was counted, or all of the `n` invalid tokens are still to come. In the second case the
next token is valid, and panic mode has not begun. -/
def State.Seen (n : Nat) (s : State) : Prop :=
  1 ≤ s.errors ∨
    s.panic = false ∧ (∀ t ∈ s.unread.head?, t.kind ≠ .invalid) ∧ invalidTokens s.unread = n

theorem State.Counted.seen_settle {n : Nat} (h : s.Counted) (hp : s.panic = false)
    {tokens : List Token} (hn : invalidTokens tokens = n) : (s.settle tokens).Seen n := by
  cases tokens with
  | nil => exact .inr ⟨hp, nofun, hn⟩
  | cons t rest =>
      rw [State.settle]
      split
      · exact .inl (Nat.le_trans (h.one_le_report rfl)
          ((s.report _).enterPanic.errors_le_settle rest))
      · next hvalid =>
        refine .inr ⟨hp, fun t' ht' => ?_, hn⟩
        cases ht'
        exact hvalid

theorem Change.seen {n : Nat} (h : Change s s') (hs : s.Counted) (hseen : s.Seen n) :
    s'.Seen n := by
  rcases hseen with herror | ⟨hp, hhead, hn⟩
  · exact .inl (Nat.le_trans herror h.errors_le)
  · cases h with
    | complain f soft =>
        refine .inr ⟨(s.report_panic f).trans hp, ?_, ?_⟩
        · rwa [s.report_unread f]
        · rwa [s.report_unread f]
    | advance =>
        -- the current token is valid, so all invalid ones are behind it
        refine hs.seen_settle hp ?_
        cases hunread : s.unread with
        | nil => rwa [hunread] at hn
        | cons t rest =>
            have hvalid : t.kind ≠ .invalid := hhead t (by rw [hunread]; rfl)
            rw [hunread, invalidTokens, List.countP_cons_of_neg (by simpa using hvalid)] at hn
            exact hn
    | fail f hard => exact .inl (hs.one_le_report (Finding.isError_of_isGrammatical hard))
    | skip rest behind quiet => rw [hp] at quiet; cases quiet
    | exitPanic => exact .inr ⟨rfl, hhead, hn⟩
    | setScopes | setInFunction | setEntryPoint | setNamespace => exact .inr ⟨hp, hhead, hn⟩

theorem Moves.seen {n : Nat} (h : Moves s s') (hs : s.Counted) (hseen : s.Seen n) : s'.Seen n := by
  have hboth := h.keeps (P := fun t => t.Counted ∧ t.Seen n)
    (fun _ _ hc ht => ⟨hc.counted ht.1, hc.seen ht.1 ht.2⟩) ⟨hs, hseen⟩
  exact hboth.2

end Grammar

end FrontEnd
