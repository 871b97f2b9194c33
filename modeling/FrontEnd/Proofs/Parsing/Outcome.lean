import FrontEnd.Report

set_option autoImplicit false

/-! # What a parser that succeeded has done

A parser is run on a state and succeeds or fails with a new one. The lemmas here take a successful
run apart: a sequence has succeeded iff both of its parts have (`bind_eq_ok`), and every primitive
parser has one lemma that says what it does. Later proofs use these and do not open the primitives.

They come in two forms. In front of a goal about a sequence, the lemmas `…_bind` run a part that
cannot fail. Given that a sequence has succeeded, the lemmas `…_eq_ok` say what each part has done,
with the states in between as new names.
-/

namespace FrontEnd.Grammar

variable {α β : Type} {s s' s'' : State}

namespace Parser

/-! ## Sequences

A sequence succeeds if all its parts do, and fails with the first of them that fails. -/

theorem bind_eq_ok {p : Parser α} {q : α → Parser β} {b : β} :
    (p >>= q) s = .ok b s'' ↔ ∃ a s', p s = .ok a s' ∧ q a s' = .ok b s'' := by
  change EStateM.bind p q s = _ ↔ _
  unfold EStateM.bind
  constructor
  · intro h
    cases hp : p s with
    | ok a s' => exact ⟨a, s', rfl, by rwa [hp] at h⟩
    | error f s' => rw [hp] at h; cases h
  · rintro ⟨a, s', hp, hq⟩
    rw [hp]
    exact hq

theorem bind_eq_error {p : Parser α} {q : α → Parser β} {f : Finding} :
    (p >>= q) s = .error f s'' ↔
      p s = .error f s'' ∨ ∃ a s', p s = .ok a s' ∧ q a s' = .error f s'' := by
  change EStateM.bind p q s = _ ↔ _
  unfold EStateM.bind
  constructor
  · intro h
    cases hp : p s with
    | ok a s' => exact .inr ⟨a, s', rfl, by rwa [hp] at h⟩
    | error g s' => rw [hp] at h; cases h; exact .inl rfl
  · rintro (hp | ⟨a, s', hp, hq⟩)
    · rw [hp]
    · rw [hp]
      exact hq

theorem pure_eq_ok {a b : α} : (pure a : Parser α) s = .ok b s' ↔ b = a ∧ s' = s := by
  constructor
  · intro h; cases h; exact ⟨rfl, rfl⟩
  · rintro ⟨rfl, rfl⟩; rfl

/-- What is behind a parser that succeeds goes on from where it has stopped. -/
theorem bind_of_ok {p : Parser α} {a : α} (h : p s = .ok a s') (q : α → Parser β) :
    (p >>= q) s = q a s' := by
  change EStateM.bind p q s = _
  unfold EStateM.bind
  rw [h]

/-! ## Primitive parsers -/

theorem update_eq_ok {f : State → State} {u : Unit} : update f s = .ok u s' ↔ s' = f s := by
  constructor
  · intro h; cases h; rfl
  · rintro rfl; rfl

theorem complain_eq_ok {issue : Issue} {t : Token} {u : Unit} :
    complain issue t s = .ok u s' ↔ s' = s.report (s.finding issue t) := update_eq_ok

theorem fail_ne_ok {issue : Issue} {a : α} : ¬ (fail issue : Parser α) s = .ok a s' := by
  intro h; cases h

theorem failExpecting_ne_ok {what : Expectation} {a : α} :
    ¬ (failExpecting what : Parser α) s = .ok a s' := by
  intro h; cases h

/-! Primitive parsers that never fail, in front of others. -/

theorem get_bind (q : State → Parser β) (s : State) : (get >>= q) s = q s s := rfl

theorem current_bind (q : Token → Parser β) (s : State) : (current >>= q) s = q s.current s := rfl

theorem lookahead_bind (q : Token → Parser β) (s : State) :
    (lookahead >>= q) s = q s.lookahead s := rfl

theorem locate_bind (t : Token) (q : Location → Parser β) (s : State) :
    (locate t >>= q) s = q (s.locate t) s := rfl

theorem update_bind (f : State → State) (q : Unit → Parser β) (s : State) :
    (update f >>= q) s = q () (f s) := rfl

theorem advance_bind (q : Unit → Parser β) (s : State) : (advance >>= q) s = q () s.advance := rfl

theorem take_bind (q : Token → Parser β) (s : State) : (take >>= q) s = q s.current s.advance := rfl

/-! ## Reading a given token -/

theorem accept_eq (kind : Kind) (s : State) :
    accept kind s =
      if s.current.kind = kind then .ok true s.advance else .ok false s := by
  show (if s.current.kind = kind then (do advance; return true : Parser Bool)
    else (return false : Parser Bool)) s = _
  split <;> rfl

theorem accept_eq_ok {kind : Kind} {b : Bool} :
    accept kind s = .ok b s' ↔
      (b = true ∧ s.current.kind = kind ∧ s' = s.advance) ∨
      (b = false ∧ s.current.kind ≠ kind ∧ s' = s) := by
  rw [accept_eq]
  by_cases hk : s.current.kind = kind
  · simp [hk, eq_comm]
  · simp [hk, eq_comm]

theorem expect_eq (kind : Kind) (place : Place) (s : State) :
    expect kind place s =
      if s.current.kind = kind then .ok s.current s.advance
      else .error (s.finding (.expected (.token kind place) s.current) s.current) s := by
  show (if s.current.kind = kind then (do advance; return s.current : Parser Token)
    else (failExpecting (.token kind place) : Parser Token)) s = _
  split <;> rfl

theorem expect_eq_ok {kind : Kind} {place : Place} {t : Token} :
    expect kind place s = .ok t s' ↔
      t = s.current ∧ s.current.kind = kind ∧ s' = s.advance := by
  rw [expect_eq]
  by_cases hk : s.current.kind = kind
  · simp [hk, eq_comm]
  · simp [hk]

theorem expect_of_kind {kind : Kind} (place : Place) (h : s.current.kind = kind) :
    expect kind place s = .ok s.current s.advance :=
  expect_eq_ok.mpr ⟨rfl, h, rfl⟩

/-! ## Sequences of statements

Reading the statements of a block never fails. One round ends the block, reads a statement, or
skips one that has failed. -/

end Parser

/-- No statement starts here. The loop over a block is over, with its brace or for want of one. -/
def State.endsBlock (s : State) : Prop :=
  s.current.kind = .mark .rightBrace ∨ s.current.kind = .endOfFile

namespace Parser

theorem statementsWithin_zero (s : State) : statementsWithin 0 s = .ok [] s.closeBlock := rfl

theorem statementsWithin_end {fuel : Nat} (h : s.endsBlock) :
    statementsWithin (fuel + 1) s = .ok [] s.closeBlock := by
  rw [statementsWithin]
  exact if_pos h

theorem statementsWithin_ok {fuel : Nat} {node : Option Statement} {nodes : List Statement}
    (h : ¬ s.endsBlock) (hs : statement (statementsWithin fuel) s.exitPanic = .ok node s')
    (hr : statementsWithin fuel s' = .ok nodes s'') :
    statementsWithin (fuel + 1) s = .ok (node.toList ++ nodes) s'' := by
  rw [statementsWithin]
  refine (if_neg h).trans ?_
  rw [hs]
  exact bind_eq_ok.mpr ⟨nodes, s'', hr, rfl⟩

theorem statementsWithin_error {fuel : Nat} {failure : Finding} (h : ¬ s.endsBlock)
    (hs : statement (statementsWithin fuel) s.exitPanic = .error failure s') :
    statementsWithin (fuel + 1) s =
      statementsWithin fuel (s'.recover failure s.unread.length) := by
  rw [statementsWithin]
  refine (if_neg h).trans ?_
  rw [hs]

/-- What one round of reading statements can do. -/
theorem statementsWithin_cases {fuel : Nat} {nodes : List Statement}
    (h : statementsWithin (fuel + 1) s = .ok nodes s'') :
    (s.endsBlock ∧ nodes = [] ∧ s'' = s.closeBlock) ∨
    (¬ s.endsBlock ∧ ∃ node rest s',
      statement (statementsWithin fuel) s.exitPanic = .ok node s' ∧
      statementsWithin fuel s' = .ok rest s'' ∧ nodes = node.toList ++ rest) ∨
    (¬ s.endsBlock ∧ ∃ failure s',
      statement (statementsWithin fuel) s.exitPanic = .error failure s' ∧
      statementsWithin fuel (s'.recover failure s.unread.length) = .ok nodes s'') := by
  by_cases he : s.endsBlock
  · rw [statementsWithin_end he] at h
    cases h
    exact .inl ⟨he, rfl, rfl⟩
  · cases hs : statement (statementsWithin fuel) s.exitPanic with
    | ok node s' =>
        cases hr : statementsWithin fuel s' with
        | ok rest t =>
            rw [statementsWithin_ok he hs hr] at h
            cases h
            exact .inr (.inl ⟨he, node, rest, s', rfl, hr, rfl⟩)
        | error f t =>
            -- the rest of a block never fails, so this run would not have succeeded
            rw [statementsWithin] at h
            have h := (if_neg he).symm.trans h
            rw [hs] at h
            obtain ⟨a, u, hr', -⟩ := bind_eq_ok.mp h
            rw [hr] at hr'
            cases hr'
    | error failure s' =>
        rw [statementsWithin_error he hs] at h
        exact .inr (.inr ⟨he, failure, s', rfl, h⟩)

theorem statementsWithin_ne_error (fuel : Nat) (s s' : State) (f : Finding) :
    statementsWithin fuel s ≠ .error f s' := by
  induction fuel generalizing s s' f with
  | zero => intro h; cases h
  | succ fuel ih =>
      intro h
      by_cases he : s.endsBlock
      · rw [statementsWithin_end he] at h
        cases h
      · cases hs : statement (statementsWithin fuel) s.exitPanic with
        | ok node next =>
            cases hr : statementsWithin fuel next with
            | ok rest t => rw [statementsWithin_ok he hs hr] at h; cases h
            | error g t => exact ih next t g hr
        | error failure next =>
            rw [statementsWithin_error he hs] at h
            exact ih _ _ _ h

end Parser

end FrontEnd.Grammar
