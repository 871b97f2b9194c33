import FrontEnd.Proofs.Parsing.Takes

set_option autoImplicit false

/-! # Expressions are read soundly

What the parsers of expressions take has the form of an expression, and whatever they report is
what a checker reports on the tree. This holds for any fuel, since a parser that runs out
of fuel fails. `climbWithin` is special: the operand that it extends was read before, so the
checker has walked through that operand already.

The parser reports a use before it has read what stands behind it, and a bad target only when the
whole assignment has been read. The checker walks a tree in the same order, operands before the
target that they belong to; this order is what the proofs on chains have to get right.
-/

namespace FrontEnd.Grammar

open FrontEnd.Grammar.Parser

variable {s s' : State}

/-! ## Single tokens

A number or a character may be reported for its value, but legible tokens have one. A name is reported
if it is not visible, and the checker looks it up in the same scopes. -/

namespace Takes

variable {s₀ : State} {c c' : Checker} {t : Token} {e : Expr} {w : List Token}

/-- The checker has nothing to say about a number that is legible. -/
theorem numberLiteral (h : Takes s₀ (t :: w) c c' s) (hk : t.kind = .number)
    (hp : Parser.numberLiteral t s = .ok e s') : Takes s₀ (t :: w) c (e.check c') s' := by
  rw [Parser.numberLiteral, locate_bind] at hp
  cases hn : t.numeral? with
  | none =>
      rw [hn] at hp
      obtain ⟨_, s1, hcomplain, hp⟩ := bind_eq_ok.mp hp
      obtain ⟨rfl, rfl⟩ := pure_eq_ok.mp hp
      refine h.complain rfl hcomplain fun ht _ => ?_
      obtain ⟨n, hsome⟩ := ht.number hk
      rw [hn] at hsome
      cases hsome
  | some n =>
      rw [hn] at hp
      cases n with
      | int value => obtain ⟨rfl, rfl⟩ := pure_eq_ok.mp hp; exact h
      | float value => obtain ⟨rfl, rfl⟩ := pure_eq_ok.mp hp; exact h

/-- The checker has nothing to say about a character literal that is legible. -/
theorem charLiteral (h : Takes s₀ (t :: w) c c' s) (hk : t.kind = .charLiteral)
    (hp : Parser.charLiteral t s = .ok e s') : Takes s₀ (t :: w) c (e.check c') s' := by
  rw [Parser.charLiteral, locate_bind] at hp
  cases hx : unescape? (withoutDelimiters t.lexeme) with
  | none =>
      rw [hx] at hp
      obtain ⟨_, s1, hcomplain, hp⟩ := bind_eq_ok.mp hp
      obtain ⟨rfl, rfl⟩ := pure_eq_ok.mp hp
      refine h.complain rfl hcomplain fun ht _ => ?_
      obtain ⟨x, hsome⟩ := ht.char hk
      rw [hx] at hsome
      cases hsome
  | some x =>
      rw [hx] at hp
      obtain ⟨rfl, rfl⟩ := pure_eq_ok.mp hp
      exact h

/-- A name is used in an expression. -/
theorem use (h : Takes s₀ (t :: w) c c' s) (hk : t.kind = .identifier) {x : Unit}
    (hp : onlyIf (!s.scopes.isVisible t.lexeme) (Parser.complain (.undeclared t.lexeme) t) s =
      .ok x s') : Takes s₀ (t :: w) c (c'.use t.lexeme (s.locate t)) s' := by
  have hm := (Regular.onlyIf _ (Regular.complain rfl t)).ok hp
  have hs' : s' = if (!s.scopes.isVisible t.lexeme) = true then
      s.report (s.finding (.undeclared t.lexeme) t) else s := by
    unfold onlyIf at hp
    split at hp
    · next hv => rw [if_pos hv]; exact complain_eq_ok.mp hp
    · next hv => rw [if_neg hv]; exact (pure_eq_ok.mp hp).2
  refine h.goOn hm ?_ fun hc₀ hc => ?_
  · rw [hs']
    split
    · exact State.report_unread ..
    · rfl
  · rw [hs', State.finding, (h.legible hc₀).name hk]
    exact hc.use t.lexeme (s.locate t)

/-- A step writes to its operand. -/
theorem stepNode {operand : Expr} (h : Takes s₀ w c (operand.check c') s) {step : Step}
    {overflow : Overflow} {fixity : Fixity}
    (hp : Parser.stepNode t step overflow fixity operand s = .ok e s') :
    Takes s₀ w c (e.check c') s' := by
  rw [Parser.stepNode] at hp
  obtain ⟨_, s1, hcheck, hp⟩ := bind_eq_ok.mp hp
  rw [locate_bind] at hp
  obtain ⟨rfl, rfl⟩ := pure_eq_ok.mp hp
  exact h.checkTarget hcheck

end Takes

/-! ## Operands

Each operand is taken by its first token. A call and a name are told apart by the token behind the
name. -/

/-- The forms of expressions do not depend on what is behind them. -/
abbrev SoundPhrase (p : Phrase) {α : Type} (check : α → Checker → Checker) (parser : Parser α) :
    Prop := Sound (fun _ => Derives p) check parser

theorem sound_primary {fuel : Nat}
    (hexpression : SoundPhrase .expression Expr.check (expressionWithin fuel))
    (harguments : SoundPhrase .arguments Expr.checkAll (argumentsWithin fuel)) :
    SoundPhrase .primary Expr.check (primaryWithin (fuel + 1)) := by
  intro s s' e c hs h
  unfold primaryWithin at h
  rw [current_bind] at h
  generalize hk : s.current.kind = k at h
  have hadvance (hne : k ≠ .endOfFile) : Takes s [s.current] c c s.advance :=
    Takes.ofAdvance hs (hk ▸ hne)
  split at h
  · rw [advance_bind] at h
    exact ⟨_, .literal (by rw [hk]; rfl), (hadvance (by simp)).numberLiteral hk h⟩
  · rw [advance_bind, locate_bind] at h
    obtain ⟨rfl, rfl⟩ := pure_eq_ok.mp h
    exact ⟨_, .literal (by rw [hk]; rfl), hadvance (by simp)⟩
  · rw [advance_bind, locate_bind] at h
    obtain ⟨rfl, rfl⟩ := pure_eq_ok.mp h
    exact ⟨_, .literal (by rw [hk]; rfl), hadvance (by simp)⟩
  · rw [advance_bind, locate_bind] at h
    obtain ⟨rfl, rfl⟩ := pure_eq_ok.mp h
    exact ⟨_, .literal (by rw [hk]; rfl), hadvance (by simp)⟩
  · rw [advance_bind] at h
    exact ⟨_, .literal (by rw [hk]; rfl), (hadvance (by simp)).charLiteral hk h⟩
  -- a name is a call exactly if a parenthesis follows
  · have ht := hadvance (by simp)
    rw [lookahead_bind] at h
    split at h
    · next hparen =>
      have hl : s.advance.current.kind = .mark .leftParen := by
        rw [hs.advance_eq]
        exact hparen
      have ht' := ht.trans (Takes.ofAdvance (c := c) ht.lexed (by rw [hl]; simp))
      rw [advance_bind, advance_bind] at h
      obtain ⟨args, s1, hargs, h⟩ := bind_eq_ok.mp h
      obtain ⟨r, s2, hr, h⟩ := bind_eq_ok.mp h
      rw [locate_bind] at h
      obtain ⟨rfl, rfl⟩ := pure_eq_ok.mp h
      obtain ⟨w, hw, hw'⟩ := harguments c ht'.lexed hargs
      obtain ⟨hrk, hr'⟩ := Takes.ofExpect (c := Expr.checkAll args c) hw'.lexed hr (by simp)
      exact ⟨_, .call hk hl hw hrk, ht'.trans (hw'.trans hr')⟩
    · rw [advance_bind, get_bind] at h
      obtain ⟨_, s1, huse, h⟩ := bind_eq_ok.mp h
      rw [locate_bind] at h
      obtain ⟨rfl, rfl⟩ := pure_eq_ok.mp h
      have hu := ht.use hk huse
      refine ⟨_, .name hk, ?_⟩
      rwa [Expr.check, State.locate, hu.file, ← ht.file]
  · have ht := hadvance (by simp)
    rw [advance_bind] at h
    obtain ⟨e', s1, he, h⟩ := bind_eq_ok.mp h
    obtain ⟨r, s2, hr, h⟩ := bind_eq_ok.mp h
    obtain ⟨rfl, rfl⟩ := pure_eq_ok.mp h
    obtain ⟨w, hw, hw'⟩ := hexpression c ht.lexed he
    obtain ⟨hrk, hr'⟩ := Takes.ofExpect (c := e.check c) hw'.lexed hr (by simp)
    exact ⟨_, .parens hk hw hrk, ht.trans (hw'.trans hr')⟩
  · exact absurd h failExpecting_ne_ok

theorem sound_unary {fuel : Nat} (hunary : SoundPhrase .unary Expr.check (unaryWithin fuel))
    (hprimary : SoundPhrase .primary Expr.check (primaryWithin fuel)) :
    SoundPhrase .unary Expr.check (unaryWithin (fuel + 1)) := by
  intro s s' e c hs h
  unfold unaryWithin at h
  rw [current_bind] at h
  generalize hop : unaryOp? s.current.kind = unary? at h
  split at h
  · next op =>
    have ht := Takes.ofAdvance (c := c) hs fun hk => by rw [hk] at hop; cases hop
    rw [advance_bind] at h
    obtain ⟨operand, s1, hoperand, h⟩ := bind_eq_ok.mp h
    rw [locate_bind] at h
    obtain ⟨rfl, rfl⟩ := pure_eq_ok.mp h
    obtain ⟨w, hw, hw'⟩ := hunary c ht.lexed hoperand
    exact ⟨_, .unaryOp (isUnarySign_of_unaryOp? hop) hw, ht.trans hw'⟩
  · generalize hk : s.current.kind = k at h
    split at h
    · have ht := Takes.ofAdvance (c := c) hs (by rw [hk]; simp)
      rw [advance_bind] at h
      obtain ⟨operand, s1, hoperand, h⟩ := bind_eq_ok.mp h
      obtain ⟨w, hw, hw'⟩ := hprimary c ht.lexed hoperand
      exact ⟨_, .stepBefore (by rw [hk]; rfl) hw, (ht.trans hw').stepNode h⟩
    · obtain ⟨w, hw, hw'⟩ := hprimary c hs h
      exact ⟨w, .unary hw, hw'⟩

/-! ## Chains of operands

The checker has walked through the operand before the links that a climb reads. -/

/-- A climb takes links, and leads a checker from its operand to the whole tree. -/
def SoundClimb (climb : Nat → Expr → Parser Expr) : Prop :=
  ∀ {least : Nat} {lhs e : Expr} {s s' : State} (c : Checker), s.Lexed →
    climb least lhs s = .ok e s' →
      ∃ w, Derives .links w ∧ Takes s w (lhs.check c) (e.check c) s'

theorem sound_extendOperand {climb : Nat → Expr → Parser Expr} (hclimb : SoundClimb climb)
    {op : BinaryOp} {operand e : Expr} (c : Checker) (hs : s.Lexed)
    (h : extendOperand climb op operand s = .ok e s') :
    ∃ w, Derives .links w ∧ Takes s w (operand.check c) (e.check c) s' := by
  rw [extendOperand, current_bind] at h
  generalize absorbedLevel? op s.current.kind = level? at h
  split at h
  · exact hclimb c hs h
  · obtain ⟨rfl, rfl⟩ := pure_eq_ok.mp h
    exact ⟨[], .noLink, .refl hs⟩

theorem sound_climb {fuel : Nat} (hclimb : SoundClimb (climbWithin fuel))
    (hunary : SoundPhrase .unary Expr.check (unaryWithin fuel)) :
    SoundClimb (climbWithin (fuel + 1)) := by
  intro least lhs e s s' c hs h
  unfold climbWithin at h
  rw [current_bind] at h
  generalize hk : s.current.kind = k at h
  have hnil : (pure lhs : Parser Expr) s = .ok e s' →
      ∃ w, Derives .links w ∧ Takes s w (lhs.check c) (e.check c) s' := by
    intro h
    obtain ⟨rfl, rfl⟩ := pure_eq_ok.mp h
    exact ⟨[], .noLink, .refl hs⟩
  split at h
  · split at h
    · exact hnil h
    · have ht := Takes.ofAdvance (c := lhs.check c) hs (by rw [hk]; simp)
      rw [advance_bind] at h
      obtain ⟨node, s1, hnode, h⟩ := bind_eq_ok.mp h
      have ht := ht.stepNode hnode
      obtain ⟨w, hw, hw'⟩ := hclimb c ht.lexed h
      exact ⟨_, .stepAfter (by rw [hk]; rfl) hw, ht.trans hw'⟩
  · next op =>
    split at h
    · exact hnil h
    · have ht := Takes.ofAdvance (c := lhs.check c) hs (by rw [hk]; simp)
      rw [advance_bind] at h
      obtain ⟨operand, s1, hoperand, h⟩ := bind_eq_ok.mp h
      obtain ⟨rhs, s2, hrhs, h⟩ := bind_eq_ok.mp h
      obtain ⟨_, s3, htarget, h⟩ := bind_eq_ok.mp h
      rw [locate_bind] at h
      obtain ⟨u, hu, hu'⟩ := hunary (lhs.check c) ht.lexed hoperand
      obtain ⟨v, hv, hv'⟩ := sound_extendOperand hclimb (lhs.check c) hu'.lexed hrhs
      -- an assignment checks its target when both operands have been read
      have hnode : Takes s2 [] (rhs.check (lhs.check c))
          ((Expr.binary op lhs rhs (s3.locate s.current)).check c) s3 := by
        rw [Expr.check]
        unfold onlyIf at htarget
        split at htarget
        · next hop =>
          rw [if_pos hop]
          exact (Takes.refl hv'.lexed).checkTarget htarget
        · next hop =>
          obtain ⟨-, rfl⟩ := pure_eq_ok.mp htarget
          rw [if_neg hop]
          exact .refl hv'.lexed
      -- the links behind the right operand and those behind the whole are one chain
      obtain ⟨w, hw, hw'⟩ := hclimb c hnode.lexed h
      exact ⟨_, .operator (by rw [hk]; rfl) hu (hv.links_append hw),
        ht.trans (hu'.trans ((hv'.still hnode).trans hw'))⟩
  · exact hnil h

/-! ## Expressions

A climb takes links as long as they bind tightly enough, and whatever it leaves is taken by a climb
around it. So the tokens of an expression are those of an operand and of links. -/

theorem sound_expression {fuel : Nat} (hclimb : SoundClimb (climbWithin fuel))
    (hunary : SoundPhrase .unary Expr.check (unaryWithin fuel)) :
    SoundPhrase .expression Expr.check (expressionWithin (fuel + 1)) := by
  intro s s' e c hs h
  unfold expressionWithin at h
  obtain ⟨lhs, s1, hlhs, h⟩ := bind_eq_ok.mp h
  obtain ⟨u, hu, hu'⟩ := hunary c hs hlhs
  obtain ⟨w, hw, hw'⟩ := hclimb c hu'.lexed h
  exact ⟨_, .expression hu hw, hu'.trans hw'⟩

theorem sound_arguments {fuel : Nat}
    (hexpressions : SoundPhrase .expressions Expr.checkAll (expressionsWithin fuel)) :
    SoundPhrase .arguments Expr.checkAll (argumentsWithin (fuel + 1)) := by
  intro s s' es c hs h
  unfold argumentsWithin at h
  rw [current_bind] at h
  split at h
  · obtain ⟨rfl, rfl⟩ := pure_eq_ok.mp h
    exact ⟨[], .noArguments, .refl hs⟩
  · obtain ⟨w, hw, hw'⟩ := hexpressions c hs h
    exact ⟨w, .arguments hw, hw'⟩

theorem sound_expressions {fuel : Nat}
    (hexpression : SoundPhrase .expression Expr.check (expressionWithin fuel))
    (hexpressions : SoundPhrase .expressions Expr.checkAll (expressionsWithin fuel)) :
    SoundPhrase .expressions Expr.checkAll (expressionsWithin (fuel + 1)) := by
  intro s s' es c hs h
  unfold expressionsWithin at h
  obtain ⟨e, s1, he, h⟩ := bind_eq_ok.mp h
  obtain ⟨more, s2, hmore, h⟩ := bind_eq_ok.mp h
  obtain ⟨w, hw, hw'⟩ := hexpression c hs he
  rcases Takes.ofAccept (c := e.check c) hw'.lexed hmore (by simp) with
    ⟨rfl, comma, hk, ht⟩ | ⟨rfl, ht⟩
  · obtain ⟨rest, s3, hrest, h⟩ := bind_eq_ok.mp h
    obtain ⟨rfl, rfl⟩ := pure_eq_ok.mp h
    obtain ⟨v, hv, hv'⟩ := hexpressions (e.check c) ht.lexed hrest
    exact ⟨_, .moreExpressions hw hk hv, hw'.trans (ht.trans hv')⟩
  · obtain ⟨rfl, rfl⟩ := pure_eq_ok.mp h
    exact ⟨w, .oneExpression hw, hw'.still ht⟩

/-- The parsers of expressions are sound with any fuel. -/
theorem sound_expressionParsers (fuel : Nat) :
    SoundPhrase .expression Expr.check (expressionWithin fuel) ∧
      SoundClimb (climbWithin fuel) ∧
      SoundPhrase .unary Expr.check (unaryWithin fuel) ∧
      SoundPhrase .primary Expr.check (primaryWithin fuel) ∧
      SoundPhrase .arguments Expr.checkAll (argumentsWithin fuel) ∧
      SoundPhrase .expressions Expr.checkAll (expressionsWithin fuel) := by
  induction fuel with
  | zero =>
      refine ⟨?_, ?_, ?_, ?_, ?_, ?_⟩
      · intro s s' e c _ h; rw [expressionWithin] at h; exact absurd h failExpecting_ne_ok
      · intro least lhs e s s' c _ h; rw [climbWithin] at h; exact absurd h failExpecting_ne_ok
      · intro s s' e c _ h; rw [unaryWithin] at h; exact absurd h failExpecting_ne_ok
      · intro s s' e c _ h; rw [primaryWithin] at h; exact absurd h failExpecting_ne_ok
      · intro s s' es c _ h; rw [argumentsWithin] at h; exact absurd h failExpecting_ne_ok
      · intro s s' es c _ h; rw [expressionsWithin] at h; exact absurd h failExpecting_ne_ok
  | succ fuel ih =>
      obtain ⟨hexpression, hclimb, hunary, hprimary, harguments, hexpressions⟩ := ih
      exact ⟨sound_expression hclimb hunary, sound_climb hclimb hunary,
        sound_unary hunary hprimary, sound_primary hexpression harguments,
        sound_arguments hexpressions, sound_expressions hexpression hexpressions⟩

theorem sound_expressionParser : SoundPhrase .expression Expr.check expression := by
  intro s s' e c hs h
  rw [expression, get_bind] at h
  exact (sound_expressionParsers _).1 c hs h

theorem sound_expressionsParser : SoundPhrase .expressions Expr.checkAll expressions := by
  intro s s' es c hs h
  rw [expressions, get_bind] at h
  exact (sound_expressionParsers _).2.2.2.2.2 c hs h

end FrontEnd.Grammar
