import FrontEnd.Proofs.Parsing.Opened

set_option autoImplicit false

/-! # Fuel is never used up

The recursive parsers take fuel, and start with an amount computed from the number of unread tokens.
More fuel never changes what they do: every recursive call either comes behind a token that was read,
or goes down one of a few levels of the grammar. So each parser does what its recursion says
without a bound, and reading always ends by itself.

For the parsers of expressions the levels are counted: with `n` unread tokens a chain of links needs
`5 * n + 1` units of fuel, an operand two or three more, an expression `5 * n + 4`, and lists of
expressions the rest.

All these lemmas compare one amount of fuel with the next, and any greater amount by induction from
there (`eq_of_fuel_succ`). A call on fewer tokens has five units to spare for each token that was
taken, which is the number of levels that can follow without taking one.
-/

namespace FrontEnd.Grammar

open FrontEnd.Grammar.Parser

variable {α : Type} {s : State} {fuel fuel' : Nat}

/-- What does not change from one amount of fuel to the next is the same for all amounts. -/
theorem eq_of_fuel_succ {f : Nat → α} {least : Nat} (h : ∀ fuel, least ≤ fuel → f (fuel + 1) = f fuel)
    (hfuel : least ≤ fuel) : f fuel = f least := by
  induction hfuel with
  | refl => rfl
  | step hle ih => rw [h _ hle, ih]

/-! ## Expressions

The parsers of expressions call each other without taking a token in between, but only a few times.
Five units of fuel for each token are enough for all of them. -/

/-- One unit of fuel more changes nothing, if there is enough for the unread tokens. Each parser
needs a few units for each token, as the parsers below it are called without one being taken. -/
structure FuelSuffices (fuel : Nat) : Prop where
  expression : ∀ {s : State}, s.HasEnd → 5 * s.unread.length + 4 ≤ fuel →
    expressionWithin (fuel + 1) s = expressionWithin fuel s
  climb : ∀ {s : State} (least : Nat) (lhs : Expr), s.HasEnd → 5 * s.unread.length + 1 ≤ fuel →
    climbWithin (fuel + 1) least lhs s = climbWithin fuel least lhs s
  unary : ∀ {s : State}, s.HasEnd → 5 * s.unread.length + 3 ≤ fuel →
    unaryWithin (fuel + 1) s = unaryWithin fuel s
  primary : ∀ {s : State}, s.HasEnd → 5 * s.unread.length + 2 ≤ fuel →
    primaryWithin (fuel + 1) s = primaryWithin fuel s
  arguments : ∀ {s : State}, s.HasEnd → 5 * s.unread.length + 6 ≤ fuel →
    argumentsWithin (fuel + 1) s = argumentsWithin fuel s
  expressions : ∀ {s : State}, s.HasEnd → 5 * s.unread.length + 5 ≤ fuel →
    expressionsWithin (fuel + 1) s = expressionsWithin fuel s

namespace FuelSuffices

variable (h : FuelSuffices fuel)
include h

theorem expression_succ (hs : s.HasEnd) (hfuel : 5 * s.unread.length + 4 ≤ fuel + 1) :
    expressionWithin (fuel + 2) s = expressionWithin (fuel + 1) s := by
  rw [expressionWithin, expressionWithin]
  refine bind_congr (h.unary hs (by omega)) fun lhs s' hlhs => ?_
  have hm := (Regular.grammar.expressionParsers fuel).unary.ok hlhs
  have hlt := Shrinks.unaryWithin fuel hs hlhs
  exact h.climb 0 lhs (hs.moves hm) (by omega)

/-- The links behind an operator that was read. -/
theorem extendOperand (hs : s.HasEnd) (op : BinaryOp) (operand : Expr)
    (hfuel : 5 * s.unread.length + 1 ≤ fuel) :
    Parser.extendOperand (climbWithin (fuel + 1)) op operand s =
      Parser.extendOperand (climbWithin fuel) op operand s := by
  rw [Parser.extendOperand, Parser.extendOperand, current_bind, current_bind]
  generalize absorbedLevel? op s.current.kind = level?
  cases level? with
  | none => rfl
  | some level => exact h.climb level operand hs hfuel

theorem climb_succ (least : Nat) (lhs : Expr) (hs : s.HasEnd)
    (hfuel : 5 * s.unread.length + 1 ≤ fuel + 1) :
    climbWithin (fuel + 2) least lhs s = climbWithin (fuel + 1) least lhs s := by
  unfold climbWithin
  rw [current_bind, current_bind]
  generalize hk : s.current.kind = k
  -- a link takes its sign first
  have hadvance (hne : k ≠ .endOfFile) :
      s.advance.HasEnd ∧ s.advance.unread.length < s.unread.length :=
    ⟨hs.moves (.of_change (.advance s)), hs.advance_lt (hk ▸ hne)⟩
  split
  · obtain ⟨hs', hlt⟩ := hadvance (by simp)
    split
    · rfl
    · rw [advance_bind, advance_bind]
      refine bind_congr_right fun node s1 hnode => ?_
      have hm := (Regular.grammar.stepNode ..).ok hnode
      have hle := hm.length_le
      exact h.climb least node (hs'.moves hm) (by omega)
  · obtain ⟨hs', hlt⟩ := hadvance (by simp)
    split
    · rfl
    · rw [advance_bind, advance_bind]
      refine bind_congr (h.unary hs' (by omega)) fun operand s1 hoperand => ?_
      have hm1 := (Regular.grammar.expressionParsers fuel).unary.ok hoperand
      have hlt1 := Shrinks.unaryWithin fuel hs' hoperand
      have hs1 := hs'.moves hm1
      refine bind_congr (h.extendOperand hs1 _ operand (by omega)) fun rhs s2 hrhs => ?_
      have hclimb := (Regular.grammar.expressionParsers fuel).climb
      have hm2 := (Regular.grammar.extendOperand hclimb _ operand).ok hrhs
      refine bind_congr_right fun _ s3 htarget => ?_
      have hm3 := hm2.trans ((Regular.onlyIf _ (Regular.checkTarget lhs)).ok htarget)
      have hle := hm3.length_le
      rw [locate_bind, locate_bind]
      exact h.climb least _ (hs1.moves hm3) (by omega)
  · rfl

theorem unary_succ (hs : s.HasEnd) (hfuel : 5 * s.unread.length + 3 ≤ fuel + 1) :
    unaryWithin (fuel + 2) s = unaryWithin (fuel + 1) s := by
  unfold unaryWithin
  rw [current_bind, current_bind]
  have hs' : s.advance.HasEnd := hs.moves (.of_change (.advance s))
  generalize hop : unaryOp? s.current.kind = unary?
  split
  · have hlt := hs.advance_lt fun he => by rw [he] at hop; cases hop
    rw [advance_bind, advance_bind]
    exact bind_congr_left (h.unary hs' (by omega))
  · generalize hk : s.current.kind = k
    split
    · have hlt := hs.advance_lt (by rw [hk]; simp)
      rw [advance_bind, advance_bind]
      exact bind_congr_left (h.primary hs' (by omega))
    · exact h.primary hs (by omega)

theorem primary_succ (hs : s.HasEnd) (hfuel : 5 * s.unread.length + 2 ≤ fuel + 1) :
    primaryWithin (fuel + 2) s = primaryWithin (fuel + 1) s := by
  rw [primaryWithin, primaryWithin, current_bind, current_bind]
  generalize hk : s.current.kind = k
  have hadvance (hne : k ≠ .endOfFile) :
      s.advance.HasEnd ∧ s.advance.unread.length < s.unread.length :=
    ⟨hs.moves (.of_change (.advance s)), hs.advance_lt (hk ▸ hne)⟩
  split
  case h_6 =>
    obtain ⟨hs', hlt⟩ := hadvance (by simp)
    rw [lookahead_bind, lookahead_bind]
    split
    · rw [advance_bind, advance_bind, advance_bind, advance_bind]
      have hm := Moves.of_change (.advance s.advance)
      have hle := hm.length_le
      exact bind_congr_left (h.arguments (hs'.moves hm) (by omega))
    · rfl
  case h_7 =>
    obtain ⟨hs', hlt⟩ := hadvance (by simp)
    rw [advance_bind, advance_bind]
    exact bind_congr_left (h.expression hs' (by omega))
  -- the other operands are single tokens
  all_goals rfl

theorem arguments_succ (hs : s.HasEnd) (hfuel : 5 * s.unread.length + 6 ≤ fuel + 1) :
    argumentsWithin (fuel + 2) s = argumentsWithin (fuel + 1) s := by
  rw [argumentsWithin, argumentsWithin, current_bind, current_bind]
  split
  · rfl
  · exact h.expressions hs (by omega)

theorem expressions_succ (hs : s.HasEnd) (hfuel : 5 * s.unread.length + 5 ≤ fuel + 1) :
    expressionsWithin (fuel + 2) s = expressionsWithin (fuel + 1) s := by
  rw [expressionsWithin, expressionsWithin]
  refine bind_congr (h.expression hs (by omega)) fun e s1 he => ?_
  have hm := (Regular.grammar.expressionParsers fuel).expression.ok he
  have hlt := Shrinks.expressionWithin fuel hs he
  refine bind_congr_right fun b s2 hcomma => ?_
  have hm2 := (Regular.accept _).ok hcomma
  have hle := hm2.length_le
  split
  · exact bind_congr_left (h.expressions ((hs.moves hm).moves hm2) (by omega))
  · rfl

end FuelSuffices

theorem fuelSuffices (fuel : Nat) : FuelSuffices fuel := by
  induction fuel with
  | zero => constructor <;> intros <;> omega
  | succ fuel ih =>
      exact ⟨ih.expression_succ, ih.climb_succ, ih.unary_succ, ih.primary_succ, ih.arguments_succ,
        ih.expressions_succ⟩

theorem expressionFuel_mono {n m : Nat} (h : n ≤ m) : expressionFuel n ≤ expressionFuel m := by
  unfold expressionFuel
  omega

theorem expressionWithin_eq (hs : s.HasEnd) (hfuel : expressionFuel s.unread.length ≤ fuel) :
    expressionWithin fuel s = expression s := by
  refine eq_of_fuel_succ (f := fun fuel => expressionWithin fuel s) (fun fuel hle => ?_) hfuel
  unfold expressionFuel at hle
  exact (fuelSuffices fuel).expression hs (by omega)

theorem expressionsWithin_eq (hs : s.HasEnd) (hfuel : expressionFuel s.unread.length ≤ fuel) :
    expressionsWithin fuel s = expressions s := by
  refine eq_of_fuel_succ (f := fun fuel => expressionsWithin fuel s) (fun fuel hle => ?_) hfuel
  unfold expressionFuel at hle
  exact (fuelSuffices fuel).expressions hs (by omega)

/-! ## Lists of types and of arguments

Each round of these loops takes a token, so their fuel is the number of tokens. -/

/-- Every further type takes a token. -/
theorem furtherTypes_succ (hs : s.HasEnd) (hfuel : s.unread.length ≤ fuel) :
    furtherTypes (fuel + 1) s = furtherTypes fuel s := by
  induction fuel generalizing s with
  | zero =>
      have hk : s.current.kind ≠ .mark .comma := by
        intro hk
        have hpos := hs.length_pos (by rw [hk]; simp)
        omega
      have hnone : accept (.mark .comma) s = .ok false s := by rw [accept_eq, if_neg hk]
      rw [furtherTypes, furtherTypes, bind_of_ok hnone]
      rfl
  | succ fuel ih =>
      rw [furtherTypes, furtherTypes]
      refine bind_congr_right fun b s1 hcomma => ?_
      cases b with
      | false => rfl
      | true =>
          have hm := (Regular.accept _).ok hcomma
          refine bind_congr_right fun type s2 htype => ?_
          have hm2 := (Regular.grammar.typeExpr _).ok htype
          -- the comma and the type behind it are two tokens, of which one is enough
          have hlt := Shrinks.typeExpr _ (hs.moves hm) htype
          have hle := hm.length_le
          exact bind_congr_left (ih ((hs.moves hm).moves hm2) (by omega))

theorem furtherTypes_eq (hs : s.HasEnd) (hfuel : s.unread.length ≤ fuel) :
    furtherTypes fuel s = furtherTypes s.unread.length s :=
  eq_of_fuel_succ (f := fun fuel => furtherTypes fuel s) (fun _ => furtherTypes_succ hs) hfuel

theorem Shrinks.param (before : List Param) : Shrinks (Parser.param before) := by
  refine bind_left (expect (by simp) _) ?_
  intro name
  refine .bind (.onlyIf _ (.complain rfl name)) ?_
  intro _
  refine .bind (.expect ..) ?_
  intro _
  refine .bind (Regular.grammar.typeExpr _) ?_
  intro _
  refine .bind (.onlyIf _ (.complain rfl name)) ?_
  intro _
  refine .bind (.locate name) ?_
  intro _
  exact .pure _

/-- Every argument takes a token. -/
theorem paramsFrom_succ (hs : s.HasEnd) (before : List Param) (hfuel : s.unread.length < fuel) :
    paramsFrom (fuel + 1) before s = paramsFrom fuel before s := by
  induction fuel generalizing s before with
  | zero => omega
  | succ fuel ih =>
      rw [paramsFrom, paramsFrom]
      refine bind_congr_right fun p s1 hp => ?_
      have hm := (Regular.grammar.param before).ok hp
      have hlt := Shrinks.param before hs hp
      refine bind_congr_right fun b s2 hcomma => ?_
      have hm2 := (Regular.accept _).ok hcomma
      have hle := hm2.length_le
      split
      · exact ih ((hs.moves hm).moves hm2) _ (by omega)
      · rfl

theorem paramsFrom_eq (hs : s.HasEnd) (before : List Param) (hfuel : s.unread.length < fuel) :
    paramsFrom fuel before s = paramsFrom (s.unread.length + 1) before s :=
  eq_of_fuel_succ (f := fun fuel => paramsFrom fuel before s)
    (fun _ => paramsFrom_succ hs before) hfuel

/-! ## Statements

The statements of an inner block come behind its brace, so they are fewer. -/

/-- Two parsers of inner blocks agree on all states with fewer than `bound` unread tokens. A
statement calls the parser of its blocks only behind a token of its own. -/
def AgreeBelow (bound : Nat) (inner inner' : Parser (List Statement)) : Prop :=
  ∀ ⦃s : State⦄, s.HasEnd → s.unread.length < bound → inner' s = inner s

variable {inner inner' : Parser (List Statement)} {bound : Nat}

theorem statement_congr (h : AgreeBelow bound inner inner') (hs : s.HasEnd)
    (hbound : s.unread.length ≤ bound) : statement inner' s = statement inner s :=
  statement_opened fun _ ht => h (hs.moves (State.moves_openedInBlock ht))
    (Nat.lt_of_lt_of_le (hs.openedInBlock_lt ht) hbound)

/-- Every statement takes a token, and so does recovery from one that fails. -/
theorem statementsWithin_succ (hs : s.HasEnd) (hfuel : s.unread.length < fuel) :
    statementsWithin (fuel + 1) s = statementsWithin fuel s := by
  induction fuel generalizing s with
  | zero => omega
  | succ fuel ih =>
      by_cases he : s.endsBlock
      · rw [statementsWithin_end he, statementsWithin_end he]
      · have hm : Moves s s.exitPanic := .of_change (.exitPanic s)
        have hregular := Regular.statement (Regular.statementsWithin fuel)
        have hbelow : AgreeBelow s.unread.length (statementsWithin fuel)
            (statementsWithin (fuel + 1)) := fun t ht hlt => ih ht (by omega)
        -- the statements within this one come behind its first token, where the induction
        -- hypothesis holds
        have hagree : statement (statementsWithin (fuel + 1)) s.exitPanic =
            statement (statementsWithin fuel) s.exitPanic :=
          statement_congr hbelow (hs.moves hm) (Nat.le_refl _)
        cases hstatement : statement (statementsWithin fuel) s.exitPanic with
        | ok node next =>
            have hnext := hs.moves (hm.trans (hregular.ok hstatement))
            have hlt := Shrinks.statement (Regular.statementsWithin fuel) (hs.moves hm) hstatement
            have hmore := ih hnext (Nat.lt_of_lt_of_le hlt (by change s.unread.length ≤ fuel; omega))
            rw [hstatement] at hagree
            cases hrest : statementsWithin fuel next with
            | ok nodes last =>
                rw [statementsWithin_ok he hstatement hrest,
                  statementsWithin_ok he hagree (hmore.trans hrest)]
            | error f last => exact absurd hrest (statementsWithin_ne_error _ _ _ _)
        | error failure next =>
            obtain ⟨hm', hard⟩ := hregular.error hstatement
            have hnext := hs.moves ((hm.trans hm').trans (Regular.recover hard next s.unread.length))
            -- recovery takes a token even if the failed statement has taken none
            have hpos := hs.length_pos fun hk => he (.inr hk)
            have hlt := State.recover_lt hpos (hm.trans hm').length_le failure
            rw [hstatement] at hagree
            rw [statementsWithin_error he hagree, statementsWithin_error he hstatement]
            exact ih hnext (by omega)

theorem statementsWithin_eq (hs : s.HasEnd) (hfuel : s.unread.length < fuel) :
    statementsWithin fuel s = statements s :=
  eq_of_fuel_succ (f := fun fuel => statementsWithin fuel s)
    (fun _ => statementsWithin_succ hs) hfuel

/-! ## Files

A round takes a token, or there is none left. As many rounds as there are tokens are therefore
enough. -/

/-- Every declaration takes a token, and so does recovery from one that fails. -/
theorem declarations_succ (hs : s.HasEnd) (hfuel : s.unread.length ≤ fuel) :
    declarations (fuel + 1) s = declarations fuel s := by
  induction fuel generalizing s with
  | zero =>
      have hk : s.current.kind = .endOfFile := by
        by_cases hk : s.current.kind = .endOfFile
        · exact hk
        · have hpos := hs.length_pos hk
          omega
      rw [declarations, declarations, if_pos hk]
  | succ fuel ih =>
      rw [declarations, declarations]
      split
      · rfl
      · next hk =>
        have hm : Moves s s.exitPanic := .of_change (.exitPanic s)
        cases hdeclaration : Parser.declaration s.exitPanic with
        | ok node next =>
            have hlt := Shrinks.declaration (hs.moves hm) hdeclaration
            have hle : next.unread.length ≤ fuel :=
              Nat.le_of_lt_succ (Nat.lt_of_lt_of_le hlt hfuel)
            dsimp only
            rw [ih (hs.moves (hm.trans (Regular.declaration.ok hdeclaration))) hle]
        | error failure next =>
            obtain ⟨hm', hard⟩ := Regular.declaration.error hdeclaration
            have hlt := State.recover_lt (hs.length_pos hk) (hm.trans hm').length_le failure
            exact ih (hs.moves ((hm.trans hm').trans (Regular.recover hard next _))) (by omega)

theorem declarations_eq_run (hs : s.HasEnd) (hfuel : s.unread.length ≤ fuel) :
    declarations fuel s = s.run :=
  eq_of_fuel_succ (f := fun fuel => declarations fuel s) (fun _ => declarations_succ hs) hfuel

end FrontEnd.Grammar
