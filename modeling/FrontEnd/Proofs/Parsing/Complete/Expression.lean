import FrontEnd.Proofs.Parsing.Yields

set_option autoImplicit false

/-! # Expressions that can be read are read

Every phrase that `Reads` allows is what the parser of that phrase yields, if there is enough
fuel: five for every unread token, and a few more for the levels of the grammar above an operand.
The proof is by induction on the fuel, with all parsers at once.

A climb takes only the links that bind tightly enough. `CompleteClimb` says which of the links of a
chain these are, and that the tree is the one that `Grouping.extendAll` builds.

Where the parser could go on it does, so a phrase is yielded only if it is the longest one at its
place. `Reads` has this built in by what it asks of the token behind: none that could go on with the
phrase.
-/

namespace FrontEnd.Grammar

open FrontEnd.Grammar.Parser

variable {s : State} {file : String} {finish t : Token} {input mid rest : List Token}

/-! ## Single tokens

These never fail. They may find an issue of meaning, which `Yields` does not mind. -/

theorem yields_numberLiteral (hs : s.At file finish input) (t : Token) :
    Yields (numberLiteral t) s (numberTree file t) input := by
  unfold numberLiteral numberTree
  refine .locate hs ?_
  cases t.numeral? with
  | none => exact .bind hs (.complain hs rfl t) fun hs => .pure hs _
  | some n =>
      cases n with
      | int value => exact .pure hs _
      | float value => exact .pure hs _

theorem yields_charLiteral (hs : s.At file finish input) (t : Token) :
    Yields (charLiteral t) s (charTree file t) input := by
  unfold charLiteral charTree
  refine .locate hs ?_
  cases unescape? (withoutDelimiters t.lexeme) with
  | none => exact .bind hs (.complain hs rfl t) fun hs => .pure hs _
  | some c => exact .pure hs _

theorem yields_checkTarget (hs : s.At file finish input) (target : Expr) :
    Yields (checkTarget target) s () input := by
  refine .update ?_
  have hrefl : Goes s input s := hs.unread_eq ▸ .refl s
  have hreport {f : Finding} (soft : f.issue.isSemantic) : Goes s input (s.report f) :=
    hs.unread_eq ▸ .report s soft
  split
  · split
    · exact hrefl
    · split
      · exact hreport rfl
      · exact ⟨hs.unread_eq, rfl, rfl, rfl, rfl⟩
  · exact hreport rfl

theorem yields_stepNode (hs : s.At file finish input) (t : Token) (step : Step)
    (overflow : Overflow) (fixity : Fixity) (operand : Expr) :
    Yields (stepNode t step overflow fixity operand) s
      (.step step overflow fixity operand ⟨file, t.position⟩) input :=
  .bind hs (yields_checkTarget hs operand) fun hs => .locate hs (.pure hs _)

/-! ## Operands

An operand that is derived starts with a token that decides which parser reads it. The fuel is
counted in the tokens of the operand. -/

/-- With its fuel the parser reads every phrase that leaves it `extra` steps above five for each
token. -/
def Complete (p : Phrase) (fuel extra : Nat) (parser : Parser p.Value) : Prop :=
  ∀ {file : String} {finish : Token} {input rest : List Token} {v : p.Value} {s : State},
    Reads file finish.kind p input v rest → s.At file finish input →
    nextKind finish.kind rest ≠ .invalid → 5 * input.length + extra ≤ fuel → Yields parser s v rest

theorem complete_primary {fuel : Nat}
    (hexpression : Complete .expression fuel 2 (expressionWithin fuel))
    (harguments : Complete .arguments fuel 4 (argumentsWithin fuel)) :
    Complete .primary (fuel + 1) 0 (primaryWithin (fuel + 1)) := by
  intro file finish input rest e s h hs hnext hfuel
  unfold primaryWithin
  refine .current ?_
  cases h with
  | number ht =>
      rw [hs.current_eq, ht]
      exact .bind hs (.advance hs hnext) fun hs => yields_numberLiteral hs _
  | @bool t _ value ht =>
      rw [hs.current_eq, ht]
      cases value with
      | true => exact .bind hs (.advance hs hnext) fun hs => .locate hs (.pure hs _)
      | false => exact .bind hs (.advance hs hnext) fun hs => .locate hs (.pure hs _)
  | string ht =>
      rw [hs.current_eq, ht]
      exact .bind hs (.advance hs hnext) fun hs => .locate hs (.pure hs _)
  | char ht =>
      rw [hs.current_eq, ht]
      exact .bind hs (.advance hs hnext) fun hs => yields_charLiteral hs _
  | @name t _ ht hparen =>
      rw [hs.current_eq, ht]
      refine .lookahead ?_
      rw [if_neg (by rwa [hs.lookahead_kind])]
      refine .bind hs (.advance hs hnext) fun hs => .get ?_
      exact .bind hs (.onlyIf hs (.complain hs rfl t)) fun hs => .locate hs (.pure hs _)
  | @call t l r more _ args ht hl hr hargs =>
      -- the arguments end at the closing parenthesis, where the list of them may stop
      have hmore := hargs.next_ne_invalid (by rw [nextKind_cons, hr]; simp)
      rw [hs.current_eq, ht]
      refine .lookahead ?_
      rw [if_pos (by rw [hs.lookahead_kind, nextKind_cons, hl])]
      refine .bind hs (.advance hs (by rw [nextKind_cons, hl]; simp)) fun hs => ?_
      refine .bind hs (.advance hs hmore) fun hs => ?_
      simp only [List.length_cons] at hfuel
      refine .bind hs (harguments hargs hs (by rw [nextKind_cons, hr]; simp) (by omega))
        fun hs => ?_
      exact .bind hs (.expect hs hr _ hnext) fun hs => .locate hs (.pure hs _)
  | @parens l r more _ e hl hr he =>
      have hmore := he.next_ne_invalid (by rw [nextKind_cons, hr]; simp)
      rw [hs.current_eq, hl]
      simp only [List.length_cons] at hfuel
      refine .bind hs (.advance hs hmore) fun hs => ?_
      refine .bind hs (hexpression he hs (by rw [nextKind_cons, hr]; simp) (by omega))
        fun hs => ?_
      exact .bind hs (.expect hs hr _ hnext) fun hs => .pure hs _

theorem unaryOp?_of_startsPrimary {kind : Kind} (h : startsPrimary kind) :
    unaryOp? kind = none ∧ kind.isStep = false := by
  unfold startsPrimary at h
  split at h
  · exact ⟨rfl, rfl⟩
  · exact ⟨rfl, rfl⟩
  · unfold isLiteral at h
    split at h
    all_goals first | exact ⟨rfl, rfl⟩ | cases h

theorem complete_unary {fuel : Nat} (hunary : Complete .unary fuel 1 (unaryWithin fuel))
    (hprimary : Complete .primary fuel 0 (primaryWithin fuel)) :
    Complete .unary (fuel + 1) 1 (unaryWithin (fuel + 1)) := by
  intro file finish input rest e s h hs hnext hfuel
  unfold unaryWithin
  refine .current ?_
  cases h with
  | @unaryOp t more _ op e ht he =>
      rw [hs.current_eq, unaryOp?_eq_some_iff.mpr ht]
      simp only [List.length_cons] at hfuel
      refine .bind hs (.advance hs (he.next_ne_invalid hnext)) fun hs => ?_
      exact .bind hs (hunary he hs hnext (by omega)) fun hs => .locate hs (.pure hs _)
  | @stepBefore t more _ step overflow e ht he =>
      rw [hs.current_eq, ht]
      simp only [List.length_cons] at hfuel
      refine .bind hs (.advance hs (he.next_ne_invalid hnext)) fun hs => ?_
      exact .bind hs (hprimary he hs hnext (by omega)) fun hs => yields_stepNode hs t ..
  | unary he =>
      -- an operand without a sign starts with a token that is neither a sign nor a step
      obtain ⟨hop, hstep⟩ := unaryOp?_of_startsPrimary he.startsWith
      rw [← hs.current_kind] at hop hstep
      rw [hop]
      have hread := hprimary he hs hnext (by omega)
      dsimp only
      split
      · next hk => rw [hk] at hstep; cases hstep
      · exact hread

/-! ## Chains of operands

A climb that is called for the right operand of an operator stops at the first link that binds less
tightly, and the climb that has called it goes on from there. So a chain is split where the inner
climb stops, and what is left of it is again a chain that reads from that place (`Split`). -/

/-- The level of the token in front of a chain is that of its first link. -/
theorem Reads.links_level {behind : Kind} {xs : List Link}
    (h : Reads file behind .links input xs rest) (hrest : (nextKind behind rest).level? = none) :
    (nextKind behind input).level? = xs.head?.map Link.level := by
  cases h with
  | noLink => exact hrest
  | stepAfter ht | operator ht => rw [nextKind_cons, ht]; rfl

/-- The links `xs`, read from `input`, are split into those that a climb from the level `least`
takes and those that it leaves to be read from `mid`. -/
structure Split (file : String) (finish : Token) (least : Nat) (input : List Token)
    (xs ys zs : List Link) (mid rest : List Token) : Prop where
  append : xs = ys ++ zs
  taken : ∀ y ∈ ys, least ≤ y.level
  left : ∀ z ∈ zs.head?, z.level < least
  reads : Reads file finish.kind .links mid zs rest
  shorter : mid.length ≤ input.length

/-- With its fuel the climb takes the links at the front of a chain that bind tightly enough. -/
def CompleteClimb (fuel : Nat) (climb : Nat → Expr → Parser Expr) : Prop :=
  ∀ {file : String} {finish : Token} {input rest : List Token} {xs : List Link} {s : State}
    (least : Nat) (lhs : Expr), Reads file finish.kind .links input xs rest →
    (nextKind finish.kind rest).level? = none → s.At file finish input →
    nextKind finish.kind rest ≠ .invalid → 5 * input.length + 1 ≤ fuel →
      ∃ ys zs mid, Split file finish least input xs ys zs mid rest ∧
        Yields (climb least lhs) s ((Grouping.operand lhs).extendAll ys).tree mid

theorem complete_extendOperand {fuel : Nat} {climb : Nat → Expr → Parser Expr}
    (hclimb : CompleteClimb fuel climb) (op : BinaryOp) (e : Expr) {xs : List Link}
    (h : Reads file finish.kind .links input xs rest)
    (hlevel : (nextKind finish.kind rest).level? = none) (hs : s.At file finish input)
    (hnext : nextKind finish.kind rest ≠ .invalid) (hfuel : 5 * input.length + 1 ≤ fuel) :
    ∃ ys zs mid, Split file finish op.rightLevel input xs ys zs mid rest ∧
      Yields (extendOperand climb op e) s ((Grouping.operand e).extendAll ys).tree mid := by
  have hhead := h.links_level hlevel
  have hstart : (nextKind finish.kind input) = s.current.kind := hs.current_kind.symm
  rw [hstart] at hhead
  cases habsorbed : absorbedLevel? op s.current.kind with
  | some level =>
      -- a token is absorbed at the level from which right operands take links
      have hlevel' : level = op.rightLevel := by
        unfold absorbedLevel? at habsorbed
        split at habsorbed
        · split at habsorbed
          · cases habsorbed; rfl
          · cases habsorbed
        · cases habsorbed
      obtain ⟨ys, zs, mid, hsplit, hread⟩ := hclimb level e h hlevel hs hnext hfuel
      refine ⟨ys, zs, mid, hlevel' ▸ hsplit, .current ?_⟩
      rw [habsorbed]
      exact hread
  | none =>
      -- nothing is absorbed, so the first link is too loose
      refine ⟨[], xs, input, ⟨rfl, by simp, fun z hz => ?_, h, Nat.le_refl _⟩, .current ?_⟩
      · unfold absorbedLevel? at habsorbed
        rw [hhead, hz, Option.map_some] at habsorbed
        dsimp only at habsorbed
        split at habsorbed
        · cases habsorbed
        · omega
      · rw [habsorbed]
        exact .pure hs e

theorem complete_climb {fuel : Nat} (hclimb : CompleteClimb fuel (climbWithin fuel))
    (hunary : Complete .unary fuel 1 (unaryWithin fuel)) :
    CompleteClimb (fuel + 1) (climbWithin (fuel + 1)) := by
  intro file finish input rest xs s least lhs h hlevel hs hnext hfuel
  -- a climb that stops at once leaves all links
  have hstop (hleft : ∀ x ∈ xs.head?, x.level < least)
      (hread : Yields (climbWithin (fuel + 1) least lhs) s lhs input) :
      ∃ ys zs mid, Split file finish least input xs ys zs mid rest ∧
        Yields (climbWithin (fuel + 1) least lhs) s ((Grouping.operand lhs).extendAll ys).tree mid :=
    ⟨[], xs, input, ⟨rfl, by simp, hleft, h, Nat.le_refl _⟩, hread⟩
  unfold climbWithin at hstop ⊢
  -- the cases are those of the chain: it is over, or goes on with a step or with an operator
  cases h with
  | noLink =>
      refine hstop (by simp) (.current ?_)
      rw [hs.current_kind]
      split
      · next hk => rw [hk] at hlevel; cases hlevel
      · next hk => rw [hk] at hlevel; cases hlevel
      · exact .pure hs lhs
  | @stepAfter t more _ step overflow xs ht hxs =>
      by_cases hleast : Step.level < least
      · refine hstop (fun x hx => ?_) (.current ?_)
        · cases hx
          exact hleast
        · rw [hs.current_eq, ht]
          dsimp only
          rw [if_pos hleast]
          exact .pure hs lhs
      · simp only [List.length_cons] at hfuel
        obtain ⟨s1, h1, hg1⟩ := Yields.advance hs (hxs.next_ne_invalid hnext)
        have hs1 := hs.goes hg1
        obtain ⟨s2, h2, hg2⟩ := yields_stepNode hs1 t step overflow .after lhs
        have hs2 := hs1.goes hg2
        obtain ⟨ys, zs, mid, hsplit, hread⟩ := hclimb least _ hxs hlevel hs2 hnext (by omega)
        refine ⟨.step step overflow ⟨file, t.position⟩ :: ys, zs, mid,
          ⟨congrArg _ hsplit.append, ?_, hsplit.left, hsplit.reads,
            Nat.le_succ_of_le hsplit.shorter⟩, .current ?_⟩
        · intro y hy
          rcases List.mem_cons.mp hy with rfl | hy
          · exact Nat.le_of_not_lt hleast
          · exact hsplit.taken y hy
        · rw [hs.current_eq, ht]
          dsimp only
          rw [if_neg hleast]
          exact .after h1 hg1 (.after h2 hg2 hread)
  | @operator t more next _ op e xs ht he hxs =>
      by_cases hleast : op.level < least
      · refine hstop (fun x hx => ?_) (.current ?_)
        · cases hx
          exact hleast
        · rw [hs.current_eq, ht]
          dsimp only
          rw [if_pos hleast]
          exact .pure hs lhs
      · have hmid := hxs.next_ne_invalid hnext
        have hlength := he.length_le
        simp only [List.length_cons] at hfuel
        obtain ⟨s1, h1, hg1⟩ := Yields.advance hs (he.next_ne_invalid hmid)
        have hs1 := hs.goes hg1
        obtain ⟨s2, h2, hg2⟩ := hunary he hs1 hmid (by omega)
        have hs2 := hs1.goes hg2
        -- the right operand takes the links `ys`, and the climb goes on with `ys'`
        obtain ⟨ys, zs, mid, hsplit, s3, h3, hg3⟩ :=
          complete_extendOperand hclimb op e hxs hlevel hs2 hnext (by omega)
        have hs3 := hs2.goes hg3
        have hshorter := hsplit.shorter
        obtain ⟨s4, h4, hg4⟩ :
            Yields (Parser.onlyIf op.isAssignment (Parser.checkTarget lhs)) s3 () mid :=
          .onlyIf hs3 (yields_checkTarget hs3 lhs)
        have hs4 := hs3.goes hg4
        obtain ⟨ys', zs', mid', hsplit', hread⟩ := hclimb least
          (.binary op lhs ((Grouping.operand e).extendAll ys).tree ⟨file, t.position⟩)
          hsplit.reads hlevel hs4 hnext (by omega)
        have hshorter' := hsplit'.shorter
        refine ⟨.operator op ⟨file, t.position⟩ e :: (ys ++ ys'), zs', mid',
          ⟨?_, ?_, hsplit'.left, hsplit'.reads, ?_⟩, .current ?_⟩
        · rw [hsplit.append, hsplit'.append, List.cons_append, List.append_assoc]
        · intro y hy
          rcases List.mem_cons.mp hy with rfl | hy
          · exact Nat.le_of_not_lt hleast
          · rcases List.mem_append.mp hy with hy | hy
            · have hlower := op.level_le_rightLevel
              have := hsplit.taken y hy
              omega
            · exact hsplit'.taken y hy
        · rw [List.length_cons]
          omega
        · rw [hs.current_eq, ht]
          dsimp only
          rw [if_neg hleast, Grouping.tree_climb hsplit.taken]
          · exact .after h1 hg1 (.after h2 hg2 (.after h3 hg3 (.after h4 hg4
              (.locate hs4 hread))))
          · intro y hy
            refine hsplit.left y ?_
            rw [hsplit'.append, List.head?_append, Option.mem_def.mp hy]
            rfl

/-! ## Expressions

The longest reading of a chain is read by climbing. The climb stops at a link that binds less
tightly, and the climb around it takes this link. -/

theorem complete_expression {fuel : Nat} (hclimb : CompleteClimb fuel (climbWithin fuel))
    (hunary : Complete .unary fuel 1 (unaryWithin fuel)) :
    Complete .expression (fuel + 1) 2 (expressionWithin (fuel + 1)) := by
  intro file finish input rest e s h hs hnext hfuel
  unfold expressionWithin
  cases h with
  | @expression _ mid _ e xs he hxs hlevel =>
      have hmid := hxs.next_ne_invalid hnext
      have hlength := he.unary_length_lt (.inr rfl)
      obtain ⟨s1, h1, hg1⟩ := hunary he hs hmid (by omega)
      have hs1 := hs.goes hg1
      obtain ⟨ys, zs, mid', hsplit, hread⟩ := hclimb 0 e hxs hlevel hs1 hnext (by omega)
      -- no link is looser than level zero, so none is left
      have hzs : zs = [] := by
        cases zs with
        | nil => rfl
        | cons z zs => exact absurd (hsplit.left z rfl) (Nat.not_lt_zero _)
      obtain ⟨happend, -, -, hreads, -⟩ := hsplit
      subst hzs
      rw [List.append_nil] at happend
      subst happend
      cases hreads
      exact .after h1 hg1 hread

theorem complete_arguments {fuel : Nat}
    (hexpressions : Complete .expressions fuel 3 (expressionsWithin fuel)) :
    Complete .arguments (fuel + 1) 4 (argumentsWithin (fuel + 1)) := by
  intro file finish input rest es s h hs hnext hfuel
  unfold argumentsWithin
  refine .current ?_
  cases h with
  | noArguments hparen =>
      rw [if_pos (hs.current_kind.trans hparen)]
      exact .pure hs []
  | arguments hes =>
      have hstart := hes.startsWith
      rw [← hs.current_kind] at hstart
      rw [if_neg fun hk => by rw [hk] at hstart; cases hstart]
      exact hexpressions hes hs hnext (by omega)

theorem complete_expressions {fuel : Nat}
    (hexpression : Complete .expression fuel 2 (expressionWithin fuel))
    (hexpressions : Complete .expressions fuel 3 (expressionsWithin fuel)) :
    Complete .expressions (fuel + 1) 3 (expressionsWithin (fuel + 1)) := by
  intro file finish input rest es s h hs hnext hfuel
  unfold expressionsWithin
  cases h with
  | lastExpression he hcomma =>
      refine .bind hs (hexpression he hs hnext (by omega)) fun hs => ?_
      exact .bind hs (.decline hs hcomma) fun hs => .pure hs _
  | @moreExpressions t _ mid _ e es he ht hes =>
      have hlength := he.length_le
      simp only [List.length_cons] at hlength
      refine .bind hs (hexpression he hs (by rw [nextKind_cons, ht]; simp) (by omega))
        fun hs => ?_
      refine .bind hs (.accept hs ht (hes.next_ne_invalid hnext)) fun hs => ?_
      exact .bind hs (hexpressions hes hs hnext (by omega)) fun hs => .pure hs _

/-- The parsers of expressions read all phrases, with any fuel that is enough. -/
theorem complete_expressionParsers (fuel : Nat) :
    Complete .expression fuel 2 (expressionWithin fuel) ∧
      CompleteClimb fuel (climbWithin fuel) ∧
      Complete .unary fuel 1 (unaryWithin fuel) ∧
      Complete .primary fuel 0 (primaryWithin fuel) ∧
      Complete .arguments fuel 4 (argumentsWithin fuel) ∧
      Complete .expressions fuel 3 (expressionsWithin fuel) := by
  induction fuel with
  | zero =>
      -- the fuel is too small for any phrase
      refine ⟨?_, ?_, ?_, ?_, ?_, ?_⟩
      · intro file finish input rest e s _ _ _ hfuel; omega
      · intro file finish input rest xs s least lhs _ _ _ _ hfuel; omega
      · intro file finish input rest e s _ _ _ hfuel; omega
      · intro file finish input rest e s h _ _ hfuel
        have := h.unary_length_lt (.inl rfl)
        omega
      · intro file finish input rest es s _ _ _ hfuel; omega
      · intro file finish input rest es s _ _ _ hfuel; omega
  | succ fuel ih =>
      obtain ⟨hexpression, hclimb, hunary, hprimary, harguments, hexpressions⟩ := ih
      exact ⟨complete_expression hclimb hunary, complete_climb hclimb hunary,
        complete_unary hunary hprimary, complete_primary hexpression harguments,
        complete_arguments hexpressions, complete_expressions hexpression hexpressions⟩

theorem yields_expression {e : Expr} (h : Reads file finish.kind .expression input e rest)
    (hs : s.At file finish input) (hnext : nextKind finish.kind rest ≠ .invalid) :
    Yields Parser.expression s e rest := by
  refine .get ((complete_expressionParsers _).1 h hs hnext ?_)
  rw [hs.unread_eq, expressionFuel]
  omega

theorem yields_expressions {es : List Expr}
    (h : Reads file finish.kind .expressions input es rest) (hs : s.At file finish input)
    (hnext : nextKind finish.kind rest ≠ .invalid) : Yields Parser.expressions s es rest := by
  refine .get ((complete_expressionParsers _).2.2.2.2.2 h hs hnext ?_)
  rw [hs.unread_eq, expressionFuel]
  omega

end FrontEnd.Grammar
