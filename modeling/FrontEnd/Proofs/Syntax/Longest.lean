import FrontEnd.Proofs.Syntax.Reads

set_option autoImplicit false

/-! # The longest expression

The grammar leaves open where an expression ends, and `Reads` does not: a derived expression reads as
a whole only if the tokens behind it cannot belong to it. `Phrase.EndsBefore` says this of the
token behind a phrase, and `Closed` of a name at its end, which a parenthesis would turn into a
call.

Where the tokens behind do belong to the expression, the boundary moves: `Derives.links_append` and
`Derives.call_append` take them in.

The tree of a phrase does not depend on what stands behind it, as long as that does not continue it.
So the tree is found first, by induction on the derivation, and the tokens behind come in afterwards
(`Derives.exists_value`).
-/

namespace FrontEnd.Grammar

variable {file : String} {behind : Kind} {p : Phrase} {u v w args rest : List Token} {t l r : Token}

/-- A phrase is not continued by a token of the kind. What stands behind an operand or behind links
is a matter of the expression that they are parts of. -/
def Phrase.EndsBefore : Phrase → Kind → Prop
  | .primary, _ | .unary, _ | .links, _ => True
  | .expression, kind => kind.level? = none
  | .expressions, kind => kind.level? = none ∧ kind ≠ .mark .comma
  | .arguments, kind => kind = .mark .rightParen

/-- If `w` ends with a name then no parenthesis follows that would make it a call. -/
def Closed (behind : Kind) (w rest : List Token) : Prop :=
  ∀ t, w.getLast? = some t → t.kind = .identifier → nextKind behind rest ≠ .mark .leftParen

theorem Closed.of_next (h : nextKind behind rest ≠ .mark .leftParen) : Closed behind w rest :=
  fun _ _ _ => h

/-- Only the end of a phrase matters. -/
theorem Closed.of_append (h : Closed behind (u ++ w) rest) : Closed behind w rest := by
  intro t ht
  refine h t ?_
  rw [List.getLast?_append, ht, Option.some_or]

theorem Closed.of_cons (h : Closed behind (t :: w) rest) : Closed behind w rest :=
  Closed.of_append (u := [t]) h

/-! ## Links

Links are read one by one, and steps and operators are told apart by their first token. So links
that are read behind each other are read together. -/

theorem exists_operator {kind : Kind} (h : kind.binaryOp?.isSome) : ∃ op, kind = .operator op := by
  cases kind with
  | operator op => exact ⟨op, rfl⟩
  | _ => cases h

theorem exists_step {kind : Kind} (h : kind.isStep) :
    ∃ step overflow, kind = .step step overflow := by
  cases kind with
  | step step overflow => exact ⟨step, overflow, rfl⟩
  | _ => cases h

/-- Links start with a token that has a level. -/
theorem Derives.links_cases (behind : Kind) (h : Derives .links w) :
    w = [] ∨ ((nextKind behind w).level?).isSome := by
  cases h with
  | noLink => exact .inl rfl
  | stepAfter ht =>
      obtain ⟨step, overflow, ht⟩ := exists_step ht
      exact .inr (by rw [nextKind_cons, ht]; rfl)
  | operator ht =>
      obtain ⟨op, ht⟩ := exists_operator ht
      exact .inr (by rw [nextKind_cons, ht]; rfl)

theorem ne_leftParen_of_level? {kind : Kind} (h : kind.level?.isSome) :
    kind ≠ .mark .leftParen := by
  rintro rfl
  cases h

/-- An operand in front of links is closed if the whole is. -/
theorem Closed.before_links (hw : Derives .links w) (h : Closed behind (u ++ w) rest) :
    Closed behind u (w ++ rest) := by
  rcases hw.links_cases (nextKind behind rest) with rfl | hlevel
  · rwa [List.append_nil] at h
  · refine .of_next ?_
    rw [nextKind_append]
    exact ne_leftParen_of_level? hlevel

/-! ## Derived phrases read as a whole -/

/-- A literal has a tree. -/
theorem reads_literal (ht : isLiteral t.kind) :
    ∃ e, ∀ behind rest, Reads file behind .primary (t :: rest) e rest := by
  unfold isLiteral at ht
  split at ht
  next hk => exact ⟨_, fun _ _ => .number hk⟩
  next hk => exact ⟨.bool true ⟨file, t.position⟩, fun _ _ => .bool hk⟩
  next hk => exact ⟨.bool false ⟨file, t.position⟩, fun _ _ => .bool hk⟩
  next hk => exact ⟨_, fun _ _ => .string hk⟩
  next hk => exact ⟨_, fun _ _ => .char hk⟩
  next => cases ht

/-- A derived phrase has a tree, as which it reads wherever the tokens behind it do not continue
it. -/
theorem Derives.exists_value (file : String) (h : Derives p w) :
    ∃ value : p.Value, ∀ behind rest, p.EndsBefore (nextKind behind rest) → Closed behind w rest →
      Reads file behind p (w ++ rest) value rest := by
  -- the tree of a phrase is made of those of its parts, whatever stands behind the phrase; what may
  -- not stand there is passed on to the last part
  induction h with
  | literal ht =>
      obtain ⟨e, he⟩ := reads_literal ht
      exact ⟨e, fun behind rest _ _ => he behind rest⟩
  | @name t ht => exact ⟨_, fun _ _ _ hclosed => .name ht (hclosed t rfl ht)⟩
  | @call t l r args ht hl _ hr ih =>
      obtain ⟨es, hes⟩ := ih
      refine ⟨Expr.call t.lexeme es ⟨file, t.position⟩, fun behind rest _ _ => ?_⟩
      rw [List.cons_append, List.cons_append, List.append_assoc]
      exact .call ht hl hr (hes behind (r :: rest) hr (.of_next (by rw [nextKind_cons, hr]; simp)))
  | @parens l r e hl _ hr ih =>
      obtain ⟨value, he⟩ := ih
      refine ⟨value, fun behind rest _ _ => ?_⟩
      rw [List.cons_append, List.append_assoc]
      exact .parens hl hr (he behind (r :: rest) (by rw [nextKind_cons, hr]; rfl)
        (.of_next (by rw [nextKind_cons, hr]; simp)))
  | unaryOp ht _ ih =>
      obtain ⟨e, he⟩ := ih
      obtain ⟨op, hop⟩ := exists_of_isUnarySign ht
      exact ⟨_, fun _ _ _ hclosed => .unaryOp hop (he _ _ trivial hclosed.of_cons)⟩
  | stepBefore ht _ ih =>
      obtain ⟨e, he⟩ := ih
      obtain ⟨step, overflow, hk⟩ := exists_step ht
      exact ⟨_, fun _ _ _ hclosed => .stepBefore hk (he _ _ trivial hclosed.of_cons)⟩
  | unary _ ih =>
      obtain ⟨e, he⟩ := ih
      exact ⟨e, fun _ _ _ hclosed => .unary (he _ _ trivial hclosed)⟩
  | noLink => exact ⟨[], fun _ _ _ _ => .noLink⟩
  | @stepAfter t w ht _ ih =>
      obtain ⟨xs, hxs⟩ := ih
      obtain ⟨step, overflow, hk⟩ := exists_step ht
      exact ⟨Link.step step overflow ⟨file, t.position⟩ :: xs, fun _ _ _ hclosed =>
        .stepAfter hk (hxs _ _ trivial hclosed.of_cons)⟩
  | @operator t w links ht _ hlinks ihw ihlinks =>
      obtain ⟨op, hk⟩ := exists_operator ht
      obtain ⟨e, he⟩ := ihw
      obtain ⟨xs, hxs⟩ := ihlinks
      refine ⟨Link.operator op ⟨file, t.position⟩ e :: xs, fun behind rest _ hclosed => ?_⟩
      rw [List.cons_append, List.append_assoc]
      exact .operator hk (he _ _ trivial (hclosed.of_cons.before_links hlinks))
        (hxs _ _ trivial hclosed.of_cons.of_append)
  | @expression w links _ hlinks ihw ihlinks =>
      obtain ⟨e, he⟩ := ihw
      obtain ⟨xs, hxs⟩ := ihlinks
      refine ⟨((Grouping.operand e).extendAll xs).tree, fun behind rest hends hclosed => ?_⟩
      rw [List.append_assoc]
      exact .expression (he _ _ trivial (hclosed.before_links hlinks))
        (hxs _ _ trivial hclosed.of_append) hends
  | oneExpression _ ih =>
      obtain ⟨e, he⟩ := ih
      exact ⟨[e], fun _ _ hends hclosed => .lastExpression (he _ _ hends.1 hclosed) hends.2⟩
  | @moreExpressions comma e es _ hcomma _ ihe ihes =>
      obtain ⟨value, he⟩ := ihe
      obtain ⟨values, hes⟩ := ihes
      refine ⟨value :: values, fun behind rest hends hclosed => ?_⟩
      rw [List.append_assoc]
      exact .moreExpressions
        (he _ _ (by rw [List.cons_append, nextKind_cons, hcomma]; rfl)
          (.of_next (by rw [List.cons_append, nextKind_cons, hcomma]; simp)))
        hcomma (hes _ _ hends hclosed.of_append.of_cons)
  | noArguments => exact ⟨[], fun _ _ hends _ => .noArguments hends⟩
  | arguments _ ih =>
      obtain ⟨es, hes⟩ := ih
      refine ⟨es, fun behind rest hends hclosed => .arguments (hes _ _ ⟨?_, ?_⟩ hclosed)⟩
      · rw [show nextKind behind rest = .mark .rightParen from hends]
        rfl
      · rw [show nextKind behind rest = .mark .rightParen from hends]
        simp

/-- A derived phrase that the tokens behind it do not continue reads as a whole. -/
theorem Derives.reads (h : Derives p w) (hends : p.EndsBefore (nextKind behind rest))
    (hclosed : Closed behind w rest) : ∃ value, Reads file behind p (w ++ rest) value rest := by
  obtain ⟨value, hvalue⟩ := h.exists_value file
  exact ⟨value, hvalue behind rest hends hclosed⟩

/-! ## Names that become calls -/

/-- The last token of two parts is that of the second one, unless that is empty. -/
theorem last_of_append (h : (u ++ v).getLast? = some t) :
    v.getLast? = some t ∨ v = [] ∧ u.getLast? = some t := by
  rwa [List.getLast?_append, Option.or_eq_some_iff, List.getLast?_eq_none_iff] at h

/-- A name at the end is not the first token, if that is no name. -/
theorem last_of_cons (h : (l :: w).getLast? = some t) (ht : t.kind = .identifier)
    (hl : l.kind ≠ .identifier) : w.getLast? = some t := by
  rcases last_of_append (u := [l]) h with h | ⟨-, h⟩
  · exact h
  · obtain rfl : l = t := Option.some.inj h
    exact absurd ht hl

/-- A name at the end of a phrase becomes a call by the arguments behind it. The name may lie deep
in the phrase, at the end of the last operand of the last part; the induction goes down to it. -/
theorem Derives.call_append (h : Derives p w) (ht : w.getLast? = some t)
    (hn : t.kind = .identifier) (hl : l.kind = .mark .leftParen) (hargs : Derives .arguments args)
    (hr : r.kind = .mark .rightParen) : Derives p (w ++ l :: (args ++ [r])) := by
  induction h with
  | @literal t' ht' =>
      obtain rfl : t' = t := Option.some.inj ht
      rw [hn] at ht'
      cases ht'
  | @name t' =>
      obtain rfl : t' = t := Option.some.inj ht
      exact .call hn hl hargs hr
  | @call t' l' r' args' _ _ _ hr' =>
      rw [← List.cons_append, ← List.cons_append, List.getLast?_concat] at ht
      obtain rfl : r' = t := Option.some.inj ht
      rw [hn] at hr'
      cases hr'
  | @parens l' r' e _ _ hr' =>
      rw [← List.cons_append, List.getLast?_concat] at ht
      obtain rfl : r' = t := Option.some.inj ht
      rw [hn] at hr'
      cases hr'
  | unaryOp ht' _ ih =>
      have h := last_of_cons ht hn (by rintro hk; rw [hk] at ht'; cases ht')
      exact .unaryOp ht' (ih h)
  | stepBefore ht' _ ih =>
      have h := last_of_cons ht hn (by rintro hk; rw [hk] at ht'; cases ht')
      exact .stepBefore ht' (ih h)
  | unary _ ih => exact .unary (ih ht)
  | noLink => cases ht
  | stepAfter ht' _ ih =>
      have h := last_of_cons ht hn (by rintro hk; rw [hk] at ht'; cases ht')
      exact .stepAfter ht' (ih h)
  | operator ht' hw _ ihw ihlinks =>
      have h := last_of_cons ht hn (by rintro hk; rw [hk] at ht'; cases ht')
      rw [List.cons_append, List.append_assoc]
      rcases last_of_append h with h' | ⟨rfl, h'⟩
      · exact .operator ht' hw (ihlinks h')
      -- without links the name is at the end of the operand
      · rw [List.nil_append, ← List.append_nil (l :: _), ← List.append_assoc]
        exact .operator ht' (ihw h') .noLink
  | expression hw _ ihw ihlinks =>
      rw [List.append_assoc]
      rcases last_of_append ht with h | ⟨rfl, h⟩
      · exact .expression hw (ihlinks h)
      · rw [List.nil_append, ← List.append_nil (l :: _), ← List.append_assoc]
        exact .expression (ihw h) .noLink
  | oneExpression _ ih => exact .oneExpression (ih ht)
  | moreExpressions he hcomma _ _ ih =>
      rw [List.append_cons] at ht
      rw [List.append_assoc]
      rcases last_of_append ht with h | ⟨-, h⟩
      · exact .moreExpressions he hcomma (ih h)
      · rw [List.getLast?_concat] at h
        obtain rfl := Option.some.inj h
        rw [hn] at hcomma
        cases hcomma
  | noArguments => cases ht
  | arguments _ ih => exact .arguments (ih ht)

/-- Links behind an expression belong to it. -/
theorem Derives.expression_append (h : Derives .expression u) (hw : Derives .links w) :
    Derives .expression (u ++ w) := by
  cases h with
  | expression hu hlinks =>
      rw [List.append_assoc]
      exact .expression hu (hlinks.links_append hw)

end FrontEnd.Grammar
