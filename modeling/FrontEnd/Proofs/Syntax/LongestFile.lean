import FrontEnd.Proofs.Syntax.Longest
import FrontEnd.Proofs.Syntax.ReadsFile

set_option autoImplicit false

/-! # Every derived file can be read

Semicolons behind bindings and returns may be missing, so the grammar leaves open where these end:
`let x = a` with the statement `++b;` or `(b);` behind it derives, but reads as `let x = a++` with
`b;` behind it, and as `let x = a(b)`. The tokens that move over the boundary always leave
statements behind, which is what `Follows` records: what follows a binding in a block or in a file
can give up the tokens that belong to the expression in front of it, and a semicolon.

How far a boundary moves is limited by the statement behind it. One that could go on an expression is
itself an expression with its semicolon (`Forms.statement_continues`), so the boundary stops in front
of this semicolon at the latest.

That a file can be read is all that is shown here. Which trees come out is a matter of the
relations, and that a parser builds the same ones is shown for them and not for derivations.
-/

namespace FrontEnd.Grammar

variable {file : String} {finish : Token} {behind next : Kind} {p : Phrase}
  {u v w rest : List Token} {t : Token}

/-! ## Where derived phrases start

The first token of a phrase tells its kind. So the parsers, which look at one token or two, choose
the phrase that was derived. -/

theorem startsPrimary_of_isLiteral {kind : Kind} (h : isLiteral kind) : startsPrimary kind := by
  unfold startsPrimary
  split
  · rfl
  · rfl
  · exact h

theorem Derives.startsWith (h : Derives p w) : p.StartsWith (nextKind behind w) := by
  induction h generalizing behind with
  | literal ht => exact startsPrimary_of_isLiteral ht
  | name ht | call ht | parens ht => simp [Phrase.StartsWith, ht, startsPrimary]
  | unaryOp ht | stepBefore ht => simp [Phrase.StartsWith, ht, startsExpression]
  | unary _ ih => exact startsExpression_of_startsPrimary ih
  | expression _ _ ih _ | moreExpressions _ _ _ ih _ =>
      rw [nextKind_append]
      exact ih
  | oneExpression _ ih => exact ih
  | _ => trivial

/-- A derived binding starts with a keyword or a name. -/
theorem Forms.binding_startsWith (behind : Kind) (h : Forms .binding next w) :
    isBindingWord (nextKind behind w) ∨ nextKind behind w = .identifier := by
  cases h with
  | keywordBinding hk => exact .inl hk
  | define hn | typedBinding hn | namedBlock hn => exact .inr hn

theorem DerivesReturn.startsWith (h : DerivesReturn next w) :
    nextKind behind w = .word .returnWord := by
  cases h with
  | values ht | bare ht => exact ht

theorem Forms.statement_startsWith (h : Forms .statement next w) :
    startsStatement (nextKind behind w) := by
  cases h with
  | binding h =>
      rcases h.binding_startsWith behind with hk | hk
      · exact startsStatement_of_isBindingWord hk
      · rw [hk]
        rfl
  | ret h =>
      rw [h.startsWith]
      rfl
  | inner h =>
      cases h with
      | block hl => rw [nextKind_cons, hl]; rfl
  | semicolon ht => rw [nextKind_cons, ht]; rfl
  | expression he =>
      rw [nextKind_append]
      exact startsStatement_of_startsExpression he.startsWith

/-- A statement that could go on an expression in front of it is an expression itself. -/
theorem Forms.statement_continues (h : Forms .statement next w)
    (hk : (nextKind behind w).level?.isSome ∨ nextKind behind w = .mark .leftParen) :
    ∃ e t, w = e ++ [t] ∧ Derives .expression e ∧ t.kind = .mark .semicolon := by
  cases h with
  | expression he ht => exact ⟨_, _, rfl, he, ht⟩
  | binding h =>
      exfalso
      rcases h.binding_startsWith behind with hw | hw
      · rcases isBindingWord_cases hw with hw | hw | hw <;> simp [hw, Kind.level?] at hk
      · simp [hw, Kind.level?] at hk
  | ret h => simp [h.startsWith, Kind.level?] at hk
  | inner h =>
      cases h with
      | block hl => simp [hl, Kind.level?] at hk
  | semicolon ht => simp [ht, Kind.level?] at hk

/-- A statement that starts with a semicolon is nothing else. -/
theorem Forms.statement_semicolon (h : Forms .statement next w)
    (hk : nextKind behind w = .mark .semicolon) : IsToken (.mark .semicolon) w := by
  cases h with
  | semicolon ht => exact ⟨_, ht, rfl⟩
  | binding h =>
      exfalso
      rcases h.binding_startsWith behind with hw | hw
      · rw [hk] at hw
        cases hw
      · rw [hk] at hw
        cases hw
  | ret h =>
      rw [h.startsWith] at hk
      cases hk
  | inner h =>
      cases h with
      | block hl =>
          rw [nextKind_cons, hl] at hk
          cases hk
  | @expression _ t e he ht =>
      rw [nextKind_append] at hk
      have hstart : startsExpression (nextKind (nextKind behind [t]) e) := he.startsWith
      rw [hk] at hstart
      cases hstart

/-! ## Statements behind an expression

Without a semicolon the next statement may go on where an expression ends: a sign in front of it may
be an operator behind it. The longest reading takes it, and what is left of the statement is a
statement again. -/

theorem not_level_of_isLiteral {kind : Kind} (h : isLiteral kind) :
    kind.level? = none ∧ kind ≠ .mark .leftParen := by
  unfold isLiteral at h
  split at h
  case h_6 => cases h
  all_goals exact ⟨rfl, by simp⟩

/-- A sign in front of an operand is an operator between two, or cannot stand behind an operand. -/
theorem binaryOp?_of_isUnarySign {kind : Kind} (h : isUnarySign kind) :
    kind.binaryOp?.isSome ∨ kind.level? = none ∧ kind ≠ .mark .leftParen := by
  unfold isUnarySign at h
  split at h
  · exact .inl rfl
  · exact .inr ⟨rfl, by simp⟩
  · exact .inr ⟨rfl, by simp⟩
  · cases h

/-- An expression directly behind another is part of it, or starts with a step that is, or cannot
go on with it. -/
theorem Derives.behind_expression {e : List Token} (behind : Kind) (rest : List Token)
    (hu : Derives .expression u) (he : Derives .expression e) :
    Derives .expression (u ++ e) ∨
      (∃ step w, e = step :: w ∧ step.kind.isStep ∧ Derives .expression w) ∨
      ((nextKind behind (e ++ rest)).level? = none ∧ Closed behind u (e ++ rest)) := by
  cases he with
  | @expression e links he hlinks =>
      rw [List.append_assoc]
      cases he with
      | @unaryOp op w hop hw =>
          -- a minus sign is an operator here
          rcases binaryOp?_of_isUnarySign hop with hop' | ⟨hlevel, hparen⟩
          · exact .inl (hu.expression_append (.operator hop' hw hlinks))
          · exact .inr (.inr ⟨hlevel, .of_next hparen⟩)
      | stepBefore hstep hw =>
          exact .inr (.inl ⟨_, _, rfl, hstep, .expression (.unary hw) hlinks⟩)
      | unary he =>
          cases he with
          | literal ht =>
              obtain ⟨hlevel, hparen⟩ := not_level_of_isLiteral ht
              exact .inr (.inr ⟨hlevel, .of_next hparen⟩)
          | name ht | call ht =>
              refine .inr (.inr ⟨?_, .of_next ?_⟩)
              · rw [List.cons_append, nextKind_cons, ht]; rfl
              · rw [List.cons_append, nextKind_cons, ht]; simp
          | @parens l r w hl hw hr =>
              by_cases hname : ∃ t, u.getLast? = some t ∧ t.kind = .identifier
              · -- the parentheses make the name in front of them a call
                obtain ⟨t, ht, hn⟩ := hname
                have hcall := hu.call_append ht hn hl (.arguments (.oneExpression hw)) hr
                have h := hcall.expression_append hlinks
                rw [List.append_assoc] at h
                exact .inl h
              · refine .inr (.inr ⟨?_, fun t ht hn => absurd ⟨t, ht, hn⟩ hname⟩)
                rw [List.cons_append, nextKind_cons, hl]
                rfl

/-- Statements behind an expression can give up the tokens that belong to the expression. What they
keep are statements, and nothing of them continues the expression any more. -/
theorem Forms.absorb (hlevel : next.level? = none) (hparen : next ≠ .mark .leftParen)
    (hu : Derives .expression u) (hv : Forms .statements next v) :
    ∃ u' v', u ++ v = u' ++ v' ∧ Derives .expression u' ∧ Forms .statements next v' ∧
      (nextKind next v').level? = none ∧ Closed next u' v' := by
  -- a step moves alone, and what is behind it is an expression again
  induction hn : v.length using Nat.strongRecOn generalizing u v with
  | _ n ih =>
      by_cases hk : (nextKind next v).level?.isSome ∨ nextKind next v = .mark .leftParen
      case neg =>
        obtain ⟨hk, hk'⟩ := not_or.mp hk
        exact ⟨u, v, rfl, hu, hv, by simpa using hk, .of_next hk'⟩
      cases hv with
      | noStatement =>
          rcases hk with hk | hk
          · rw [nextKind_nil, hlevel] at hk
            cases hk
          · exact absurd hk hparen
      | @moreStatements _ w rest hw hrest =>
          rw [nextKind_append] at hk
          obtain ⟨e, t, rfl, he, ht⟩ := hw.statement_continues hk
          rcases hu.behind_expression next ([t] ++ rest) he with
            hue | ⟨step, e, rfl, hstep, he⟩ | ⟨hlevel, hclosed⟩
          -- all of the statement moves but its semicolon, which is left as a statement
          · refine ⟨u ++ e, t :: rest, by simp, hue,
              .moreStatements (w := [t]) (.semicolon ht) hrest, ?_, .of_next ?_⟩
            · rw [nextKind_cons, ht]; rfl
            · rw [nextKind_cons, ht]; simp
          · obtain ⟨u', v', huv, h⟩ := ih (e ++ [t] ++ rest).length (by rw [← hn]; simp)
              (hu.expression_append (.stepAfter hstep .noLink))
              (.moreStatements (.expression he ht) hrest) rfl
            refine ⟨u', v', ?_, h⟩
            rw [← huv]
            simp
          · rw [← List.append_assoc] at hlevel hclosed
            exact ⟨u, _, rfl, hu, .moreStatements hw hrest, hlevel, hclosed⟩

/-! ## What follows a binding or a return -/

/-- What follows a binding or a `return` is a list of phrases that can give up what belongs to the
expression in front of it, and does not look like a part of the binding otherwise. -/
structure Follows (behind : Kind) (P : List Token → Prop) : Prop where
  absorb {e w : List Token} : Derives .expression e → P w →
    ∃ e' w', e ++ w = e' ++ w' ∧ Derives .expression e' ∧ P w' ∧
      (nextKind behind w').level? = none ∧ Closed behind e' w'
  semicolon {w : List Token} : nextKind behind w = .mark .semicolon → P w →
    ∃ t w', t.kind = .mark .semicolon ∧ w = t :: w' ∧ P w'
  next {w : List Token} : P w → nextKind behind w ≠ .mark .colon ∧
    nextKind behind w ≠ .mark .comma ∧ nextKind behind w ≠ .operator .assign

/-- The tokens, with or without a semicolon in front of them. -/
def BehindSemicolon (P : List Token → Prop) (w : List Token) : Prop :=
  P w ∨ ∃ t rest, t.kind = .mark .semicolon ∧ w = t :: rest ∧ P rest

section

variable {P : List Token → Prop}

theorem BehindSemicolon.of_optional {semicolon : List Token}
    (h : Optional (IsToken (.mark .semicolon)) semicolon) (hw : P w) :
    BehindSemicolon P (semicolon ++ w) := by
  rcases h with rfl | ⟨t, ht, rfl⟩
  · exact .inl hw
  · exact .inr ⟨t, w, ht, rfl, hw⟩

/-- A semicolon that is there is read. -/
theorem Follows.reads_semicolon (hP : Follows finish.kind P) (h : BehindSemicolon P w) :
    ∃ w', ReadsSemicolon finish w w' ∧ P w' := by
  rcases h with hw | ⟨t, w, ht, rfl, hw⟩
  · by_cases hk : nextKind finish.kind w = .mark .semicolon
    · obtain ⟨t, w, ht, rfl, hw'⟩ := hP.semicolon hk hw
      exact ⟨w, .some ht, hw'⟩
    · exact ⟨w, .none hk, hw⟩
  · exact ⟨w, .some ht, hw⟩

/-- An optional semicolon changes nothing about what follows. -/
theorem Follows.behindSemicolon (hP : Follows behind P) :
    Follows behind (BehindSemicolon P) where
  absorb := by
    rintro e w he (hw | ⟨t, w, ht, rfl, hw⟩)
    · obtain ⟨e', w', heq, he', hw', h⟩ := hP.absorb he hw
      exact ⟨e', w', heq, he', .inl hw', h⟩
    -- nothing goes over a semicolon
    · refine ⟨e, t :: w, rfl, he, .inr ⟨t, w, ht, rfl, hw⟩, ?_, .of_next ?_⟩
      · rw [nextKind_cons, ht]; rfl
      · rw [nextKind_cons, ht]; simp
  semicolon := by
    rintro w hk (hw | ⟨t, w, ht, rfl, hw⟩)
    · obtain ⟨t, w, ht, rfl, hw'⟩ := hP.semicolon hk hw
      exact ⟨t, w, ht, rfl, .inl hw'⟩
    · exact ⟨t, w, ht, rfl, .inl hw⟩
  next := by
    rintro w (hw | ⟨t, w, ht, rfl, hw⟩)
    · exact hP.next hw
    · rw [nextKind_cons, ht]
      exact ⟨by simp, by simp, by simp⟩

/-! ## Parts of bindings

Each part is read as far as it goes, and takes what it can from the statements that follow. What
follows is then shorter, but still what may follow. -/

/-- The longest reading of an expression leaves something that may follow it. -/
theorem Follows.reads_expression (file : String) (hP : Follows behind P)
    (he : Derives .expression u) (hw : P w) :
    ∃ e w', Reads file behind .expression (u ++ w) e w' ∧ P w' := by
  obtain ⟨u', w', heq, hu', hw', hlevel, hclosed⟩ := hP.absorb he hw
  obtain ⟨e, he⟩ := hu'.exists_value file
  exact ⟨e, w', heq ▸ he behind w' hlevel hclosed, hw'⟩

theorem Follows.reads_expressions (file : String) (hP : Follows behind P)
    (h : Derives .expressions u) (hw : P w) :
    ∃ es w', Reads file behind .expressions (u ++ w) es w' ∧ P w' := by
  generalize hp : Phrase.expressions = p at h
  induction h with
  | oneExpression he =>
      obtain ⟨e, w', he', hw'⟩ := hP.reads_expression file he hw
      exact ⟨[e], w', .lastExpression he' (hP.next hw').2.1, hw'⟩
  | @moreExpressions comma e es he hcomma hes _ ih =>
      obtain ⟨es', w', hes', hw'⟩ := ih hp
      -- a comma ends the expression, so only the last one may take more tokens
      obtain ⟨e', he'⟩ : ∃ e', Reads file behind .expression (e ++ comma :: (es ++ w)) e'
          (comma :: (es ++ w)) :=
        he.reads (by rw [nextKind_cons, hcomma]; rfl)
          (.of_next (by rw [nextKind_cons, hcomma]; simp))
      rw [List.append_assoc]
      exact ⟨e' :: es', w', .moreExpressions he' hcomma hes', hw'⟩
  | _ => cases hp

theorem Follows.reads_init (file : String) (hP : Follows finish.kind P)
    (h : Optional DerivesInit u) (hw : P w) :
    ∃ init w', ReadsInit file finish (u ++ w) init w' ∧ P w' := by
  rcases h with rfl | ⟨hsign, he⟩
  · exact ⟨none, w, .none (hP.next hw).2.2, hw⟩
  · obtain ⟨e, w', he', hw'⟩ := hP.reads_expression file he hw
    exact ⟨some e, w', .some hsign he', hw'⟩

theorem reads_type (file : String) (h : Optional DerivesType u)
    (hnext : nextKind finish.kind w ≠ .mark .colon) :
    ∃ type, ReadsType file finish (u ++ w) type w := by
  rcases h with rfl | ⟨hcolon, ht⟩
  · exact ⟨none, .none hnext⟩
  · exact ⟨_, .some hcolon ht⟩

/-- What follows the type of a binding is not a type. -/
theorem Follows.init_next (hP : Follows behind P) (h : Optional DerivesInit u) (hw : P w) :
    nextKind behind (u ++ w) ≠ .mark .colon := by
  rcases h with rfl | ⟨hsign, -⟩
  · exact (hP.next hw).1
  · rw [List.cons_append, nextKind_cons, hsign]
    simp

theorem Follows.reads_return (file : String) (hP : Follows finish.kind P)
    (h : DerivesReturn (nextKind finish.kind w) u) (hw : P w) :
    ∃ node w', ReadsReturn file finish (u ++ w) node w' ∧ P w' := by
  cases h with
  | values ht hes hsemicolon =>
      rw [List.cons_append, List.append_assoc]
      obtain ⟨es, mid, hes', hmid⟩ :=
        hP.behindSemicolon.reads_expressions file hes (.of_optional hsemicolon hw)
      obtain ⟨w', hsemicolon', hw'⟩ := hP.reads_semicolon hmid
      exact ⟨_, w', .values ht hes' hsemicolon', hw'⟩
  | bare ht hsemicolon hend =>
      obtain ⟨w', hsemicolon', hw'⟩ :=
        hP.reads_semicolon (.of_optional hsemicolon hw)
      rw [← nextKind_append] at hend
      exact ⟨_, w', .bare ht hend hsemicolon', hw'⟩

/-- A derived binding can be read, if this holds of the block that it may consist of. -/
theorem Follows.reads_binding (hP : Follows finish.kind P)
    (h : Forms .binding (nextKind finish.kind w) u) (hw : P w)
    (hblock : ∀ {v}, v <:+ u → Forms .block (nextKind finish.kind w) v →
      ∃ b, ReadsForm file finish .block (v ++ w) b w) :
    ∃ node w', ReadsForm file finish .binding (u ++ w) node w' ∧ P w' := by
  have hP' := hP.behindSemicolon
  cases h with
  | keywordBinding hk hn htype hinit hsemicolon =>
      -- the type and the value are read up to the semicolon, or as far as they go without it
      have hclose := BehindSemicolon.of_optional hsemicolon hw
      obtain ⟨init, mid, hinit', hmid⟩ := hP'.reads_init file hinit hclose
      obtain ⟨type, htype'⟩ := reads_type file htype (hP'.init_next hinit hclose)
      obtain ⟨w', hsemicolon', hw'⟩ := hP.reads_semicolon hmid
      rw [List.cons_append, List.cons_append, List.append_assoc, List.append_assoc]
      exact ⟨_, w', .keywordBinding hk hn htype' hinit' hsemicolon', hw'⟩
  | define hn hsign he hsemicolon =>
      have hclose := BehindSemicolon.of_optional hsemicolon hw
      obtain ⟨e, mid, he', hmid⟩ := hP'.reads_expression file he hclose
      obtain ⟨w', hsemicolon', hw'⟩ := hP.reads_semicolon hmid
      rw [List.cons_append, List.cons_append, List.append_assoc]
      exact ⟨_, w', .define hn hsign he' hsemicolon', hw'⟩
  | typedBinding hn hcolon ht hinit hsemicolon =>
      have hclose := BehindSemicolon.of_optional hsemicolon hw
      obtain ⟨init, mid, hinit', hmid⟩ := hP'.reads_init file hinit hclose
      obtain ⟨w', hsemicolon', hw'⟩ := hP.reads_semicolon hmid
      rw [List.cons_append, List.cons_append, List.cons_append, List.append_assoc]
      exact ⟨_, w', .typedBinding hn hcolon ht hinit' hsemicolon', hw'⟩
  | @namedBlock _ n colon v hn hcolon hv =>
      obtain ⟨b, hb⟩ := hblock ⟨[n, colon], rfl⟩ hv
      exact ⟨_, w, .namedBlock hn hcolon hb, hw⟩

end

/-! ## Blocks

A closing brace continues nothing. So the statements of a block can be read with the longest reading
of each, and they end at the brace as before. -/

/-- The statements up to the closing brace of a block. -/
def Inside (r : Token) (rest w : List Token) : Prop :=
  ∃ v, Forms .statements (.mark .rightBrace) v ∧ w = v ++ r :: rest

theorem Inside.nextKind {r : Token} (hr : r.kind = .mark .rightBrace) :
    nextKind behind (v ++ r :: rest) = nextKind (.mark .rightBrace) v := by
  rw [nextKind_append, nextKind_cons, hr]

theorem Forms.statements_startsWith (h : Forms .statements next w) :
    w = [] ∨ startsStatement (nextKind next w) := by
  cases h with
  | noStatement => exact .inl rfl
  | moreStatements hw =>
      rw [nextKind_append]
      exact .inr hw.statement_startsWith

/-- What follows a binding in a block can give up what belongs to the binding. -/
theorem follows_inside {r : Token} (hr : r.kind = .mark .rightBrace) :
    Follows behind (Inside r rest) where
  absorb := by
    rintro e w he ⟨v, hv, rfl⟩
    have hbrace : (Kind.mark .rightBrace).level? = none ∧
        Kind.mark .rightBrace ≠ .mark .leftParen := ⟨rfl, by simp⟩
    obtain ⟨e', v', heq, he', hv', hlevel, hclosed⟩ := hv.absorb hbrace.1 hbrace.2 he
    refine ⟨e', v' ++ r :: rest, ?_, he', ⟨v', hv', rfl⟩, ?_, fun t ht hn => ?_⟩
    · rw [← List.append_assoc, heq, List.append_assoc]
    · rwa [Inside.nextKind hr]
    · rw [Inside.nextKind hr]
      exact hclosed t ht hn
  semicolon := by
    rintro w hk ⟨v, hv, rfl⟩
    rw [Inside.nextKind hr] at hk
    cases hv with
    | noStatement => cases hk
    | @moreStatements _ w v hw hv =>
        rw [nextKind_append] at hk
        obtain ⟨t, ht, rfl⟩ := hw.statement_semicolon hk
        exact ⟨t, v ++ r :: rest, ht, rfl, v, hv, rfl⟩
  next := by
    rintro w ⟨v, hv, rfl⟩
    rw [Inside.nextKind hr]
    rcases hv.statements_startsWith with rfl | hk
    · exact ⟨by simp, by simp, by simp⟩
    · refine ⟨?_, ?_, ?_⟩ <;> rintro he <;> rw [he] at hk <;> cases hk

/-- The statements of a block read as a whole, up to the closing brace behind them. -/
theorem Forms.reads_statements (file : String) (finish : Token)
    (h : Forms .statements (.mark .rightBrace) v) {r : Token} (hr : r.kind = .mark .rightBrace) :
    ∃ nodes, ReadsForm file finish .statements (v ++ r :: rest) nodes rest := by
  -- A binding may take tokens from the statements behind it, and what is left of them has another
  -- derivation. So the induction is on the number of tokens.
  induction hn : v.length using Nat.strongRecOn generalizing v r rest with
  | _ n ih =>
      cases h with
      | noStatement => exact ⟨[], .noStatement hr⟩
      | @moreStatements _ w v hw hv =>
          have hlength : (w ++ v).length = w.length + v.length := List.length_append
          have hnext : nextKind finish.kind (v ++ r :: rest) = nextKind (.mark .rightBrace) v :=
            Inside.nextKind hr
          rw [List.append_assoc]
          -- a block in the statement is shorter
          have hblock {next : Kind} {u : List Token} (hu : u <:+ w) (h : Forms .block next u) :
              ∃ b, ReadsForm file finish .block (u ++ (v ++ r :: rest)) b (v ++ r :: rest) := by
            have hle := hu.length_le
            cases h with
            | @block _ l r' u hl hinner hr' =>
                obtain ⟨nodes, hnodes⟩ := ih u.length (by simp at hle; omega) hinner hr' rfl
                rw [List.cons_append, List.append_assoc]
                exact ⟨_, .block hl hnodes⟩
          have hrest (hw0 : w ≠ []) :
              ∃ nodes, ReadsForm file finish .statements (v ++ r :: rest) nodes rest :=
            ih v.length (by have := List.length_pos_iff.mpr hw0; omega) hv hr rfl
          cases hw with
          | binding hw =>
              rw [← hnext] at hw
              obtain ⟨node, w', hnode, v', hv', rfl⟩ :=
                (follows_inside hr).reads_binding hw ⟨v, hv, rfl⟩ hblock
              have hlt := (ReadsForm.binding hnode).statement_length_lt
              obtain ⟨nodes, hnodes⟩ := ih v'.length (by simp at hlt; omega) hv' hr rfl
              exact ⟨_, .moreStatements (.binding hnode) hnodes⟩
          | ret hw =>
              rw [← hnext] at hw
              obtain ⟨node, w', hnode, v', hv', rfl⟩ :=
                (follows_inside hr).reads_return file hw ⟨v, hv, rfl⟩
              have hlt := (ReadsForm.ret hnode).statement_length_lt
              obtain ⟨nodes, hnodes⟩ := ih v'.length (by simp at hlt; omega) hv' hr rfl
              exact ⟨_, .moreStatements (.ret hnode) hnodes⟩
          | inner hw =>
              obtain ⟨b, hb⟩ := hblock List.suffix_rfl hw
              obtain ⟨nodes, hnodes⟩ := hrest (by cases hw; simp)
              exact ⟨_, .moreStatements (.inner hb) hnodes⟩
          | semicolon ht =>
              obtain ⟨nodes, hnodes⟩ := hrest (by simp)
              exact ⟨_, .moreStatements (.semicolon ht) hnodes⟩
          | @expression _ t e he ht =>
              obtain ⟨value, he'⟩ := he.exists_value file
              have hread := he' finish.kind (t :: (v ++ r :: rest)) (by rw [nextKind_cons, ht]; rfl)
                (.of_next (by rw [nextKind_cons, ht]; simp))
              obtain ⟨nodes, hnodes⟩ := hrest (by simp)
              rw [List.append_assoc]
              exact ⟨_, .moreStatements (.expression hread ht) hnodes⟩

/-- A block reads as a whole. -/
theorem Forms.reads_block (file : String) (finish : Token) (h : Forms .block next u) :
    ∃ b, ReadsForm file finish .block (u ++ w) b w := by
  cases h with
  | block hl hinner hr =>
      obtain ⟨nodes, hnodes⟩ := hinner.reads_statements file finish hr
      rw [List.cons_append, List.append_assoc]
      exact ⟨_, .block hl hnodes⟩

/-! ## Heads of functions

A head ends in front of a brace, or where a declaration starts. Neither looks like one more argument
or one more type. -/

theorem DerivesTypes.reads (file : String) (h : DerivesTypes u)
    (hnext : nextKind finish.kind w ≠ .mark .comma) :
    ∃ types, ReadsTypes file finish (u ++ w) types w := by
  induction h with
  | one ht => exact ⟨_, .last ht hnext⟩
  | more ht hcomma _ ih =>
      obtain ⟨types, htypes⟩ := ih
      exact ⟨_, .more ht hcomma htypes⟩

theorem DerivesParams.reads (h : DerivesParams u)
    (hnext : nextKind finish.kind w ≠ .mark .comma) :
    ∃ params, ReadsParams file finish (u ++ w) params w := by
  induction h with
  | one hn hcolon ht => exact ⟨_, .last hn hcolon ht hnext⟩
  | more hn hcolon ht hcomma _ ih =>
      obtain ⟨params, hparams⟩ := ih
      exact ⟨_, .more hn hcolon ht hcomma hparams⟩

/-- The head of a function reads as a whole in front of what may follow it. -/
theorem DerivesHead.reads (file : String) (k : Token) (isExtern : Bool) (h : DerivesHead u)
    (hcolon : nextKind finish.kind w ≠ .mark .colon)
    (hcomma : nextKind finish.kind w ≠ .mark .comma)
    (hnext : isExtern ∨ nextKind finish.kind w = .mark .leftBrace) :
    ∃ head, ReadsHead file finish isExtern (k :: (u ++ w)) head w := by
  cases h with
  | @head n l r params returns hn hl hparams hr hreturns =>
      obtain ⟨params', hparams'⟩ : ∃ params',
          ReadsParamList file finish (params ++ r :: (returns ++ w)) params' (returns ++ w) := by
        -- both lists may be missing, and neither goes on behind what closes it
        rcases hparams with rfl | hparams
        · exact ⟨[], .none hr⟩
        · have hparen : nextKind finish.kind (r :: (returns ++ w)) ≠ .mark .comma := by
            rw [nextKind_cons, hr]
            simp
          obtain ⟨params', h⟩ := hparams.reads hparen
          exact ⟨params', .some h hr⟩
      obtain ⟨types, htypes⟩ : ∃ types,
          ReadsReturns file finish isExtern (returns ++ w) types w := by
        rcases hreturns with rfl | ⟨hsign, htypes⟩
        · exact ⟨_, .none hcolon hnext⟩
        · obtain ⟨types, h⟩ := htypes.reads file hcomma
          exact ⟨types, .written hsign h⟩
      rw [List.cons_append, List.cons_append, List.append_assoc]
      exact ⟨_, .head hn hl hparams' htypes⟩

/-! ## Files

The declarations of a file follow each other as the statements of a block do, but for namespace
lines and functions, which start with a word that continues nothing. -/

/-- A declaration starts with a keyword or a name. -/
theorem DerivesDeclaration.startsWith (h : DerivesDeclaration next w) :
    (∃ keyword, nextKind behind w = .word keyword) ∨ nextKind behind w = .identifier := by
  cases h with
  | namespaceLine hk => exact .inl ⟨_, hk⟩
  | function hk => exact .inl (hk.elim (fun hk => ⟨_, hk⟩) fun hk => ⟨_, hk⟩)
  | externFunction hk => exact .inl ⟨_, hk⟩
  | ret h => exact .inl ⟨_, h.startsWith⟩
  | binding h =>
      refine (h.binding_startsWith behind).imp (fun hw => ?_) id
      rcases isBindingWord_cases hw with hk | hk | hk <;> exact ⟨_, hk⟩

theorem DerivesFile.startsWith (h : DerivesFile w) :
    nextKind .endOfFile w = .endOfFile ∨ (∃ keyword, nextKind .endOfFile w = .word keyword) ∨
      nextKind .endOfFile w = .identifier := by
  cases h with
  | empty => exact .inl rfl
  | declaration hw =>
      rw [nextKind_append]
      exact .inr hw.startsWith

/-- No declaration goes on an expression in front of it. -/
theorem follows_file : Follows .endOfFile DerivesFile where
  absorb := by
    intro e w he hw
    refine ⟨e, w, rfl, he, hw, ?_, .of_next ?_⟩
    · rcases hw.startsWith with hk | ⟨keyword, hk⟩ | hk <;> rw [hk] <;> rfl
    · rcases hw.startsWith with hk | ⟨keyword, hk⟩ | hk <;> rw [hk] <;> simp
  semicolon := by
    intro w hk hw
    rcases hw.startsWith with hk' | ⟨keyword, hk'⟩ | hk' <;> rw [hk] at hk' <;> cases hk'
  next := by
    intro w hw
    rcases hw.startsWith with hk | ⟨keyword, hk⟩ | hk
    all_goals
      rw [hk]
      exact ⟨by simp, by simp, by simp⟩

/-- A derived declaration can be read: it is a namespace line, or it has a tree of its own. -/
theorem DerivesDeclaration.reads (file : String) {P : List Token → Prop}
    (hP : Follows finish.kind P) (h : DerivesDeclaration (nextKind finish.kind rest) w)
    (hrest : P rest) :
    ∃ rest', P rest' ∧
      ((∃ k n mid, w ++ rest = k :: n :: mid ∧ k.kind = .word .namespaceWord ∧
          n.kind = .identifier ∧ ReadsSemicolon finish mid rest') ∨
        ∃ node, ReadsDeclaration file finish (w ++ rest) node rest') := by
  cases h with
  | @namespaceLine k n semicolon hk hname hsemicolon =>
      obtain ⟨rest', hsemicolon', hrest'⟩ := hP.reads_semicolon (.of_optional hsemicolon hrest)
      exact ⟨rest', hrest', .inl ⟨k, n, _, rfl, hk, hname, hsemicolon'⟩⟩
  | @function k head body hk hhead hbody =>
      obtain ⟨b, hb⟩ : ∃ b, ReadsForm file finish .block (body ++ rest) b rest :=
        hbody.reads_block file finish
      -- the brace ends the return types, and makes up for those that are missing
      have hbrace : nextKind finish.kind (body ++ rest) = .mark .leftBrace := by
        cases hbody with
        | block hl => exact hl
      obtain ⟨prototype, hhead'⟩ := hhead.reads file k false (by rw [hbrace]; simp)
        (by rw [hbrace]; simp) (.inr hbrace)
      rw [List.cons_append, List.append_assoc]
      exact ⟨rest, hrest, .inr ⟨_, .function hk hhead' hb⟩⟩
  | @externFunction k f head semicolon hk hf hhead hsemicolon =>
      have hclose := BehindSemicolon.of_optional hsemicolon hrest
      obtain ⟨hcolon, hcomma, -⟩ := hP.behindSemicolon.next hclose
      obtain ⟨prototype, hhead'⟩ := hhead.reads file f true hcolon hcomma (.inl rfl)
      obtain ⟨rest', hsemicolon', hrest'⟩ := hP.reads_semicolon hclose
      rw [List.cons_append, List.cons_append, List.append_assoc]
      exact ⟨rest', hrest', .inr ⟨_, .externFunction hk hf hhead' hsemicolon'⟩⟩
  | binding hw =>
      obtain ⟨node, rest', hnode, hrest'⟩ :=
        hP.reads_binding hw hrest fun _ h => h.reads_block file finish
      exact ⟨rest', hrest', .inr ⟨_, .binding hnode⟩⟩
  | ret hw =>
      obtain ⟨node, rest', hnode, hrest'⟩ := hP.reads_return file hw hrest
      exact ⟨rest', hrest', .inr ⟨_, .ret hnode⟩⟩

/-- Every derived file can be read. -/
theorem DerivesFile.reads (file : String) (named : Bool) (hfinish : finish.kind = .endOfFile)
    (h : DerivesFile w) : ∃ nodes, ReadsFile file finish named w nodes := by
  have hfollows : Follows finish.kind DerivesFile := hfinish ▸ follows_file
  -- a declaration may take tokens from the file behind it, so the induction is on the length
  induction hn : w.length using Nat.strongRecOn generalizing w named with
  | _ n ih =>
      cases h with
      | empty => exact ⟨[], .empty⟩
      | @declaration w rest hw hrest =>
          rw [← hfinish] at hw
          obtain ⟨rest', hrest', ⟨k, n, mid, heq, hk, hname, hsemicolon⟩ | ⟨node, hnode⟩⟩ :=
            hw.reads file hfollows hrest
          · have hle := hsemicolon.suffix.length_le
            rw [heq] at hn ⊢
            obtain ⟨nodes, hnodes⟩ := ih rest'.length
              (by simp only [List.length_cons] at hn; omega) true hrest' rfl
            exact ⟨_, .namespaceLine hk hname hsemicolon hnodes⟩
          · have hlt := hnode.head.1
            obtain ⟨nodes, hnodes⟩ := ih rest'.length (by omega) named hrest' rfl
            exact ⟨_, .declaration hnode hnodes⟩

end FrontEnd.Grammar
