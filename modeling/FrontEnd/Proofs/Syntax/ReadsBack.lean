import FrontEnd.Proofs.Syntax.ReadsFile
import FrontEnd.Proofs.Tree.Source

set_option autoImplicit false

/-! # Source text reads back

Tokens that spell a printable tree read as this tree, with locations of their own. What is in
parentheses reads back whatever follows; an expression alone needs that what follows it does not
continue it.

Every operand is written in parentheses, so an operator finds nothing at its right side that could
belong to it. There is one lemma for each kind of tree, with the operands given as trees that read
back, and the induction over trees puts them together (`Expr.readsBack`).
-/

namespace FrontEnd.Grammar

open Lexeme

/-- The tokens have the kinds and texts of the lexemes. -/
def Spells (w : List Token) (lexemes : List Lexeme) : Prop := w.map Token.bare = lexemes

namespace Spells

variable {w : List Token} {l : Lexeme} {xs ys : List Lexeme}

theorem nil_iff : Spells w [] ↔ w = [] := List.map_eq_nil_iff

theorem cons (h : Spells w (l :: xs)) : ∃ t v, w = t :: v ∧ t.bare = l ∧ Spells v xs :=
  List.map_eq_cons_iff.mp h

theorem append (h : Spells w (xs ++ ys)) : ∃ u v, w = u ++ v ∧ Spells u xs ∧ Spells v ys :=
  List.map_eq_append_iff.mp h

/-- Tokens for a phrase and one more lexeme. -/
theorem concat (h : Spells w (xs ++ [l])) : ∃ u t, w = u ++ [t] ∧ Spells u xs ∧ t.bare = l := by
  obtain ⟨u, v, rfl, hu, hv⟩ := h.append
  obtain ⟨t, v, rfl, ht, hv⟩ := hv.cons
  rw [nil_iff.mp hv]
  exact ⟨u, t, rfl, hu, ht⟩

theorem parenthesized (h : Spells w (parenthesized xs)) :
    ∃ l u r, w = l :: (u ++ [r]) ∧ l.kind = .mark .leftParen ∧ Spells u xs ∧
      r.kind = .mark .rightParen := by
  obtain ⟨l, v, rfl, hl, hv⟩ := h.cons
  obtain ⟨u, r, rfl, hu, hr⟩ := hv.concat
  exact ⟨l, u, r, rfl, Token.bare_kind hl, hu, Token.bare_kind hr⟩

theorem braced (h : Spells w (braced xs)) :
    ∃ l u r, w = l :: (u ++ [r]) ∧ l.kind = .mark .leftBrace ∧ Spells u xs ∧
      r.kind = .mark .rightBrace := by
  obtain ⟨l, v, rfl, hl, hv⟩ := h.cons
  obtain ⟨u, r, rfl, hu, hr⟩ := hv.concat
  exact ⟨l, u, r, rfl, Token.bare_kind hl, hu, Token.bare_kind hr⟩

end Spells

section

variable {file : String} {behind : Kind} {input rest w : List Token}

/-! ## Expressions

Operands and arguments are written in parentheses. So every part of an expression ends at a token
that is known, and its tree is that of its parts. -/

/-- An operand alone is an expression. -/
theorem Reads.alone {e : Expr} (h : Reads file behind .unary input e rest)
    (hnext : (nextKind behind rest).level? = none) : Reads file behind .expression input e rest :=
  .expression h .noLink hnext

/-- The expression reads back from tokens that spell it, if what follows cannot continue it: it is no
operator, no step, and no parenthesis that would make a call of a name. -/
def ReadsBack (file : String) (behind : Kind) (e : Expr) (lexemes : List Lexeme) : Prop :=
  ∀ ⦃w : List Token⦄ (rest : List Token), Spells w lexemes → (nextKind behind rest).level? = none →
    nextKind behind rest ≠ .mark .leftParen →
    ∃ e', Reads file behind .expression (w ++ rest) e' rest ∧ e'.bare = e.bare

/-- An operand in parentheses reads back whatever follows. -/
theorem ReadsBack.operand {e : Expr} (h : ReadsBack file behind e e.lexemes) (rest : List Token)
    (hw : Spells w (parenthesized e.lexemes)) :
    ∃ e', Reads file behind .primary (w ++ rest) e' rest ∧ e'.bare = e.bare := by
  obtain ⟨l, u, r, rfl, hl, hu, hr⟩ := hw.parenthesized
  obtain ⟨e', he', hbare⟩ := h (r :: rest) hu (by rw [nextKind_cons, hr]; rfl)
    (by rw [nextKind_cons, hr]; simp)
  rw [List.cons_append, List.append_assoc]
  exact ⟨e', .parens hl hr he', hbare⟩

theorem ReadsBack.parenthesized {e : Expr} (h : ReadsBack file behind e e.lexemes) :
    ReadsBack file behind e (parenthesized e.lexemes) := by
  intro w rest hw hlevel _
  obtain ⟨e', he', hbare⟩ := h.operand rest hw
  exact ⟨e', .alone (.unary he') hlevel, hbare⟩

/-- An expression of a single token. -/
theorem readsBack_token {e : Expr} {l : Lexeme}
    (h : ∀ {t : Token} {rest : List Token}, t.bare = l →
      nextKind behind rest ≠ .mark .leftParen →
      ∃ e', Reads file behind .primary (t :: rest) e' rest ∧ e'.bare = e.bare) :
    ReadsBack file behind e [l] := by
  intro w rest hw hlevel hparen
  obtain ⟨t, v, rfl, ht, hv⟩ := hw.cons
  obtain rfl := Spells.nil_iff.mp hv
  obtain ⟨e', he', hbare⟩ := h ht hparen
  exact ⟨e', .alone (.unary he') hlevel, hbare⟩

theorem readsBack_int (value : UInt64) (loc : Location) :
    ReadsBack file behind (.int value loc) (Expr.int value loc).lexemes := by
  rw [Expr.lexemes]
  refine readsBack_token fun {t rest} ht _ => ⟨_, .number (Token.bare_kind ht), ?_⟩
  rw [numberTree, numeral?_toString (Token.bare_kind ht) (Token.bare_text ht)
    value.toNat_lt]
  dsimp only
  rw [Expr.bare, Expr.bare, Nat.toUInt64_eq, UInt64.ofNat_toNat]

theorem readsBack_bool (value : Bool) (loc : Location) :
    ReadsBack file behind (.bool value loc) (Expr.bool value loc).lexemes := by
  rw [Expr.lexemes]
  refine readsBack_token fun {t rest} ht _ =>
    ⟨.bool value ⟨file, t.position⟩, .bool (Token.bare_kind ht), ?_⟩
  rw [Expr.bare, Expr.bare]

theorem readsBack_string (value : String) (loc : Location) :
    ReadsBack file behind (.string value loc) (Expr.string value loc).lexemes := by
  rw [Expr.lexemes]
  refine readsBack_token fun {t rest} ht _ => ⟨_, .string (Token.bare_kind ht), ?_⟩
  have htext : t.lexeme = quoted '"' value.toList := Token.bare_text ht
  rw [htext, withoutDelimiters_quoted, String.ofList_toList, Expr.bare, Expr.bare]

theorem readsBack_char {value : Char} (h : value ≠ '\\') (loc : Location) :
    ReadsBack file behind (.char value loc) (Expr.char value loc).lexemes := by
  rw [Expr.lexemes]
  refine readsBack_token fun {t rest} ht _ => ⟨_, .char (Token.bare_kind ht), ?_⟩
  have htext : t.lexeme = quoted '\'' (charText value) := Token.bare_text ht
  rw [charTree, htext, withoutDelimiters_quoted, unescape?_charText h]
  dsimp only
  rw [Expr.bare, Expr.bare]

theorem readsBack_ident (name : String) (loc : Location) :
    ReadsBack file behind (.ident name loc) (Expr.ident name loc).lexemes := by
  rw [Expr.lexemes]
  refine readsBack_token fun {t rest} ht hparen =>
    ⟨_, .name (Token.bare_kind ht) hparen, ?_⟩
  have htext : t.lexeme = name := Token.bare_text ht
  rw [htext, Expr.bare, Expr.bare]

theorem readsBack_unary {op : UnaryOp} {operand : Expr}
    (h : ReadsBack file behind operand operand.lexemes) (loc : Location) :
    ReadsBack file behind (.unary op operand loc) (Expr.unary op operand loc).lexemes := by
  intro w rest hw hlevel _
  rw [Expr.lexemes] at hw
  obtain ⟨t, v, rfl, ht, hv⟩ := hw.cons
  obtain ⟨e, he, hbare⟩ := h.operand rest hv
  refine ⟨_, .alone (.unaryOp (Token.bare_kind ht) (.unary he)) hlevel, ?_⟩
  rw [Expr.bare, Expr.bare, hbare]

theorem readsBack_binary {op : BinaryOp} {lhs rhs : Expr}
    (hl : ReadsBack file behind lhs lhs.lexemes) (hr : ReadsBack file behind rhs rhs.lexemes)
    (loc : Location) :
    ReadsBack file behind (.binary op lhs rhs loc) (Expr.binary op lhs rhs loc).lexemes := by
  intro w rest hw hlevel _
  rw [Expr.lexemes] at hw
  obtain ⟨u, v, rfl, hu, hv⟩ := hw.append
  obtain ⟨t, v, rfl, ht, hv'⟩ := hv.cons
  obtain ⟨l, hl', hlbare⟩ := hl.operand (t :: (v ++ rest)) hu
  obtain ⟨r, hr', hrbare⟩ := hr.operand rest hv'
  rw [List.append_assoc]
  refine ⟨_, .expression (.unary hl') (.operator (Token.bare_kind ht) (.unary hr') .noLink) hlevel,
    ?_⟩
  show (Expr.binary op l r ⟨file, t.position⟩).bare = _
  rw [Expr.bare, Expr.bare, hlbare, hrbare]

theorem readsBack_step {step : Step} {overflow : Overflow} {fixity : Fixity} {operand : Expr}
    (h : ReadsBack file behind operand operand.lexemes) (loc : Location) :
    ReadsBack file behind (.step step overflow fixity operand loc)
      (Expr.step step overflow fixity operand loc).lexemes := by
  intro w rest hw hlevel _
  cases fixity with
  | before =>
      rw [Expr.lexemes] at hw
      obtain ⟨t, v, rfl, ht, hv⟩ := hw.cons
      obtain ⟨e, he, hbare⟩ := h.operand rest hv
      refine ⟨_, .alone (.stepBefore (Token.bare_kind ht) he) hlevel, ?_⟩
      rw [Expr.bare, Expr.bare, hbare]
  | after =>
      rw [Expr.lexemes] at hw
      obtain ⟨u, t, rfl, hu, ht⟩ := hw.concat
      obtain ⟨e, he, hbare⟩ := h.operand (t :: rest) hu
      rw [List.append_assoc]
      refine ⟨_, .expression (.unary he) (.stepAfter (Token.bare_kind ht) .noLink) hlevel, ?_⟩
      show (Expr.step step overflow .after e ⟨file, t.position⟩).bare = _
      rw [Expr.bare, Expr.bare, hbare]

theorem Expr.bareAll_cons (e : Expr) (es : List Expr) :
    Expr.bareAll (e :: es) = e.bare :: Expr.bareAll es := by
  rw [Expr.bareAll]

theorem argumentLexemes_eq_map (es : List Expr) :
    Expr.argumentLexemes es = es.map fun e => Lexeme.parenthesized e.lexemes := by
  induction es with
  | nil => rw [Expr.argumentLexemes, List.map_nil]
  | cons e es ih => rw [Expr.argumentLexemes, List.map_cons, ih]

/-- Expressions with commas between them read back if each of them does. -/
theorem reads_commaSeparated {es : List Expr} {lexemes : Expr → List Lexeme} (rest : List Token)
    (hne : es ≠ [])
    (h : ∀ e ∈ es, ReadsBack file behind e (lexemes e))
    (hw : Spells w (commaSeparated (es.map lexemes)))
    (hlevel : (nextKind behind rest).level? = none)
    (hparen : nextKind behind rest ≠ .mark .leftParen)
    (hcomma : nextKind behind rest ≠ .mark .comma) :
    ∃ es', Reads file behind .expressions (w ++ rest) es' rest ∧
      Expr.bareAll es' = Expr.bareAll es := by
  induction es generalizing w with
  | nil => exact absurd rfl hne
  | cons e es ih =>
      have he := h e List.mem_cons_self
      cases es with
      | nil =>
          obtain ⟨e', he', hbare⟩ := he rest hw hlevel hparen
          refine ⟨[e'], .lastExpression he' hcomma, ?_⟩
          rw [Expr.bareAll_cons, Expr.bareAll_cons, hbare]
      | cons e₂ es =>
          rw [List.map_cons, List.map_cons, commaSeparated_cons_cons] at hw
          obtain ⟨u, v, rfl, hu, hv⟩ := hw.append
          obtain ⟨t, v, rfl, ht, hv'⟩ := hv.cons
          have hk : t.kind = .mark .comma := Token.bare_kind ht
          obtain ⟨es', hes', hbares⟩ := ih (by simp) (fun e he => h e (List.mem_cons_of_mem _ he)) hv'
          -- the comma ends the expression in front of it
          obtain ⟨e', he', hbare⟩ := he (t :: (v ++ rest)) hu
            (by rw [nextKind_cons, hk]; rfl) (by rw [nextKind_cons, hk]; simp)
          rw [List.append_assoc]
          refine ⟨e' :: es', .moreExpressions he' hk hes', ?_⟩
          rw [Expr.bareAll_cons e', Expr.bareAll_cons e, hbare, hbares]

theorem readsBack_call {callee : String} {args : List Expr}
    (h : ∀ e ∈ args, ReadsBack file behind e e.lexemes) (loc : Location) :
    ReadsBack file behind (.call callee args loc) (Expr.call callee args loc).lexemes := by
  intro w rest hw hlevel _
  rw [Expr.lexemes, argumentLexemes_eq_map] at hw
  obtain ⟨t, v, rfl, ht, hv⟩ := hw.cons
  obtain ⟨l, u, r, rfl, hl, hu, hr⟩ := hv.parenthesized
  -- no arguments are read in another way than some
  have hargs : ∃ args', Reads file behind .arguments (u ++ r :: rest) args' (r :: rest) ∧
      Expr.bareAll args' = Expr.bareAll args := by
    by_cases hne : args = []
    · subst hne
      rw [Spells.nil_iff.mp hu]
      exact ⟨[], .noArguments hr, rfl⟩
    · obtain ⟨args', hargs', hbare⟩ :=
        reads_commaSeparated (r :: rest) hne (fun e he => (h e he).parenthesized) hu
          (by rw [nextKind_cons, hr]; rfl) (by rw [nextKind_cons, hr]; simp)
          (by rw [nextKind_cons, hr]; simp)
      exact ⟨args', .arguments hargs', hbare⟩
  obtain ⟨args', hargs', hbare⟩ := hargs
  have htext : t.lexeme = callee := Token.bare_text ht
  rw [List.cons_append, List.cons_append, List.append_assoc]
  refine ⟨_, .alone (.unary (.call (Token.bare_kind ht) hl hr hargs')) hlevel, ?_⟩
  rw [htext, Expr.bare, Expr.bare, hbare]

variable (file behind)

mutual

/-- A printable expression reads back. -/
theorem Expr.readsBack : ∀ {e : Expr}, e.Printable → ReadsBack file behind e e.lexemes
  | .int value loc, _ => readsBack_int value loc
  | .float _ _, h => h.elim
  | .bool value loc, _ => readsBack_bool value loc
  | .string value loc, _ => readsBack_string value loc
  | .char _ loc, h => readsBack_char h loc
  | .ident name loc, _ => readsBack_ident name loc
  | .unary _ operand loc, h => readsBack_unary (Expr.readsBack (e := operand) h) loc
  | .binary _ _ _ loc, h => readsBack_binary (Expr.readsBack h.1) (Expr.readsBack h.2) loc
  | .step _ _ _ operand loc, h => readsBack_step (Expr.readsBack (e := operand) h) loc
  | .call _ _ loc, h => readsBack_call (Expr.readsBack_all h.2) loc

theorem Expr.readsBack_all : ∀ {es : List Expr}, Expr.AllPrintable es →
    ∀ e ∈ es, ReadsBack file behind e e.lexemes
  | [], _ => by simp
  | _ :: _, h => List.forall_mem_cons.mpr ⟨Expr.readsBack h.1, Expr.readsBack_all h.2⟩

end

end

end FrontEnd.Grammar
