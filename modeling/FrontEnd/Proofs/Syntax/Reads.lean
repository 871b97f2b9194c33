import FrontEnd.Proofs.Syntax.Derives
import FrontEnd.Proofs.Syntax.Grouping

set_option autoImplicit false

/-! # How token lists read as trees

`Reads file behind p input value rest` says that the tokens `input` start with a phrase `p`, that
this phrase has the tree `value`, and that it is followed by the tokens `rest`. The rules follow
the grammar and know neither states nor fuel. Where the grammar leaves open how much a phrase
takes, the longest reading is meant: a chain of operands goes on as long as a link follows, and a
name with a parenthesis behind it is a call.

The grouping of a chain is that of `Grouping.extendAll`. The other relations read types, heads of
functions, statements and files in the same manner.

These relations stand between the grammar and the parsers. Each of the two is compared with them by an
induction of its own, and no proof has to look at derivations and at states together.
-/

namespace FrontEnd.Grammar

/-! ## Expressions -/

/-- The tree of a number. One that has no value leaves a zero, so that reading can go on. -/
def numberTree (file : String) (t : Token) : Expr :=
  match t.numeral? with
  | some (.int value) => .int value ⟨file, t.position⟩
  | some (.float value) => .float value ⟨file, t.position⟩
  | none => .int 0 ⟨file, t.position⟩

/-- The tree of a character literal. -/
def charTree (file : String) (t : Token) : Expr :=
  match unescape? (withoutDelimiters t.lexeme) with
  | some c => .char c ⟨file, t.position⟩
  | none => .char '\x00' ⟨file, t.position⟩

/-- What a phrase reads as. -/
abbrev Phrase.Value : Phrase → Type
  | .primary | .unary | .expression => Expr
  | .links => List Link
  | .expressions | .arguments => List Expr

/-- The tokens at the start of a list read as a phrase, with a value and the tokens behind. Where
the list ends the next token is of the kind `behind`. -/
inductive Reads (file : String) (behind : Kind) :
    (p : Phrase) → List Token → p.Value → List Token → Prop where
  | number {t : Token} {rest : List Token} (ht : t.kind = .number) :
      Reads file behind .primary (t :: rest) (numberTree file t) rest
  | bool {t : Token} {rest : List Token} {value : Bool}
      (ht : t.kind = .word (if value then .trueWord else .falseWord)) :
      Reads file behind .primary (t :: rest) (Expr.bool value ⟨file, t.position⟩) rest
  | string {t : Token} {rest : List Token} (ht : t.kind = .stringLiteral) :
      Reads file behind .primary (t :: rest)
        (Expr.string (String.ofList (withoutDelimiters t.lexeme)) ⟨file, t.position⟩) rest
  | char {t : Token} {rest : List Token} (ht : t.kind = .charLiteral) :
      Reads file behind .primary (t :: rest) (charTree file t) rest
  | name {t : Token} {rest : List Token} (ht : t.kind = .identifier)
      (hnext : nextKind behind rest ≠ .mark .leftParen) :
      Reads file behind .primary (t :: rest) (Expr.ident t.lexeme ⟨file, t.position⟩) rest
  | call {t l r : Token} {input rest : List Token} {args : List Expr} (ht : t.kind = .identifier)
      (hl : l.kind = .mark .leftParen) (hr : r.kind = .mark .rightParen)
      (hargs : Reads file behind .arguments input args (r :: rest)) :
      Reads file behind .primary (t :: l :: input) (Expr.call t.lexeme args ⟨file, t.position⟩) rest
  | parens {l r : Token} {input rest : List Token} {e : Expr} (hl : l.kind = .mark .leftParen)
      (hr : r.kind = .mark .rightParen) (he : Reads file behind .expression input e (r :: rest)) :
      Reads file behind .primary (l :: input) e rest
  | unaryOp {t : Token} {input rest : List Token} {op : UnaryOp} {e : Expr}
      (ht : t.kind = op.kind) (he : Reads file behind .unary input e rest) :
      Reads file behind .unary (t :: input) (Expr.unary op e ⟨file, t.position⟩) rest
  | stepBefore {t : Token} {input rest : List Token} {step : Step} {overflow : Overflow} {e : Expr}
      (ht : t.kind = .step step overflow) (he : Reads file behind .primary input e rest) :
      Reads file behind .unary (t :: input)
        (Expr.step step overflow .before e ⟨file, t.position⟩) rest
  | unary {input rest : List Token} {e : Expr} (he : Reads file behind .primary input e rest) :
      Reads file behind .unary input e rest
  | noLink {rest : List Token} : Reads file behind .links rest [] rest
  | stepAfter {t : Token} {input rest : List Token} {step : Step} {overflow : Overflow}
      {xs : List Link} (ht : t.kind = .step step overflow)
      (hxs : Reads file behind .links input xs rest) :
      Reads file behind .links (t :: input) (Link.step step overflow ⟨file, t.position⟩ :: xs) rest
  | operator {t : Token} {input mid rest : List Token} {op : BinaryOp} {e : Expr} {xs : List Link}
      (ht : t.kind = .operator op) (he : Reads file behind .unary input e mid)
      (hxs : Reads file behind .links mid xs rest) :
      Reads file behind .links (t :: input) (Link.operator op ⟨file, t.position⟩ e :: xs) rest
  | expression {input mid rest : List Token} {e : Expr} {xs : List Link}
      (he : Reads file behind .unary input e mid) (hxs : Reads file behind .links mid xs rest)
      (hnext : (nextKind behind rest).level? = none) :
      Reads file behind .expression input ((Grouping.operand e).extendAll xs).tree rest
  | lastExpression {input rest : List Token} {e : Expr}
      (he : Reads file behind .expression input e rest)
      (hnext : nextKind behind rest ≠ .mark .comma) :
      Reads file behind .expressions input [e] rest
  | moreExpressions {t : Token} {input mid rest : List Token} {e : Expr} {es : List Expr}
      (he : Reads file behind .expression input e (t :: mid)) (ht : t.kind = .mark .comma)
      (hes : Reads file behind .expressions mid es rest) :
      Reads file behind .expressions input (e :: es) rest
  | noArguments {rest : List Token} (hnext : nextKind behind rest = .mark .rightParen) :
      Reads file behind .arguments rest [] rest
  | arguments {input rest : List Token} {es : List Expr}
      (hes : Reads file behind .expressions input es rest) :
      Reads file behind .arguments input es rest

namespace Reads

variable {file : String} {behind : Kind} {p : Phrase} {input rest : List Token} {v : p.Value}

/-- A phrase leaves an end of the tokens. -/
theorem suffix (h : Reads file behind p input v rest) : rest <:+ input := by
  induction h with
  | number | bool | string | char | name => exact List.suffix_cons _ _
  | call _ _ _ _ ih =>
      exact ((List.suffix_cons _ _).trans ih).trans
        ((List.suffix_cons _ _).trans (List.suffix_cons _ _))
  | parens _ _ _ ih => exact ((List.suffix_cons _ _).trans ih).trans (List.suffix_cons _ _)
  | unaryOp _ _ ih | stepBefore _ _ ih | stepAfter _ _ ih => exact ih.trans (List.suffix_cons _ _)
  | unary _ ih | lastExpression _ _ ih | arguments _ ih => exact ih
  | noLink | noArguments => exact List.suffix_rfl
  | operator _ _ _ ihe ihxs => exact (ihxs.trans ihe).trans (List.suffix_cons _ _)
  | expression _ _ _ ihe ihxs => exact ihxs.trans ihe
  | moreExpressions _ _ _ ihe ihes => exact (ihes.trans (List.suffix_cons _ _)).trans ihe

theorem length_le (h : Reads file behind p input v rest) : rest.length ≤ input.length :=
  h.suffix.length_le

/-- A phrase starts as it should. -/
theorem startsWith (h : Reads file behind p input v rest) :
    p.StartsWith (nextKind behind input) := by
  induction h with
  | number ht | string ht | char ht | name ht | call ht | parens ht =>
      simp [Phrase.StartsWith, ht, startsPrimary, isLiteral]
  | @bool t rest value ht => cases value <;> simp [Phrase.StartsWith, ht, startsPrimary, isLiteral]
  | @unaryOp t _ _ op _ ht =>
      simp [Phrase.StartsWith, ht, startsExpression, isUnarySign_kind]
  | stepBefore ht => simp [Phrase.StartsWith, ht, startsExpression, Kind.isStep]
  | unary _ ih => exact startsExpression_of_startsPrimary ih
  | noLink | stepAfter | operator | noArguments | arguments => trivial
  | expression _ _ _ ih | lastExpression _ _ ih | moreExpressions _ _ _ ih => exact ih

theorem startsExpression_ne_invalid {kind : Kind} (h : startsExpression kind) :
    kind ≠ .invalid := by
  rintro rfl
  cases h

/-- A phrase does not start with an invalid token, unless it is empty and followed by one. -/
theorem next_ne_invalid (h : Reads file behind p input v rest)
    (hrest : nextKind behind rest ≠ .invalid) : nextKind behind input ≠ .invalid := by
  have hstart := h.startsWith
  cases h with
  | noLink => exact hrest
  | stepAfter ht | operator ht => rw [nextKind_cons, ht]; simp
  | noArguments hnext => rw [hnext]; simp
  | arguments hes => exact startsExpression_ne_invalid hes.startsWith
  | number | bool | string | char | name | call | parens =>
      exact startsExpression_ne_invalid (startsExpression_of_startsPrimary hstart)
  | unaryOp | stepBefore | unary | expression | lastExpression | moreExpressions =>
      exact startsExpression_ne_invalid hstart

/-- An operand is not empty. -/
theorem unary_length_lt {p : Phrase} {v : p.Value}
    (h : Reads file behind p input v rest) (hp : p = .primary ∨ p = .unary) :
    rest.length < input.length := by
  -- each kind of operand starts with a token of its own, or is one that does
  induction h with
  | number | bool | string | char | name => simp
  | call _ _ _ hargs _ =>
      have := hargs.length_le
      simp only [List.length_cons] at this ⊢
      omega
  | parens _ _ he _ =>
      have := he.length_le
      simp only [List.length_cons] at this ⊢
      omega
  | unaryOp _ _ ih =>
      have := ih (.inr rfl)
      simp only [List.length_cons] at this ⊢
      omega
  | stepBefore _ _ ih =>
      have := ih (.inl rfl)
      simp only [List.length_cons] at this ⊢
      omega
  | unary _ ih => exact ih (.inl rfl)
  | _ => simp at hp

end Reads

end FrontEnd.Grammar
