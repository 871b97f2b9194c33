import FrontEnd.Grammar.File

set_option autoImplicit false

/-! # The grammar

`Derives p w` says that the tokens `w` are an expression, or a part `p` of one. `Forms p next w` says
the same of bindings, blocks and statements that are followed by a token of the kind `next`;
the only phrase that depends on `next` is a `return` without values and without a semicolon.
`DerivesFile` puts declarations together.

Both look at the kinds of tokens alone, and know nothing of how the tokens are read. They leave
open where a phrase ends: in a block, `a ++ b ;` is a step behind `a` and the statement `b ;`, but
would be `a` and `++ b ;` too if a binding ended in `a`.

Which kinds may stand at a place is listed here, for the grammar alone. The parsers have lists of
their own; that the two agree is shown where they meet (`unaryOp?_eq_some_iff`, `endsReturn_eq`). -/

namespace FrontEnd

/-- The token for an operator in front of an operand. -/
def UnaryOp.kind : UnaryOp → Kind
  | .negate => .operator (.sub .plain)
  | .not => .mark .bang
  | .complement => .mark .tilde

namespace Grammar

/-- The kind of the first of some tokens, or the kind `behind` if there are none. -/
def nextKind (behind : Kind) : List Token → Kind
  | [] => behind
  | t :: _ => t.kind

@[simp] theorem nextKind_nil (behind : Kind) : nextKind behind [] = behind := rfl

@[simp] theorem nextKind_cons (behind : Kind) (t : Token) (rest : List Token) :
    nextKind behind (t :: rest) = t.kind := rfl

theorem nextKind_append (behind : Kind) (w rest : List Token) :
    nextKind behind (w ++ rest) = nextKind (nextKind behind rest) w := by
  cases w <;> rfl

/-! ## Expressions -/

/-- The tokens that are an operand by themselves, names apart. -/
def isLiteral : Kind → Bool
  | .number | .word .trueWord | .word .falseWord | .stringLiteral | .charLiteral => true
  | _ => false

/-- The tokens that an operand without operators in front of it starts with. -/
def startsPrimary : Kind → Bool
  | .identifier | .mark .leftParen => true
  | kind => isLiteral kind

/-- The signs that may stand in front of an operand. -/
def isUnarySign : Kind → Bool
  | .operator (.sub .plain) | .mark .bang | .mark .tilde => true
  | _ => false

theorem isUnarySign_kind (op : UnaryOp) : isUnarySign op.kind := by
  cases op <;> rfl

/-- Every one of these signs stands for an operator. -/
theorem exists_of_isUnarySign {kind : Kind} (h : isUnarySign kind) :
    ∃ op : UnaryOp, kind = op.kind := by
  unfold isUnarySign at h
  split at h
  · exact ⟨.negate, rfl⟩
  · exact ⟨.not, rfl⟩
  · exact ⟨.complement, rfl⟩
  · cases h

/-- The tokens that an expression starts with. -/
def startsExpression (kind : Kind) : Bool :=
  isUnarySign kind || kind.isStep || startsPrimary kind

/-- The parts of an expression. -/
inductive Phrase where
  | primary
  | unary
  /-- Steps and further operands behind the first operand. -/
  | links
  | expression
  | expressions
  | arguments

/-- The phrase starts with a token of a kind that is right for it. Links and arguments may be
empty. -/
def Phrase.StartsWith : Phrase → Kind → Prop
  | .primary, kind => startsPrimary kind
  | .unary, kind | .expression, kind | .expressions, kind => startsExpression kind
  | .links, _ | .arguments, _ => True

theorem startsExpression_of_startsPrimary {kind : Kind} (h : startsPrimary kind) :
    startsExpression kind := by
  unfold startsExpression
  rw [h, Bool.or_true]

/-- The tokens are a phrase of an expression. An expression is an operand and the links behind it,
with no account of precedence: how the operands are grouped is a matter of trees. -/
inductive Derives : Phrase → List Token → Prop where
  | literal {t : Token} (ht : isLiteral t.kind) : Derives .primary [t]
  | name {t : Token} (ht : t.kind = .identifier) : Derives .primary [t]
  | call {t l r : Token} {args : List Token} (ht : t.kind = .identifier)
      (hl : l.kind = .mark .leftParen) (hargs : Derives .arguments args)
      (hr : r.kind = .mark .rightParen) : Derives .primary (t :: l :: (args ++ [r]))
  | parens {l r : Token} {e : List Token} (hl : l.kind = .mark .leftParen)
      (he : Derives .expression e) (hr : r.kind = .mark .rightParen) :
      Derives .primary (l :: (e ++ [r]))
  | unaryOp {t : Token} {w : List Token} (ht : isUnarySign t.kind) (hw : Derives .unary w) :
      Derives .unary (t :: w)
  | stepBefore {t : Token} {w : List Token} (ht : t.kind.isStep) (hw : Derives .primary w) :
      Derives .unary (t :: w)
  | unary {w : List Token} (hw : Derives .primary w) : Derives .unary w
  | noLink : Derives .links []
  | stepAfter {t : Token} {w : List Token} (ht : t.kind.isStep) (hw : Derives .links w) :
      Derives .links (t :: w)
  | operator {t : Token} {w links : List Token} (ht : t.kind.binaryOp?.isSome)
      (hw : Derives .unary w) (hlinks : Derives .links links) :
      Derives .links (t :: (w ++ links))
  | expression {w links : List Token} (hw : Derives .unary w) (hlinks : Derives .links links) :
      Derives .expression (w ++ links)
  | oneExpression {e : List Token} (he : Derives .expression e) : Derives .expressions e
  | moreExpressions {comma : Token} {e es : List Token} (he : Derives .expression e)
      (hcomma : comma.kind = .mark .comma) (hes : Derives .expressions es) :
      Derives .expressions (e ++ comma :: es)
  | noArguments : Derives .arguments []
  | arguments {es : List Token} (hes : Derives .expressions es) : Derives .arguments es

/-- A chain of links behind another is one chain. -/
theorem Derives.links_append {v w : List Token} (hv : Derives .links v) (hw : Derives .links w) :
    Derives .links (v ++ w) := by
  generalize hp : Phrase.links = p at hv
  induction hv with
  | noLink => exact hw
  | stepAfter ht _ ih => exact .stepAfter ht (ih hp)
  | operator ht hu _ _ ih =>
      rw [List.cons_append, List.append_assoc]
      exact .operator ht hu (ih hp)
  | _ => cases hp

/-! ## Types and the heads of functions -/

/-- A phrase that may be left out. -/
def Optional (P : List Token → Prop) (w : List Token) : Prop := w = [] ∨ P w

/-- The tokens are a single one of a kind. -/
def IsToken (kind : Kind) (w : List Token) : Prop := ∃ t, t.kind = kind ∧ w = [t]

/-- The tokens that are a type. -/
def isType : Kind → Bool
  | .builtin _ | .identifier => true
  | _ => false

/-- One or more types with commas between them. -/
inductive DerivesTypes : List Token → Prop where
  | one {t : Token} (ht : isType t.kind) : DerivesTypes [t]
  | more {t comma : Token} {w : List Token} (ht : isType t.kind)
      (hcomma : comma.kind = .mark .comma) (hw : DerivesTypes w) : DerivesTypes (t :: comma :: w)

/-- One or more arguments with commas between them, each a name with its type. -/
inductive DerivesParams : List Token → Prop where
  | one {n colon t : Token} (hn : n.kind = .identifier) (hcolon : colon.kind = .mark .colon)
      (ht : isType t.kind) : DerivesParams [n, colon, t]
  | more {n colon t comma : Token} {w : List Token} (hn : n.kind = .identifier)
      (hcolon : colon.kind = .mark .colon) (ht : isType t.kind)
      (hcomma : comma.kind = .mark .comma) (hw : DerivesParams w) :
      DerivesParams (n :: colon :: t :: comma :: w)

/-- Return types behind a colon. -/
inductive DerivesReturns : List Token → Prop where
  | returns {colon : Token} {w : List Token} (hcolon : colon.kind = .mark .colon)
      (hw : DerivesTypes w) : DerivesReturns (colon :: w)

/-- The head of a function from its name on. -/
inductive DerivesHead : List Token → Prop where
  | head {n l r : Token} {params returns : List Token} (hn : n.kind = .identifier)
      (hl : l.kind = .mark .leftParen) (hparams : Optional DerivesParams params)
      (hr : r.kind = .mark .rightParen) (hreturns : Optional DerivesReturns returns) :
      DerivesHead (n :: l :: (params ++ r :: returns))

/-! ## Statements -/

/-- The words that start a binding. -/
def isBindingWord : Kind → Bool
  | .word .letWord | .word .valWord | .word .constWord => true
  | _ => false

/-- The signs between a name and its first value that declare the name. -/
def isDefineSign : Kind → Bool
  | .mark .define | .mark .defineConst => true
  | _ => false

/-- The tokens that a statement starts with. -/
def startsStatement : Kind → Bool
  | .word .returnWord | .mark .leftBrace | .mark .semicolon => true
  | kind => isBindingWord kind || startsExpression kind

theorem startsStatement_of_startsExpression {kind : Kind} (h : startsExpression kind) :
    startsStatement kind := by
  unfold startsStatement
  split
  · rfl
  · rfl
  · rfl
  · rw [h, Bool.or_true]

theorem isBindingWord_cases {kind : Kind} (h : isBindingWord kind) :
    kind = .word .letWord ∨ kind = .word .valWord ∨ kind = .word .constWord := by
  unfold isBindingWord at h
  split at h
  · exact .inl rfl
  · exact .inr (.inl rfl)
  · exact .inr (.inr rfl)
  · cases h

theorem isDefineSign_cases {kind : Kind} (h : isDefineSign kind) :
    kind = .mark .define ∨ kind = .mark .defineConst := by
  unfold isDefineSign at h
  split at h
  · exact .inl rfl
  · exact .inr rfl
  · cases h

theorem startsStatement_of_isBindingWord {kind : Kind} (h : isBindingWord kind) :
    startsStatement kind := by
  unfold startsStatement
  split
  · rfl
  · rfl
  · rfl
  · rw [h, Bool.true_or]

/-- A type behind a colon. -/
inductive DerivesType : List Token → Prop where
  | type {colon t : Token} (hcolon : colon.kind = .mark .colon) (ht : isType t.kind) :
      DerivesType [colon, t]

/-- A first value behind an equals sign. -/
inductive DerivesInit : List Token → Prop where
  | init {sign : Token} {e : List Token} (hsign : sign.kind = .operator .assign)
      (he : Derives .expression e) : DerivesInit (sign :: e)

/-- The tokens that may stand directly behind the word of a `return` without values. -/
def isReturnEnd : Kind → Bool
  | .mark .semicolon | .mark .rightBrace | .endOfFile => true
  | _ => false

/-- A `return` that is followed by a token of the kind `next`. One without values needs a
semicolon, a closing brace or the end of the file directly behind the word. -/
inductive DerivesReturn (next : Kind) : List Token → Prop where
  | values {t : Token} {es semicolon : List Token} (ht : t.kind = .word .returnWord)
      (hes : Derives .expressions es) (hsemicolon : Optional (IsToken (.mark .semicolon)) semicolon) :
      DerivesReturn next (t :: (es ++ semicolon))
  | bare {t : Token} {semicolon : List Token} (ht : t.kind = .word .returnWord)
      (hsemicolon : Optional (IsToken (.mark .semicolon)) semicolon)
      (hend : isReturnEnd (nextKind next semicolon)) : DerivesReturn next (t :: semicolon)

/-- What blocks are made of. -/
inductive Form where
  /-- A declared name, or a block with a name. -/
  | binding
  | block
  | statement
  | statements

/-- The tokens are a phrase of a block, followed by a token of the kind `next`. In a sequence this
is the first token of the statements behind, and behind the last one the closing brace. -/
inductive Forms : Form → (next : Kind) → List Token → Prop where
  | keywordBinding {next : Kind} {k n : Token} {type init semicolon : List Token}
      (hk : isBindingWord k.kind) (hn : n.kind = .identifier) (htype : Optional DerivesType type)
      (hinit : Optional DerivesInit init)
      (hsemicolon : Optional (IsToken (.mark .semicolon)) semicolon) :
      Forms .binding next (k :: n :: (type ++ (init ++ semicolon)))
  | define {next : Kind} {n sign : Token} {e semicolon : List Token} (hn : n.kind = .identifier)
      (hsign : isDefineSign sign.kind) (he : Derives .expression e)
      (hsemicolon : Optional (IsToken (.mark .semicolon)) semicolon) :
      Forms .binding next (n :: sign :: (e ++ semicolon))
  | typedBinding {next : Kind} {n colon t : Token} {init semicolon : List Token}
      (hn : n.kind = .identifier) (hcolon : colon.kind = .mark .colon) (ht : isType t.kind)
      (hinit : Optional DerivesInit init)
      (hsemicolon : Optional (IsToken (.mark .semicolon)) semicolon) :
      Forms .binding next (n :: colon :: t :: (init ++ semicolon))
  | namedBlock {next : Kind} {n colon : Token} {w : List Token} (hn : n.kind = .identifier)
      (hcolon : colon.kind = .mark .colon) (hw : Forms .block next w) :
      Forms .binding next (n :: colon :: w)
  | block {next : Kind} {l r : Token} {w : List Token} (hl : l.kind = .mark .leftBrace)
      (hw : Forms .statements (.mark .rightBrace) w) (hr : r.kind = .mark .rightBrace) :
      Forms .block next (l :: (w ++ [r]))
  | binding {next : Kind} {w : List Token} (hw : Forms .binding next w) : Forms .statement next w
  | ret {next : Kind} {w : List Token} (hw : DerivesReturn next w) : Forms .statement next w
  | inner {next : Kind} {w : List Token} (hw : Forms .block next w) : Forms .statement next w
  | semicolon {next : Kind} {t : Token} (ht : t.kind = .mark .semicolon) :
      Forms .statement next [t]
  | expression {next : Kind} {t : Token} {e : List Token} (he : Derives .expression e)
      (ht : t.kind = .mark .semicolon) : Forms .statement next (e ++ [t])
  | noStatement {next : Kind} : Forms .statements next []
  | moreStatements {next : Kind} {w rest : List Token}
      (hw : Forms .statement (nextKind next rest) w) (hrest : Forms .statements next rest) :
      Forms .statements next (w ++ rest)

/-! ## Files -/

/-- The tokens are a declaration, followed by a token of the kind `next`. -/
inductive DerivesDeclaration (next : Kind) : List Token → Prop where
  | namespaceLine {k n : Token} {semicolon : List Token} (hk : k.kind = .word .namespaceWord)
      (hn : n.kind = .identifier) (hsemicolon : Optional (IsToken (.mark .semicolon)) semicolon) :
      DerivesDeclaration next (k :: n :: semicolon)
  | function {k : Token} {head body : List Token}
      (hk : k.kind = .word .fnWord ∨ k.kind = .word .mdWord) (hhead : DerivesHead head)
      (hbody : Forms .block next body) : DerivesDeclaration next (k :: (head ++ body))
  | externFunction {k f : Token} {head semicolon : List Token} (hk : k.kind = .word .externWord)
      (hf : f.kind = .word .fnWord) (hhead : DerivesHead head)
      (hsemicolon : Optional (IsToken (.mark .semicolon)) semicolon) :
      DerivesDeclaration next (k :: f :: (head ++ semicolon))
  | binding {w : List Token} (hw : Forms .binding next w) : DerivesDeclaration next w
  | ret {w : List Token} (hw : DerivesReturn next w) : DerivesDeclaration next w

/-- The tokens are a whole file: declarations one after the other up to the end of the file. -/
inductive DerivesFile : List Token → Prop where
  | empty : DerivesFile []
  | declaration {w rest : List Token} (hw : DerivesDeclaration (nextKind .endOfFile rest) w)
      (hrest : DerivesFile rest) : DerivesFile (w ++ rest)

/-! ## The lists of the parsers

A parser asks which operator a token stands for, where the grammar says which token an operator is
written as. -/

/-- The parser takes a token for the operator that is written as this token. -/
theorem unaryOp?_eq_some_iff {kind : Kind} {op : UnaryOp} :
    Parser.unaryOp? kind = some op ↔ kind = op.kind := by
  constructor
  · intro h
    unfold Parser.unaryOp? at h
    split at h <;> cases h <;> rfl
  · rintro rfl
    cases op <;> rfl

theorem isUnarySign_of_unaryOp? {kind : Kind} {op : UnaryOp} (h : Parser.unaryOp? kind = some op) :
    isUnarySign kind := by
  rw [unaryOp?_eq_some_iff.mp h]
  exact isUnarySign_kind op

/-- The parser expects no values in front of the tokens that may follow a `return` without any. -/
theorem endsReturn_eq (kind : Kind) : Parser.endsReturn kind = isReturnEnd kind := rfl

end Grammar

end FrontEnd
