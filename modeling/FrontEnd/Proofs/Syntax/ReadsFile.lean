import FrontEnd.Proofs.Syntax.Reads

set_option autoImplicit false

/-! # How statements and files read

The relations for types, heads of functions, statements and declarations, in the manner of `Reads`.
What may be left out is read whenever it is there: a semicolon behind a binding belongs to it.
A function without a written return type returns `void` at the place of the token behind its
arguments, so these relations know the token at the end of the file.

Statements have a relation for each of their forms, in one inductive family, as a block is made of
statements and a statement may be a block. A semicolon that stands alone is read and leaves no tree,
so the tree of a statement is optional. A second namespace line leaves none either, and the relation
for files knows whether there was a first one.
-/

namespace FrontEnd.Grammar

variable (file : String) (finish : Token)

/-! ## Types and the heads of functions -/

/-- The tree of a type. -/
def typeTree (t : Token) : TypeExpr :=
  if t.kind = .builtin .void then .void ⟨file, t.position⟩ else .named t.lexeme ⟨file, t.position⟩

/-- One or more types with commas between them. -/
inductive ReadsTypes : List Token → List TypeExpr → List Token → Prop where
  | last {t : Token} {rest : List Token} (ht : isType t.kind)
      (hnext : nextKind finish.kind rest ≠ .mark .comma) :
      ReadsTypes (t :: rest) [typeTree file t] rest
  | more {t comma : Token} {input rest : List Token} {types : List TypeExpr} (ht : isType t.kind)
      (hcomma : comma.kind = .mark .comma) (htypes : ReadsTypes input types rest) :
      ReadsTypes (t :: comma :: input) (typeTree file t :: types) rest

/-- The tree of an argument. -/
def paramTree (n t : Token) : Param := ⟨n.lexeme, typeTree file t, ⟨file, n.position⟩⟩

/-- One or more arguments with commas between them. -/
inductive ReadsParams : List Token → List Param → List Token → Prop where
  | last {n colon t : Token} {rest : List Token} (hn : n.kind = .identifier)
      (hcolon : colon.kind = .mark .colon) (ht : isType t.kind)
      (hnext : nextKind finish.kind rest ≠ .mark .comma) :
      ReadsParams (n :: colon :: t :: rest) [paramTree file n t] rest
  | more {n colon t comma : Token} {input rest : List Token} {params : List Param}
      (hn : n.kind = .identifier) (hcolon : colon.kind = .mark .colon) (ht : isType t.kind)
      (hcomma : comma.kind = .mark .comma) (hparams : ReadsParams input params rest) :
      ReadsParams (n :: colon :: t :: comma :: input) (paramTree file n t :: params) rest

/-- The arguments between the parentheses of a function, the closing one included. -/
inductive ReadsParamList : List Token → List Param → List Token → Prop where
  | none {r : Token} {rest : List Token} (hr : r.kind = .mark .rightParen) :
      ReadsParamList (r :: rest) [] rest
  | some {r : Token} {input rest : List Token} {params : List Param}
      (hparams : ReadsParams file finish input params (r :: rest))
      (hr : r.kind = .mark .rightParen) : ReadsParamList input params rest

/-- The return types of a function. -/
inductive ReadsReturns (isExtern : Bool) : List Token → List TypeExpr → List Token → Prop where
  | written {colon : Token} {input rest : List Token} {types : List TypeExpr}
      (hcolon : colon.kind = .mark .colon) (htypes : ReadsTypes file finish input types rest) :
      ReadsReturns isExtern (colon :: input) types rest
  | none {rest : List Token} (hcolon : nextKind finish.kind rest ≠ .mark .colon)
      (hnext : isExtern ∨ nextKind finish.kind rest = .mark .leftBrace) :
      ReadsReturns isExtern rest [.void ⟨file, (rest.headD finish).position⟩] rest

/-- The kind of function that a keyword defines. -/
def functionKindOf (kind : Kind) : FunctionKind :=
  if kind = .word .mdWord then .method else .function

/-- The head of a function from its keyword on. -/
inductive ReadsHead (isExtern : Bool) : List Token → Prototype → List Token → Prop where
  | head {k n l : Token} {input mid rest : List Token} {params : List Param}
      {returns : List TypeExpr} (hn : n.kind = .identifier) (hl : l.kind = .mark .leftParen)
      (hparams : ReadsParamList file finish input params mid)
      (hreturns : ReadsReturns file finish isExtern mid returns rest) :
      ReadsHead isExtern (k :: n :: l :: input)
        ⟨n.lexeme, params, returns, functionKindOf k.kind, isExtern, ⟨file, n.position⟩⟩ rest

/-! ## Statements -/

/-- A semicolon that is read if it is there. -/
inductive ReadsSemicolon : List Token → List Token → Prop where
  | none {rest : List Token} (hnext : nextKind finish.kind rest ≠ .mark .semicolon) :
      ReadsSemicolon rest rest
  | some {t : Token} {rest : List Token} (ht : t.kind = .mark .semicolon) :
      ReadsSemicolon (t :: rest) rest

/-- The type of a binding. -/
inductive ReadsType : List Token → Option TypeExpr → List Token → Prop where
  | none {rest : List Token} (hnext : nextKind finish.kind rest ≠ .mark .colon) :
      ReadsType rest none rest
  | some {colon t : Token} {rest : List Token} (hcolon : colon.kind = .mark .colon)
      (ht : isType t.kind) : ReadsType (colon :: t :: rest) (some (typeTree file t)) rest

/-- The first value of a binding. -/
inductive ReadsInit : List Token → Option Expr → List Token → Prop where
  | none {rest : List Token} (hnext : nextKind finish.kind rest ≠ .operator .assign) :
      ReadsInit rest none rest
  | some {sign : Token} {input rest : List Token} {e : Expr} (hsign : sign.kind = .operator .assign)
      (he : Reads file finish.kind .expression input e rest) :
      ReadsInit (sign :: input) (some e) rest

/-- A `return`. -/
inductive ReadsReturn : List Token → Statement → List Token → Prop where
  | bare {t : Token} {input rest : List Token} (ht : t.kind = .word .returnWord)
      (hend : isReturnEnd (nextKind finish.kind input))
      (hsemicolon : ReadsSemicolon finish input rest) :
      ReadsReturn (t :: input) (.ret [] ⟨file, t.position⟩) rest
  | values {t : Token} {input mid rest : List Token} {es : List Expr}
      (ht : t.kind = .word .returnWord) (hes : Reads file finish.kind .expressions input es mid)
      (hsemicolon : ReadsSemicolon finish mid rest) :
      ReadsReturn (t :: input) (.ret es ⟨file, t.position⟩) rest

/-- What a phrase of a block reads as. -/
abbrev Form.Value : Form → Type
  | .binding => Statement
  | .block => List Statement × Location
  | .statement => Option Statement
  | .statements => List Statement

/-- The mutability that a sign between a name and its first value gives to the name. -/
def mutabilityOfSign (kind : Kind) : Mutability :=
  if kind = .mark .define then .mutable else .constant

/-- The tokens at the start of a list read as a phrase of a block. The statements of a block are
read with the closing brace. -/
inductive ReadsForm : (f : Form) → List Token → f.Value → List Token → Prop where
  | keywordBinding {k n : Token} {input mid mid' rest : List Token} {type : Option TypeExpr}
      {init : Option Expr} (hk : isBindingWord k.kind) (hn : n.kind = .identifier)
      (htype : ReadsType file finish input type mid) (hinit : ReadsInit file finish mid init mid')
      (hsemicolon : ReadsSemicolon finish mid' rest) :
      ReadsForm .binding (k :: n :: input)
        (Statement.bind
          ⟨n.lexeme, type, init, Parser.mutabilityOf k.kind, ⟨file, n.position⟩⟩) rest
  | define {n sign : Token} {input mid rest : List Token} {e : Expr} (hn : n.kind = .identifier)
      (hsign : isDefineSign sign.kind) (he : Reads file finish.kind .expression input e mid)
      (hsemicolon : ReadsSemicolon finish mid rest) :
      ReadsForm .binding (n :: sign :: input)
        (Statement.bind
          ⟨n.lexeme, none, some e, mutabilityOfSign sign.kind, ⟨file, n.position⟩⟩) rest
  | typedBinding {n colon t : Token} {input mid rest : List Token} {init : Option Expr}
      (hn : n.kind = .identifier) (hcolon : colon.kind = .mark .colon) (ht : isType t.kind)
      (hinit : ReadsInit file finish input init mid) (hsemicolon : ReadsSemicolon finish mid rest) :
      ReadsForm .binding (n :: colon :: t :: input)
        (Statement.bind
          ⟨n.lexeme, some (typeTree file t), init, .mutable, ⟨file, n.position⟩⟩) rest
  | namedBlock {n colon : Token} {input rest : List Token} {b : List Statement × Location}
      (hn : n.kind = .identifier) (hcolon : colon.kind = .mark .colon)
      (hb : ReadsForm .block input b rest) :
      ReadsForm .binding (n :: colon :: input)
        (Statement.namedBlock n.lexeme ⟨file, n.position⟩ b.1 b.2) rest
  | block {l : Token} {input rest : List Token} {nodes : List Statement}
      (hl : l.kind = .mark .leftBrace) (hnodes : ReadsForm .statements input nodes rest) :
      ReadsForm .block (l :: input) (nodes, (⟨file, l.position⟩ : Location)) rest
  | binding {input rest : List Token} {node : Statement} (h : ReadsForm .binding input node rest) :
      ReadsForm .statement input (some node) rest
  | ret {input rest : List Token} {node : Statement}
      (h : ReadsReturn file finish input node rest) : ReadsForm .statement input (some node) rest
  | inner {input rest : List Token} {b : List Statement × Location}
      (h : ReadsForm .block input b rest) :
      ReadsForm .statement input (some (Statement.block b.1 b.2)) rest
  | semicolon {t : Token} {rest : List Token} (ht : t.kind = .mark .semicolon) :
      ReadsForm .statement (t :: rest) none rest
  | expression {t : Token} {input rest : List Token} {e : Expr}
      (he : Reads file finish.kind .expression input e (t :: rest))
      (ht : t.kind = .mark .semicolon) :
      ReadsForm .statement input (some (Statement.expr e)) rest
  | noStatement {t : Token} {rest : List Token} (ht : t.kind = .mark .rightBrace) :
      ReadsForm .statements (t :: rest) [] rest
  | moreStatements {input mid rest : List Token} {node : Option Statement}
      {nodes : List Statement} (hnode : ReadsForm .statement input node mid)
      (hnodes : ReadsForm .statements mid nodes rest) :
      ReadsForm .statements input (node.toList ++ nodes) rest

/-! ## Files -/

/-- A declaration other than a namespace line. -/
inductive ReadsDeclaration : List Token → Declaration → List Token → Prop where
  | function {k : Token} {input mid rest : List Token} {head : Prototype}
      {body : List Statement × Location} (hk : k.kind = .word .fnWord ∨ k.kind = .word .mdWord)
      (hhead : ReadsHead file finish false (k :: input) head mid)
      (hbody : ReadsForm file finish .block mid body rest) :
      ReadsDeclaration (k :: input) (.function head body.1 body.2) rest
  | externFunction {k f : Token} {input mid rest : List Token} {head : Prototype}
      (hk : k.kind = .word .externWord) (hf : f.kind = .word .fnWord)
      (hhead : ReadsHead file finish true (f :: input) head mid)
      (hsemicolon : ReadsSemicolon finish mid rest) :
      ReadsDeclaration (k :: f :: input) (.externFunction head) rest
  | binding {input rest : List Token} {node : Statement}
      (h : ReadsForm file finish .binding input node rest) :
      ReadsDeclaration input (.statement node) rest
  | ret {input rest : List Token} {node : Statement}
      (h : ReadsReturn file finish input node rest) : ReadsDeclaration input (.statement node) rest

/-- All tokens of a file. A namespace line leaves no node if the file has one already, that is if
`named` holds. -/
inductive ReadsFile : (named : Bool) → List Token → List Declaration → Prop where
  | empty {named : Bool} : ReadsFile named [] []
  | namespaceLine {named : Bool} {k n : Token} {input mid : List Token}
      {nodes : List Declaration} (hk : k.kind = .word .namespaceWord) (hn : n.kind = .identifier)
      (hsemicolon : ReadsSemicolon finish input mid) (hnodes : ReadsFile true mid nodes) :
      ReadsFile named (k :: n :: input)
        (if named then nodes else .namespaceLine n.lexeme ⟨file, k.position⟩ :: nodes)
  | declaration {named : Bool} {input mid : List Token} {node : Declaration}
      {nodes : List Declaration} (hnode : ReadsDeclaration file finish input node mid)
      (hnodes : ReadsFile named mid nodes) : ReadsFile named input (node :: nodes)

/-! ## What is left behind

Every reading leaves a suffix of the tokens. So an induction on the tokens that are left follows all
readings. -/

section

variable {file : String} {finish : Token} {input rest : List Token}

theorem ReadsSemicolon.suffix (h : ReadsSemicolon finish input rest) : rest <:+ input := by
  cases h with
  | none => exact List.suffix_rfl
  | some => exact List.suffix_cons _ _

theorem ReadsTypes.suffix {types : List TypeExpr} (h : ReadsTypes file finish input types rest) :
    rest <:+ input := by
  induction h with
  | last => exact List.suffix_cons _ _
  | more _ _ _ ih => exact (ih.trans (List.suffix_cons _ _)).trans (List.suffix_cons _ _)

theorem ReadsParams.suffix {params : List Param} (h : ReadsParams file finish input params rest) :
    rest <:+ input := by
  induction h with
  | @last n colon t rest => exact ⟨[n, colon, t], rfl⟩
  | @more n colon t comma input rest _ _ _ _ _ _ ih =>
      exact ih.trans ⟨[n, colon, t, comma], rfl⟩

theorem ReadsParamList.suffix {params : List Param}
    (h : ReadsParamList file finish input params rest) : rest <:+ input := by
  cases h with
  | none => exact List.suffix_cons _ _
  | some hparams => exact (List.suffix_cons _ _).trans hparams.suffix

theorem ReadsReturns.suffix {isExtern : Bool} {types : List TypeExpr}
    (h : ReadsReturns file finish isExtern input types rest) : rest <:+ input := by
  cases h with
  | written _ htypes => exact htypes.suffix.trans (List.suffix_cons _ _)
  | none => exact List.suffix_rfl

theorem ReadsHead.suffix {isExtern : Bool} {head : Prototype}
    (h : ReadsHead file finish isExtern input head rest) : rest <:+ input := by
  cases h with
  | @head k n l more _ _ _ _ _ _ hparams hreturns =>
      exact (hreturns.suffix.trans hparams.suffix).trans ⟨[k, n, l], rfl⟩

theorem ReadsHead.length_lt {isExtern : Bool} {head : Prototype}
    (h : ReadsHead file finish isExtern input head rest) : rest.length < input.length := by
  cases h with
  | head _ _ hparams hreturns =>
      have := (hreturns.suffix.trans hparams.suffix).length_le
      simp only [List.length_cons]
      omega

theorem ReadsType.suffix {type : Option TypeExpr} (h : ReadsType file finish input type rest) :
    rest <:+ input := by
  cases h with
  | none => exact List.suffix_rfl
  | @some colon t => exact ⟨[colon, t], rfl⟩

theorem ReadsInit.suffix {init : Option Expr} (h : ReadsInit file finish input init rest) :
    rest <:+ input := by
  cases h with
  | none => exact List.suffix_rfl
  | some _ he => exact he.suffix.trans (List.suffix_cons _ _)

theorem ReadsReturn.suffix {node : Statement} (h : ReadsReturn file finish input node rest) :
    rest <:+ input := by
  cases h with
  | bare _ _ hsemicolon => exact hsemicolon.suffix.trans (List.suffix_cons _ _)
  | values _ hes hsemicolon =>
      exact (hsemicolon.suffix.trans hes.suffix).trans (List.suffix_cons _ _)

theorem ReadsForm.suffix {f : Form} {v : f.Value} (h : ReadsForm file finish f input v rest) :
    rest <:+ input := by
  induction h with
  | @keywordBinding k n _ _ _ _ _ _ _ _ htype hinit hsemicolon =>
      exact ((hsemicolon.suffix.trans hinit.suffix).trans htype.suffix).trans ⟨[k, n], rfl⟩
  | @define n sign _ _ _ _ _ _ he hsemicolon =>
      exact (hsemicolon.suffix.trans he.suffix).trans ⟨[n, sign], rfl⟩
  | @typedBinding n colon t _ _ _ _ _ _ _ hinit hsemicolon =>
      exact (hsemicolon.suffix.trans hinit.suffix).trans ⟨[n, colon, t], rfl⟩
  | @namedBlock n colon _ _ _ _ _ _ ih => exact ih.trans ⟨[n, colon], rfl⟩
  | block _ _ ih => exact ih.trans (List.suffix_cons _ _)
  | binding _ ih | inner _ ih => exact ih
  | ret h => exact h.suffix
  | semicolon | noStatement => exact List.suffix_cons _ _
  | expression he => exact (List.suffix_cons _ _).trans he.suffix
  | moreStatements _ _ ih ih' => exact ih'.trans ih

theorem ReadsDeclaration.suffix {node : Declaration}
    (h : ReadsDeclaration file finish input node rest) : rest <:+ input := by
  cases h with
  | function _ hhead hbody => exact hbody.suffix.trans hhead.suffix
  | externFunction _ _ hhead hsemicolon =>
      exact (hsemicolon.suffix.trans hhead.suffix).trans (List.suffix_cons _ _)
  | binding h => exact h.suffix
  | ret h => exact h.suffix

/-! ## Where phrases start -/

/-- A binding starts with a keyword, or with a name and a sign that declares it. -/
theorem ReadsForm.binding_head {node : Statement}
    (h : ReadsForm file finish .binding input node rest) :
    ∃ t more, input = t :: more ∧ (isBindingWord t.kind ∨ t.kind = .identifier ∧
      (isDefineSign (nextKind finish.kind more) ∨ nextKind finish.kind more = .mark .colon)) := by
  cases h with
  | keywordBinding hk => exact ⟨_, _, rfl, .inl hk⟩
  | define hn hsign => exact ⟨_, _, rfl, .inr ⟨hn, .inl hsign⟩⟩
  | typedBinding hn hcolon => exact ⟨_, _, rfl, .inr ⟨hn, .inr hcolon⟩⟩
  | namedBlock hn hcolon => exact ⟨_, _, rfl, .inr ⟨hn, .inr hcolon⟩⟩

theorem ReadsForm.statement_startsWith {node : Option Statement}
    (h : ReadsForm file finish .statement input node rest) :
    startsStatement (nextKind finish.kind input) := by
  cases h with
  | binding h =>
      obtain ⟨t, more, rfl, hk | ⟨hn, -⟩⟩ := h.binding_head
      · exact startsStatement_of_isBindingWord hk
      · rw [nextKind_cons, hn]
        rfl
  | ret h =>
      cases h with
      | bare ht | values ht => rw [nextKind_cons, ht]; rfl
  | inner h =>
      cases h with
      | block hl => rw [nextKind_cons, hl]; rfl
  | semicolon ht => rw [nextKind_cons, ht]; rfl
  | expression he => exact startsStatement_of_startsExpression he.startsWith

/-- Every statement takes a token. -/
theorem ReadsForm.statement_length_lt {node : Option Statement}
    (h : ReadsForm file finish .statement input node rest) : rest.length < input.length := by
  -- but for an expression, which takes one itself, a form starts with a token of its own
  cases h with
  | binding h =>
      cases h with
      | keywordBinding _ _ htype hinit hsemicolon =>
          have h1 := htype.suffix.length_le
          have h2 := hinit.suffix.length_le
          have h3 := hsemicolon.suffix.length_le
          simp only [List.length_cons]
          omega
      | define _ _ he hsemicolon =>
          have h1 := he.length_le
          have h2 := hsemicolon.suffix.length_le
          simp only [List.length_cons]
          omega
      | typedBinding _ _ _ hinit hsemicolon =>
          have h1 := hinit.suffix.length_le
          have h2 := hsemicolon.suffix.length_le
          simp only [List.length_cons]
          omega
      | namedBlock _ _ hb =>
          have h1 := hb.suffix.length_le
          simp only [List.length_cons]
          omega
  | ret h =>
      cases h with
      | bare _ _ hsemicolon =>
          have h1 := hsemicolon.suffix.length_le
          simp only [List.length_cons]
          omega
      | values _ hes hsemicolon =>
          have h1 := hes.length_le
          have h2 := hsemicolon.suffix.length_le
          simp only [List.length_cons]
          omega
  | inner h =>
      cases h with
      | block _ hnodes =>
          have h1 := hnodes.suffix.length_le
          simp only [List.length_cons]
          omega
  | semicolon => simp
  | expression he =>
      have h1 := he.length_le
      simp only [List.length_cons] at h1
      omega

/-- A declaration takes a token, and does not start at the end of the file. -/
theorem ReadsDeclaration.head {node : Declaration}
    (h : ReadsDeclaration file finish input node rest) :
    rest.length < input.length ∧ nextKind finish.kind input ≠ .endOfFile := by
  cases h with
  | function hk hhead hbody =>
      have hlength := hhead.length_lt
      have hlength' := hbody.suffix.length_le
      refine ⟨by omega, fun he => ?_⟩
      rw [nextKind_cons] at he
      rcases hk with hk | hk <;> rw [hk] at he <;> cases he
  | externFunction hk hf hhead hsemicolon =>
      have hlength := hhead.length_lt
      have hlength' := hsemicolon.suffix.length_le
      refine ⟨by simp only [List.length_cons] at hlength ⊢; omega, ?_⟩
      rw [nextKind_cons, hk]
      simp
  | binding h =>
      have hstart := (ReadsForm.binding h).statement_startsWith
      exact ⟨(ReadsForm.binding h).statement_length_lt, fun he => by rw [he] at hstart; cases hstart⟩
  | ret h =>
      have hstart := (ReadsForm.ret h).statement_startsWith
      exact ⟨(ReadsForm.ret h).statement_length_lt, fun he => by rw [he] at hstart; cases hstart⟩

end

end FrontEnd.Grammar
