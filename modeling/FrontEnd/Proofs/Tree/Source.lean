import FrontEnd.Proofs.Syntax.Derives
import FrontEnd.Proofs.Token.Spelled
import FrontEnd.Tree.Basic

set_option autoImplicit false

/-! # Trees as source text

`sourceText` writes declarations in the concrete syntax: bindings with their keywords, operands and
arguments in parentheses, return types always written out, semicolons wherever one may stand behind
a phrase, and single spaces between all tokens. This can be done with the trees that a parser can
build from text without floating-point numbers, the `Printable` ones.

Two trees are equal up to locations if their `bare` forms are equal.

A tree is written as lexemes first, each a kind with its text, and only then as text. So what is
said of the lexemes of a tree (that they scan, that they read back) never has to look into a text.
Where the syntax leaves a choice the longer form is taken, which keeps neighbouring phrases apart.
-/

namespace FrontEnd

/-! ## Lexemes of phrases -/

namespace Lexeme

/-- The lexeme of a name. -/
def name (text : String) : Lexeme := ⟨.identifier, text⟩

/-- The lexeme of a mark. -/
def mark (m : Mark) : Lexeme := fixed (.mark m)

/-- The lexeme of a keyword. -/
def word (w : Keyword) : Lexeme := fixed (.word w)

/-- Lexemes in parentheses. -/
def parenthesized (inner : List Lexeme) : List Lexeme :=
  mark .leftParen :: (inner ++ [mark .rightParen])

/-- Lexemes in braces. -/
def braced (inner : List Lexeme) : List Lexeme := mark .leftBrace :: (inner ++ [mark .rightBrace])

/-- Phrases with commas between them. -/
def commaSeparated : List (List Lexeme) → List Lexeme
  | [] => []
  | [phrase] => phrase
  | phrase :: phrases => phrase ++ mark .comma :: commaSeparated phrases

theorem commaSeparated_cons_cons (p q : List Lexeme) (phrases : List (List Lexeme)) :
    commaSeparated (p :: q :: phrases) = p ++ mark .comma :: commaSeparated (q :: phrases) := rfl

end Lexeme

open Lexeme

mutual

/-- An expression as lexemes. There are none for a floating-point number. -/
def Expr.lexemes : Expr → List Lexeme
  | .int value _ => [⟨.number, toString value.toNat⟩]
  | .float _ _ => []
  | .bool value _ => [word (if value then .trueWord else .falseWord)]
  | .string value _ => [⟨.stringLiteral, quoted '"' value.toList⟩]
  | .char value _ => [⟨.charLiteral, quoted '\'' (charText value)⟩]
  | .ident name _ => [.name name]
  | .unary op operand _ => fixed op.kind :: parenthesized operand.lexemes
  | .binary op lhs rhs _ =>
    parenthesized lhs.lexemes ++ fixed (.operator op) :: parenthesized rhs.lexemes
  | .step s overflow .before operand _ =>
    fixed (.step s overflow) :: parenthesized operand.lexemes
  | .step s overflow .after operand _ =>
    parenthesized operand.lexemes ++ [fixed (.step s overflow)]
  | .call callee args _ =>
    .name callee :: parenthesized (commaSeparated (Expr.argumentLexemes args))

/-- Arguments as lexemes. -/
def Expr.argumentLexemes : List Expr → List (List Lexeme)
  | [] => []
  | e :: es => parenthesized e.lexemes :: Expr.argumentLexemes es

end

attribute [simp] Expr.lexemes Expr.argumentLexemes

/-- A type as a lexeme: the name of a builtin type, or another name. -/
def TypeExpr.lexeme : TypeExpr → Lexeme
  | .void _ => fixed (.builtin .void)
  | .named name _ => ⟨wordKind name.toList, name⟩

/-- The keyword that declares a binding. -/
def Mutability.keyword : Mutability → Keyword
  | .mutable => .letWord
  | .immutable => .valWord
  | .constant => .constWord

/-- The keyword that defines a function. -/
def FunctionKind.keyword : FunctionKind → Keyword
  | .function => .fnWord
  | .method => .mdWord

/-- A binding as lexemes. -/
def Binding.lexemes (b : Binding) : List Lexeme :=
  word b.mutability.keyword :: .name b.name ::
    ((b.type.elim [] fun t => [mark .colon, t.lexeme]) ++
      ((b.init.elim [] fun e => fixed (.operator .assign) :: e.lexemes) ++ [mark .semicolon]))

mutual

/-- A statement as lexemes. -/
def Statement.lexemes : Statement → List Lexeme
  | .expr e => e.lexemes ++ [mark .semicolon]
  | .bind b => b.lexemes
  | .ret values _ =>
    word .returnWord :: (commaSeparated (values.map Expr.lexemes) ++ [mark .semicolon])
  | .block statements _ => braced (Statement.lexemesAll statements)
  | .namedBlock name _ statements _ =>
    .name name :: mark .colon :: braced (Statement.lexemesAll statements)

/-- Statements as lexemes. -/
def Statement.lexemesAll : List Statement → List Lexeme
  | [] => []
  | s :: rest => s.lexemes ++ Statement.lexemesAll rest

end

/-- An argument as lexemes. -/
def Param.lexemes (p : Param) : List Lexeme := [.name p.name, mark .colon, p.type.lexeme]

/-- The head of a function as lexemes, from its keyword on. -/
def Prototype.lexemes (p : Prototype) : List Lexeme :=
  word p.kind.keyword :: .name p.name ::
    (parenthesized (commaSeparated (p.params.map Param.lexemes)) ++
      mark .colon :: commaSeparated (p.returns.map fun t => [t.lexeme]))

/-- A declaration as lexemes. -/
def Declaration.lexemes : Declaration → List Lexeme
  | .namespaceLine name _ => [word .namespaceWord, .name name, mark .semicolon]
  | .function p body _ => p.lexemes ++ braced (Statement.lexemesAll body)
  | .externFunction p => word .externWord :: (p.lexemes ++ [mark .semicolon])
  | .statement s => s.lexemes

/-- Declarations as source text. There is one space between any two lexemes, which keeps them apart.
-/
def sourceText (declarations : List Declaration) : String :=
  spaced (declarations.flatMap Declaration.lexemes)

/-! ## Trees that can be written -/

mutual

/-- An expression without floating-point numbers whose names are identifiers and whose literals can
be written between their delimiters. -/
def Expr.Printable : Expr → Prop
  | .int _ _ | .bool _ _ => True
  | .float _ _ => False
  | .string value _ => IsQuotable '"' value.toList ∧ NoCrLf value.toList
  | .char value _ => value ≠ '\\'
  | .ident name _ => isName name
  | .unary _ operand _ | .step _ _ _ operand _ => operand.Printable
  | .binary _ lhs rhs _ => lhs.Printable ∧ rhs.Printable
  | .call callee args _ => isName callee ∧ Expr.AllPrintable args

def Expr.AllPrintable : List Expr → Prop
  | [] => True
  | e :: es => e.Printable ∧ Expr.AllPrintable es

end

/-- A type that is named is not named like `void`, which is a type of its own. Its name is an
identifier or that of another builtin type. -/
def TypeExpr.Printable : TypeExpr → Prop
  | .void _ => True
  | .named name _ => isName name ∨ ∃ b : BuiltinType, b ≠ .void ∧ name = b.spelling

def Binding.Printable (b : Binding) : Prop :=
  isName b.name ∧ (∀ t ∈ b.type, t.Printable) ∧ ∀ e ∈ b.init, e.Printable

mutual

def Statement.Printable : Statement → Prop
  | .expr e => e.Printable
  | .bind b => b.Printable
  | .ret values _ => Expr.AllPrintable values
  | .block statements _ => Statement.AllPrintable statements
  | .namedBlock name _ statements _ => isName name ∧ Statement.AllPrintable statements

def Statement.AllPrintable : List Statement → Prop
  | [] => True
  | s :: rest => s.Printable ∧ Statement.AllPrintable rest

end

def Param.Printable (p : Param) : Prop := isName p.name ∧ p.type.Printable

/-- A function always has a return type. -/
structure Prototype.Printable (p : Prototype) : Prop where
  name : isName p.name
  params : ∀ param ∈ p.params, param.Printable
  returns_ne_nil : p.returns ≠ []
  returns : ∀ t ∈ p.returns, t.Printable

/-- Statements that may stand at file scope: bindings, named blocks and returns. -/
def Statement.isDeclaration : Statement → Bool
  | .bind _ | .namedBlock _ _ _ _ | .ret _ _ => true
  | _ => false

/-- External functions are no methods. -/
def Declaration.Printable : Declaration → Prop
  | .namespaceLine name _ => isName name
  | .function p body _ => p.Printable ∧ p.isExtern = false ∧ Statement.AllPrintable body
  | .externFunction p => p.Printable ∧ p.isExtern = true ∧ p.kind = .function
  | .statement s => s.isDeclaration ∧ s.Printable

def Declaration.isNamespaceLine : Declaration → Bool
  | .namespaceLine _ _ => true
  | _ => false

/-! ## Trees without locations -/

/-- The location that stands for all others. No place in a text has it, as lines and columns are
counted from one. -/
def Location.nowhere : Location := ⟨"", ⟨0, 0⟩⟩

mutual

def Expr.bare : Expr → Expr
  | .int value _ => .int value .nowhere
  | .float value _ => .float value .nowhere
  | .bool value _ => .bool value .nowhere
  | .string value _ => .string value .nowhere
  | .char value _ => .char value .nowhere
  | .ident name _ => .ident name .nowhere
  | .unary op operand _ => .unary op operand.bare .nowhere
  | .binary op lhs rhs _ => .binary op lhs.bare rhs.bare .nowhere
  | .step s overflow fixity operand _ => .step s overflow fixity operand.bare .nowhere
  | .call callee args _ => .call callee (Expr.bareAll args) .nowhere

def Expr.bareAll : List Expr → List Expr
  | [] => []
  | e :: es => e.bare :: Expr.bareAll es

end

attribute [simp] Expr.bare Expr.bareAll

def TypeExpr.bare : TypeExpr → TypeExpr
  | .void _ => .void .nowhere
  | .named name _ => .named name .nowhere

def Param.bare (p : Param) : Param := ⟨p.name, p.type.bare, .nowhere⟩

def Prototype.bare (p : Prototype) : Prototype :=
  { p with
    params := p.params.map Param.bare
    returns := p.returns.map TypeExpr.bare
    loc := .nowhere }

def Binding.bare (b : Binding) : Binding :=
  { b with type := b.type.map TypeExpr.bare, init := b.init.map Expr.bare, loc := .nowhere }

mutual

def Statement.bare : Statement → Statement
  | .expr e => .expr e.bare
  | .bind b => .bind b.bare
  | .ret values _ => .ret (Expr.bareAll values) .nowhere
  | .block statements _ => .block (Statement.bareAll statements) .nowhere
  | .namedBlock name _ statements _ =>
    .namedBlock name .nowhere (Statement.bareAll statements) .nowhere

def Statement.bareAll : List Statement → List Statement
  | [] => []
  | s :: rest => s.bare :: Statement.bareAll rest

end

/-- A declaration with all its locations left out. -/
def Declaration.bare : Declaration → Declaration
  | .namespaceLine name _ => .namespaceLine name .nowhere
  | .function p body _ => .function p.bare (Statement.bareAll body) .nowhere
  | .externFunction p => .externFunction p.bare
  | .statement s => .statement s.bare

end FrontEnd
