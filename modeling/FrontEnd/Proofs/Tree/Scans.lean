import FrontEnd.Proofs.Tree.Source

set_option autoImplicit false

/-! # Source text is made of tokens

Every lexeme of a printable tree scans, so the tokens of the source text are the lexemes of the
tree.

A lexeme scans if a scanner that comes to it takes it as one token of its kind. For marks, words and
operators this is decided once for all of them; for names and literals it is what makes a tree
printable. The lemmas for ways of putting lexemes together are simplification rules, so that each
kind of tree comes down to its parts.
-/

namespace FrontEnd

open Lexeme

/-- All lexemes of a phrase scan. As they are written with single spaces between them, no more is
needed for their text to have them as its tokens. -/
def AllScan (lexemes : List Lexeme) : Prop := ∀ l ∈ lexemes, l.Scans

variable {l : Lexeme} {xs ys : List Lexeme}

@[simp] theorem allScan_nil : AllScan [] := by simp [AllScan]

@[simp] theorem allScan_cons : AllScan (l :: xs) ↔ l.Scans ∧ AllScan xs := List.forall_mem_cons

@[simp] theorem allScan_append : AllScan (xs ++ ys) ↔ AllScan xs ∧ AllScan ys :=
  List.forall_mem_append

@[simp] theorem scans_mark (m : Mark) : (mark m).Scans := scans_fixed rfl

@[simp] theorem scans_wordLexeme (w : Keyword) : (word w).Scans := scans_fixed rfl

@[simp] theorem scans_operator (op : BinaryOp) : (fixed (.operator op)).Scans := scans_fixed rfl

@[simp] theorem scans_step (s : Step) (overflow : Overflow) : (fixed (.step s overflow)).Scans :=
  scans_fixed rfl

@[simp] theorem scans_unaryOp (op : UnaryOp) : (fixed op.kind).Scans := by
  cases op <;> exact scans_fixed rfl

@[simp] theorem allScan_parenthesized : AllScan (parenthesized xs) ↔ AllScan xs := by
  simp [parenthesized]

@[simp] theorem allScan_braced : AllScan (braced xs) ↔ AllScan xs := by
  simp [braced]

theorem allScan_commaSeparated {phrases : List (List Lexeme)} (h : ∀ p ∈ phrases, AllScan p) :
    AllScan (commaSeparated phrases) := by
  induction phrases with
  | nil => exact allScan_nil
  | cons p phrases ih =>
      have hp := h p List.mem_cons_self
      have hrest := ih fun q hq => h q (List.mem_cons_of_mem _ hq)
      cases phrases with
      | nil => exact hp
      | cons q phrases => simp [commaSeparated, hp, hrest]

/-! ## Expressions

Each part of an expression is a lexeme that the scanner finds in front of a space. Numbers, names
and quoted texts are found if they are printable. -/

mutual

theorem Expr.allScan : ∀ {e : Expr}, e.Printable → AllScan e.lexemes
  | .int value _, _ => by simpa [Expr.lexemes] using scans_number value.toNat
  | .bool value _, _ => by simp [Expr.lexemes]
  | .float _ _, h => h.elim
  | .string value _, h => by simp [Expr.lexemes, scans_string h.1 h.2]
  | .char value _, h => by simp [Expr.lexemes, scans_char h]
  | .ident name _, h => by simp [Expr.lexemes, Lexeme.name, scans_name h]
  | .unary op operand _, h => by simp [Expr.lexemes, Expr.allScan (e := operand) h]
  | .binary op lhs rhs _, h => by simp [Expr.lexemes, Expr.allScan h.1, Expr.allScan h.2]
  | .step s overflow .before operand _, h => by
      simp [Expr.lexemes, Expr.allScan (e := operand) h]
  | .step s overflow .after operand _, h => by
      simp [Expr.lexemes, Expr.allScan (e := operand) h]
  | .call callee args _, h => by
      simp [Expr.lexemes, Lexeme.name, scans_name h.1,
        allScan_commaSeparated (Expr.allScan_arguments h.2)]

theorem Expr.allScan_arguments :
    ∀ {es : List Expr}, Expr.AllPrintable es → ∀ p ∈ Expr.argumentLexemes es, AllScan p
  | [], _ => by simp [Expr.argumentLexemes]
  | e :: es, h => by
      rw [Expr.argumentLexemes]
      exact List.forall_mem_cons.mpr
        ⟨allScan_parenthesized.mpr (Expr.allScan h.1), Expr.allScan_arguments h.2⟩

end

theorem Expr.allPrintable_iff {es : List Expr} :
    Expr.AllPrintable es ↔ ∀ e ∈ es, e.Printable := by
  induction es with
  | nil => simp [Expr.AllPrintable]
  | cons e es ih => simp [Expr.AllPrintable, ih]

/-! ## Types and the heads of functions -/

theorem TypeExpr.scans {t : TypeExpr} (h : t.Printable) : t.lexeme.Scans := by
  cases t with
  | void => exact scans_fixed rfl
  | named name =>
      rcases h with h | ⟨b, -, rfl⟩
      · have hname : wordKind name.toList = .identifier := by
          rw [isName, Bool.and_eq_true, beq_iff_eq] at h
          exact h.2
        rw [TypeExpr.lexeme, hname]
        exact scans_name h
      · rw [TypeExpr.lexeme, (wordKind_builtin b).2]
        exact scans_builtin b

theorem Prototype.allScan {p : Prototype} (h : p.Printable) : AllScan p.lexemes := by
  have hparams : ∀ phrase ∈ p.params.map Param.lexemes, AllScan phrase := by
    intro phrase hphrase
    obtain ⟨param, hparam, rfl⟩ := List.mem_map.mp hphrase
    obtain ⟨hname, htype⟩ := h.params param hparam
    simp [Param.lexemes, Lexeme.name, scans_name hname, TypeExpr.scans htype]
  have hreturns : ∀ phrase ∈ p.returns.map fun t => [t.lexeme], AllScan phrase := by
    intro phrase hphrase
    obtain ⟨t, ht, rfl⟩ := List.mem_map.mp hphrase
    simp [TypeExpr.scans (h.returns t ht)]
  simp [Prototype.lexemes, Lexeme.name, scans_name h.name, allScan_commaSeparated hparams,
    allScan_commaSeparated hreturns]

/-! ## Statements -/

theorem Binding.allScan {b : Binding} (h : b.Printable) : AllScan b.lexemes := by
  obtain ⟨name, type, init, mutability, loc⟩ := b
  obtain ⟨hname, htype, hinit⟩ := h
  have htype' : AllScan (type.elim [] fun t => [mark .colon, t.lexeme]) := by
    cases type with
    | none => exact allScan_nil
    | some t => simp [TypeExpr.scans (htype t rfl)]
  have hinit' : AllScan (init.elim [] fun e => fixed (.operator .assign) :: e.lexemes) := by
    cases init with
    | none => exact allScan_nil
    | some e => simp [Expr.allScan (hinit e rfl)]
  simp [Binding.lexemes, Lexeme.name, scans_name hname, htype', hinit']

theorem allScan_values {es : List Expr} (h : Expr.AllPrintable es) :
    AllScan (commaSeparated (es.map Expr.lexemes)) := by
  refine allScan_commaSeparated fun phrase hphrase => ?_
  obtain ⟨e, he, rfl⟩ := List.mem_map.mp hphrase
  exact Expr.allScan (Expr.allPrintable_iff.mp h e he)

mutual

theorem Statement.allScan : ∀ {s : Statement}, s.Printable → AllScan s.lexemes
  | .expr e, h => by simp [Statement.lexemes, Expr.allScan (e := e) h]
  | .bind b, h => Binding.allScan h
  | .ret values _, h => by simp [Statement.lexemes, allScan_values h]
  | .block statements _, h => by simp [Statement.lexemes, Statement.allScan_all h]
  | .namedBlock name _ statements _, h => by
      simp [Statement.lexemes, Lexeme.name, scans_name h.1, Statement.allScan_all h.2]

theorem Statement.allScan_all :
    ∀ {ss : List Statement}, Statement.AllPrintable ss → AllScan (Statement.lexemesAll ss)
  | [], _ => by simp [Statement.lexemesAll]
  | s :: rest, h => by
      simp [Statement.lexemesAll, Statement.allScan h.1, Statement.allScan_all h.2]

end

/-! ## Declarations -/

theorem Declaration.allScan {d : Declaration} (h : d.Printable) : AllScan d.lexemes := by
  cases d with
  | namespaceLine name => simp [Declaration.lexemes, Lexeme.name, scans_name h]
  | function p body =>
      obtain ⟨hp, -, hbody⟩ := h
      simp [Declaration.lexemes, Prototype.allScan hp, Statement.allScan_all hbody]
  | externFunction p => simp [Declaration.lexemes, Prototype.allScan h.1]
  | statement s => exact Statement.allScan h.2

/-- The tokens of the source text of printable declarations are their lexemes. -/
theorem allScan_source {declarations : List Declaration} (h : ∀ d ∈ declarations, d.Printable) :
    AllScan (declarations.flatMap Declaration.lexemes) := by
  intro l hl
  obtain ⟨d, hd, hl⟩ := List.mem_flatMap.mp hl
  exact Declaration.allScan (h d hd) l hl

end FrontEnd
