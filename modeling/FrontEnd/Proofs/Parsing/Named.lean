import FrontEnd.Proofs.Parsing.Located
import FrontEnd.Proofs.Tree.Unambiguous

set_option autoImplicit false

/-! # The names in the trees that are parsed

Every name in a tree was an identifier of the file, and every type one of its words for a type, with
and without errors in the file. Names of nodes that are known by their names are seen from the tokens
at their places; types and the line of the namespace are followed through the parsers, one lemma a
parser.

So what is parsed is written without ambiguity: trees that are written alike are equal up to locations
(`parse_render_injective`).

For trees as such this does not hold. A tree may have a name with a blank or a parenthesis in it,
and be written as another tree is. What is shown here is that no such tree comes out of a file; that
trees with proper names are written without ambiguity is a fact about the printer.
-/

namespace FrontEnd

open Grammar

variable {b : Buffer}

/-! ## Words of a file -/

/-- An identifier of a file is a name: it is scanned as a word from beginning to end, and it is not
one of the reserved words. -/
theorem Buffer.isName_of_identifier {t : Token} (ht : t ∈ b.allTokens) (hk : t.kind = .identifier) :
    isName t.lexeme := by
  rcases List.mem_append.mp ht with ht | ht
  · obtain ⟨hend, c, rfl⟩ := Stream.upTo_tokens ht
    obtain ⟨first, rest, hscan, hlexeme⟩ := Cursor.next_valid (by rw [hk]; simp) hend
    obtain ⟨hstart, hkind, hlength⟩ := scan_word hscan (by rw [hk]; rfl)
    have hword : c.next.1.lexeme.toList = (first :: rest).takeWhile isWordChar := by
      rw [hlexeme, hlength, ← List.prefix_iff_eq_take.mp (List.takeWhile_prefix _),
        String.toList_ofList]
    have htext : isWordText ((first :: rest).takeWhile isWordChar) = true := by
      rw [isWordText, Bool.and_eq_true, List.all_eq_true]
      refine ⟨?_, fun c hc => List.mem_takeWhile_imp hc⟩
      rw [List.takeWhile_cons_of_pos (isWordChar_of_isWordStart hstart)]
      exact hstart
    rw [isName, hword, htext, ← hkind, hk]
    rfl
  · have hend : (Stream.ofText b.chars).finish.kind = .endOfFile := Stream.upTo_finish _ _
    rw [List.mem_singleton.mp ht, hend] at hk
    cases hk

/-! ## Types

A type is a builtin one, or it is named by an identifier. Which of the two it is can be seen from
its token, which is the one that the parser looks at. -/

/-- A type in the node is a builtin one or an identifier, and so is the name of a namespace. Of nodes
that hold neither nothing is asked. -/
def Node.Typed : Node → Prop
  | .type e | .returnType _ e => e.Printable
  | .namespaceLine name _ => isName name
  | _ => True

/-- All nodes have types of this kind. -/
def Typed (nodes : List Node) : Prop := ∀ n ∈ nodes, n.Typed

namespace Typed

variable {nodes nodes' : List Node}

theorem nil : Typed [] := fun _ h => absurd h List.not_mem_nil

theorem cons {n : Node} (hn : n.Typed) (h : Typed nodes) : Typed (n :: nodes) :=
  List.forall_mem_cons.mpr ⟨hn, h⟩

theorem append (h : Typed nodes) (h' : Typed nodes') : Typed (nodes ++ nodes') :=
  List.forall_mem_append.mpr ⟨h, h'⟩

mutual

/-- No types stand in expressions. -/
theorem expr : ∀ e : Expr, Typed e.nodes
  | .int _ _ | .float _ _ | .bool _ _ | .string _ _ | .char _ _ | .ident _ _ => cons trivial nil
  | .unary _ operand _ => cons trivial (expr operand)
  | .binary _ lhs rhs _ => cons trivial ((expr lhs).append (expr rhs))
  | .step _ _ _ operand _ => cons trivial (expr operand)
  | .call _ args _ => cons trivial (exprs args)

theorem exprs : ∀ es : List Expr, Typed (Expr.nodesEach es)
  | [] => nil
  | e :: rest => (expr e).append (exprs rest)

end

theorem binding {x : Binding} (h : ∀ e ∈ x.type, e.Printable) : Typed x.nodes := by
  refine cons trivial (.append (fun n hn => ?_) (exprs _))
  obtain ⟨e, he, rfl⟩ := List.mem_map.mp hn
  exact h e (Option.mem_toList.mp he)

theorem prototype {head : Prototype} (hparams : ∀ p ∈ head.params, p.type.Printable)
    (hreturns : ∀ e ∈ head.returns, e.Printable) : Typed head.nodes := by
  refine cons trivial (.append (fun n hn => ?_) fun n hn => ?_)
  · obtain ⟨p, hp, hn⟩ := List.mem_flatMap.mp hn
    exact (cons (n := .param p) trivial (cons (n := .type p.type) (hparams p hp) nil)) n hn
  · obtain ⟨e, he, rfl⟩ := List.mem_map.mp hn
    exact hreturns e he

end Typed

namespace Grammar.GivesTyped

variable {s : State}

/-! ## Signatures

The rules are those of `Gives`, with another property of the values. Only parsers that read a type, or
pass one on, have anything to show. -/

theorem typeExpr (place : Place) (s : State) :
    Gives b (Parser.typeExpr place) s TypeExpr.Printable := by
  refine .current fun ht => ?_
  split
  · exact .after .advance fun _ _ => .located _ trivial
  · next builtin hne hk =>
    refine .after .advance fun _ _ => .located _ (.inr ⟨builtin, ?_, ?_⟩)
    · rintro rfl
      exact hne rfl
    · rw [Buffer.lexeme_of_kind ht hk rfl]
      rfl
  · next hk =>
    exact .after .advance fun _ _ => .located _ (.inl (Buffer.isName_of_identifier ht hk))
  · exact .failExpecting _

theorem furtherTypes (fuel : Nat) (s : State) :
    Gives b (Parser.furtherTypes fuel) s fun es => ∀ e ∈ es, e.Printable := by
  induction fuel generalizing s with
  | zero => exact .pure (List.forall_mem_nil _)
  | succ fuel ih =>
      refine .after (.accept _) fun _ s' => .ite ?_ (.pure (List.forall_mem_nil _))
      refine .bind (typeExpr _ s') ?_
      intro e s' he
      refine .bind (ih s') ?_
      intro es _ hes
      exact .pure (List.forall_mem_cons.mpr ⟨he, hes⟩)

theorem param (before : List Param) (s : State) :
    Gives b (Parser.param before) s fun p => p.type.Printable := by
  refine .after (.expect _ _) ?_
  intro name _
  refine .after (.onlyIf _ (.complain rfl name)) ?_
  intro _ _
  refine .after (.expect _ _) ?_
  intro _ s'
  refine .bind (typeExpr _ s') ?_
  intro type _ htype
  exact .after (.onlyIf _ (.complain rfl name)) fun _ _ => .located (Param.mk name.lexeme type) htype

theorem paramsFrom (fuel : Nat) {before : List Param} (s : State)
    (hbefore : ∀ p ∈ before, p.type.Printable) :
    Gives b (Parser.paramsFrom fuel before) s fun ps => ∀ p ∈ ps, p.type.Printable := by
  induction fuel generalizing before s with
  | zero => exact .pure hbefore
  | succ fuel ih =>
      refine .bind (param before s) ?_
      intro p _ hp
      refine .after (.accept _) ?_
      intro _ s'
      have hall : ∀ q ∈ before ++ [p], q.type.Printable :=
        List.forall_mem_append.mpr ⟨hbefore, List.forall_mem_singleton.mpr hp⟩
      exact .ite (ih s' hall) (.pure hall)

theorem params (s : State) : Gives b Parser.params s fun ps => ∀ p ∈ ps, p.type.Printable :=
  .get (.ite (.pure (List.forall_mem_nil _)) (paramsFrom _ s (List.forall_mem_nil _)))

theorem returnTypes (isExtern : Bool) (s : State) :
    Gives b (Parser.returnTypes isExtern) s fun es => ∀ e ∈ es, e.Printable := by
  refine .after (.accept _) fun _ s' => .ite ?_ ?_
  · exact .bind (typeExpr _ s') fun first s1 hfirst => .get (.bind (furtherTypes _ s1)
      fun es _ hes => .pure (List.forall_mem_cons.mpr ⟨hfirst, hes⟩))
  · exact .current fun _ => .ite
      (.located (fun loc => [TypeExpr.void loc]) (List.forall_mem_singleton.mpr trivial))
      (.failExpecting _)

theorem prototype (isExtern : Bool) :
    Gives b (Parser.prototype isExtern) s fun head => Typed head.nodes := by
  refine .take ?_
  intro _
  refine .after (.expect _ _) ?_
  intro name _
  refine .after (Regular.grammar.declareFunction ..) ?_
  intro _ _
  refine .after (.expect _ _) ?_
  intro _ s1
  refine .bind (params s1) ?_
  intro ps _ hps
  refine .after (.expect _ _) ?_
  intro _ s2
  refine .bind (returnTypes isExtern s2) fun es _ hes => ?_
  exact .located (Prototype.mk name.lexeme ps es _ isExtern) (.prototype hps hes)

/-! ## Statements -/

/-- All types in a statement are of the kind. -/
abbrev TypedStatement (node : Statement) : Prop := Typed node.nodes

theorem finishBinding {type : Option TypeExpr} (htype : ∀ e ∈ type, e.Printable) (name : Token)
    (init : Option Expr) (mutability : Mutability) :
    Gives b (Parser.finishBinding name type init mutability) s TypedStatement :=
  .locate (.after (.declare _ name) fun _ _ => .pure (.binding htype))

theorem optionalType (s : State) :
    Gives b Parser.optionalType s fun type => ∀ e ∈ type, e.Printable := by
  refine .after (.accept _) fun _ s' => .ite ?_ (.pure nofun)
  refine .bind (typeExpr _ s') ?_
  intro e _ he
  refine .pure ?_
  intro e' he'
  cases he'
  exact he

theorem keywordBinding : Gives b Parser.keywordBinding s TypedStatement := by
  refine .take ?_
  intro _
  refine .after (.expect _ _) ?_
  intro name s1
  refine .bind (optionalType s1) ?_
  intro type _ htype
  refine .after Regular.grammar.optionalInit ?_
  intro _ _
  refine .after (.accept _) ?_
  intro _ _
  refine .after (.onlyIf _ (.complain rfl name)) ?_
  intro _ _
  exact finishBinding htype _ _ _

theorem returnStatement : Gives b Parser.returnStatement s TypedStatement := by
  refine .take fun _ => .get (.after (.onlyIf _ (.complain rfl _)) fun _ _ => ?_)
  refine .after Regular.grammar.returnValues ?_
  intro values _
  refine .after (.accept _) ?_
  intro _ _
  exact .located (Statement.ret values) (.cons trivial (.exprs values))

section

variable {inner : Parser (List Statement)}
  (hinner : ∀ s, Gives b inner s fun nodes => Typed (Statement.nodesEach nodes))
include hinner

theorem block : Gives b (Parser.block inner) s fun result =>
    Typed (Statement.nodesEach result.1) := by
  refine .after (.expect _ _) ?_
  intro _ _
  refine .after (.pushScope _) ?_
  intro _ s'
  refine .bind (hinner s') ?_
  intro statements _ hstatements
  refine .after .popScope ?_
  intro _ _
  exact .located (Prod.mk statements) hstatements

theorem nameBinding : Gives b (Parser.nameBinding inner) s TypedStatement := by
  have hsigned (name : Token) (mutability : Mutability) (s' : State) :
      Gives b (do
        let node ← Parser.finishBinding name none (some (← Parser.expression)) mutability
        let _ ← Parser.accept (.mark .semicolon)
        return node) s' TypedStatement := by
    have hnone : ∀ e ∈ (none : Option TypeExpr), e.Printable := nofun
    refine .after Regular.grammar.expression ?_
    intro _ _
    refine .bind (finishBinding hnone _ _ _) ?_
    intro node _ hnode
    refine .after (.accept _) ?_
    intro _ _
    exact .pure hnode
  refine .take ?_
  intro _
  refine .take ?_
  intro _
  -- two of the signs are followed by the value; behind a colon comes a block or a type
  split
  · exact hsigned _ .mutable _
  · exact hsigned _ .constant _
  · refine .current fun _ => .ite ?_ ?_
    · refine .get (.after (.onlyIf _ (.complain rfl _)) fun _ _ => ?_)
      refine .bind (block hinner) fun result _ hblock => ?_
      obtain ⟨statements, loc⟩ := result
      exact .locate (.pure (.cons trivial (.cons trivial hblock)))
    · refine .bind (typeExpr _ _) ?_
      intro type _ htype
      refine .after Regular.grammar.optionalInit ?_
      intro _ _
      refine .bind (finishBinding ?_ _ _ _) fun node _ hnode =>
        .after (.accept _) fun _ _ => .pure hnode
      rintro e ⟨⟩
      exact htype

theorem statement (s : State) :
    Gives b (Parser.statement inner) s fun node => ∀ x ∈ node, TypedStatement x := by
  have hsome {p : Parser Statement} {s' : State} (hp : Gives b p s' TypedStatement) :
      Gives b (do return some (← p)) s' fun node => ∀ x ∈ node, TypedStatement x := by
    refine .bind hp fun x _ hx => .pure ?_
    rintro x' ⟨⟩
    exact hx
  refine .get ?_
  split
  · exact hsome keywordBinding
  · exact hsome keywordBinding
  · exact hsome keywordBinding
  · exact hsome returnStatement
  · refine .bind (block hinner) fun result _ hblock => ?_
    obtain ⟨statements, loc⟩ := result
    refine .pure ?_
    rintro x ⟨⟩
    exact .cons trivial hblock
  · exact .after .advance fun _ _ => .pure nofun
  · exact .fail _
  · exact .fail _
  · exact .fail _
  · exact .fail _
  · split
    · exact hsome (nameBinding hinner)
    · refine .after Regular.grammar.expression fun e _ => .after (.expect _ _) fun _ _ => .pure ?_
      rintro x ⟨⟩
      exact .expr e

end

theorem statements (s : State) :
    Gives b Parser.statements s fun nodes => Typed (Statement.nodesEach nodes) :=
  .get (.statementsWithin_forall statement _ s)

/-! ## Files -/

/-- All types in a declaration are of the kind. -/
abbrev TypedDeclaration (node : Declaration) : Prop := Typed node.nodes

theorem function : Gives b Parser.function s TypedDeclaration := by
  have hbody (s : State) : Gives b Parser.functionBody s fun result =>
      Typed (Statement.nodesEach result.1) :=
    .after (.expect _ _) fun _ s1 => .bind (statements s1) fun body _ hbody =>
      .located (Prod.mk body) hbody
  refine .bind (prototype false) fun head _ hhead => ?_
  refine .bind (.withinFunction _ hbody) fun result _ hbody => ?_
  obtain ⟨body, loc⟩ := result
  exact .pure (.cons trivial (hhead.append (.cons trivial hbody)))

theorem externFunction : Gives b Parser.externFunction s TypedDeclaration := by
  refine .take ?_
  intro _
  refine .current ?_
  intro _
  refine .ite ?_ (.failExpecting _)
  refine .bind (prototype true) ?_
  intro _ _ hhead
  refine .after (.accept _) ?_
  intro _ _
  exact .pure hhead

theorem namespaceLine :
    Gives b Parser.namespaceLine s fun node => ∀ x ∈ node, TypedDeclaration x := by
  refine .take ?_
  intro _
  refine .bind (.expect _ _) ?_
  rintro name _ ⟨ht, hk⟩
  refine .after (.accept _) fun _ _ => .get ?_
  split
  · exact .after (.complain rfl name) fun _ _ => .pure nofun
  · refine .after (.update fun s => ?_) fun _ _ => .locate (.pure ?_)
    · exact (Moves.of_change (.setNamespace s _)).tail (.setScopes _ _)
    · rintro x ⟨⟩
      exact .cons (Buffer.isName_of_identifier ht hk) .nil

theorem declaration (s : State) :
    Gives b Parser.declaration s fun node => ∀ x ∈ node, TypedDeclaration x := by
  have hsome {p : Parser Declaration} (hp : Gives b p s TypedDeclaration) :
      Gives b (do return some (← p)) s fun node => ∀ x ∈ node, TypedDeclaration x := by
    refine .bind hp fun x _ hx => .pure ?_
    rintro x' ⟨⟩
    exact hx
  have hstatement {p : Parser Statement} (hp : Gives b p s TypedStatement) :
      Gives b (do return some (.statement (← p))) s fun node => ∀ x ∈ node, TypedDeclaration x := by
    refine .bind hp fun x _ hx => .pure ?_
    rintro x' ⟨⟩
    exact hx
  refine .get ?_
  split
  · exact namespaceLine
  · exact hsome function
  · exact hsome function
  · exact hsome externFunction
  · exact hstatement keywordBinding
  · exact hstatement keywordBinding
  · exact hstatement keywordBinding
  · exact hstatement returnStatement
  · split
    · exact hstatement (nameBinding statements)
    · exact .failExpecting _

end Grammar.GivesTyped

/-! ## Trees

The nodes of a file carry the places of their tokens, so their names are the lexemes of tokens; the
types in them are of the kind. Together this is what their texts are made of. -/

/-- A node at the place of its token has a name that is an identifier, if its types are words for
types. -/
theorem Node.Placed.named {n : Node} (h : n.Placed b) (htyped : n.Typed) : n.Named := by
  obtain ⟨t, ht, -, hknown⟩ := h
  have hname {name : String} (h : t.kind = .identifier ∧ t.lexeme = name) : isName name :=
    h.2 ▸ Buffer.isName_of_identifier ht h.1
  cases n with
  | expr e =>
      cases e with
      | ident | call => exact hname hknown
      | _ => trivial
  | type | returnType | namespaceLine => exact htyped
  | param | prototype | function | binding | namedBlock => exact hname hknown
  | ret | block => trivial

/-- The names in the trees of a file are identifiers, and the types are builtin ones or
identifiers. -/
theorem parse_nodes_named (b : Buffer) : ∀ d ∈ b.parse.declarations, ∀ n ∈ d.nodes, n.Named := by
  intro d hd n hn
  have htyped : Typed d.nodes := run_forall GivesTyped.declaration (Moves.refl b.startState) d hd
  exact (parse_nodes_placed b d hd n hn).named (htyped n hn)

/-- Trees without floating-point numbers that are parsed from any two files and written alike are
equal up to locations. -/
theorem parse_render_injective {b b' : Buffer} {d d' : Declaration}
    (hd : d ∈ b.parse.declarations) (hd' : d' ∈ b'.parse.declarations)
    (hfloat : ∀ n ∈ d.nodes, n.isFloat = false) (hfloat' : ∀ n ∈ d'.nodes, n.isFloat = false)
    (h : d.render = d'.render) : d.bare = d'.bare :=
  Declaration.bare_eq (fun n hn => ⟨parse_nodes_named b d hd n hn, hfloat n hn⟩)
    (fun n hn => ⟨parse_nodes_named b' d' hd' n hn, hfloat' n hn⟩) h

/-- A method in two layouts, once with parentheses that do not matter. -/
theorem parse_render_injective_layout :
    let b := Buffer.ofText "main.tp"
      "md f(a: int): T, u8 \x7b x: T = -a - \"\\\" )\"; return g(x, 'c'), ++a; \x7d"
    let b' := Buffer.ofText "other.tp"
      "\n\nmd f ( a : int ) : T , u8 \x7b x : T = (-a) - \"\\\" )\" return g(x, ('c')), (++a) \x7d"
    ∃ d ∈ b.parse.declarations, ∃ d' ∈ b'.parse.declarations,
      (∀ n ∈ d.nodes, n.isFloat = false) ∧ (∀ n ∈ d'.nodes, n.isFloat = false) ∧
      d.render = d'.render ∧ d.bare = d'.bare := by
  intro b b'
  obtain ⟨d, hd, d', hd', hfloat, hfloat', hrender⟩ :
      ∃ d ∈ b.parse.declarations, ∃ d' ∈ b'.parse.declarations,
        (∀ n ∈ d.nodes, n.isFloat = false) ∧ (∀ n ∈ d'.nodes, n.isFloat = false) ∧
        d.render = d'.render := by decide +kernel
  exact ⟨d, hd, d', hd', hfloat, hfloat', hrender,
    parse_render_injective hd hd' hfloat hfloat' hrender⟩

end FrontEnd
