import FrontEnd.Proofs.Parsing.Acceptance
import FrontEnd.Proofs.Parsing.Regular
import FrontEnd.Proofs.Syntax.ReadsBackFile
import FrontEnd.Proofs.Token.Spacing
import FrontEnd.Proofs.Tree.Scans

set_option autoImplicit false

/-! # Reading undoes writing

The source text of printable declarations consists of valid tokens that read back as these
declarations, and the parsers follow this reading.

Three facts meet here, each with its own induction over trees: the lexemes of a tree stand alone, so
they are the tokens of its text; these tokens read as the tree up to places (`reads_source`); and
what reads in one way is parsed in this way. A file with two namespace lines is not parsed as such,
since the second one is found to be wrong and leaves no node.
-/

namespace FrontEnd

open Grammar

variable {declarations : List Declaration} {b : Buffer}

/-- The tokens of the source text spell the declarations. -/
theorem spells_sourceText (name : String) (h : ∀ d ∈ declarations, d.Printable) :
    Spells (Buffer.ofText name (sourceText declarations)).tokens
      (declarations.flatMap Declaration.lexemes) := by
  have hscan := allScan_source h
  rw [Spells, Buffer.tokens, sourceText, chars_ofText_spaced hscan]
  exact Stream.ofText_spaced hscan

/-- Tokens that spell lexemes that scan are valid. -/
theorem Grammar.Spells.valid {w : List Token} {lexemes : List Lexeme} (hw : Spells w lexemes)
    (h : AllScan lexemes) : ∀ t ∈ w, t.kind ≠ .invalid := by
  intro t ht
  have hmem : t.bare ∈ lexemes := hw ▸ List.mem_map_of_mem ht
  exact (h t.bare hmem).valid

/-- Nothing lexical is found in a buffer of valid tokens. -/
theorem Buffer.parse_not_lexical (h : ∀ t ∈ b.tokens, t.kind ≠ .invalid) :
    ∀ f ∈ b.parse.findings, f.issue.isLexical = false := by
  have hmoves := moves_declarations b.startState.unread.length b.startState
  refine hmoves.not_lexical (startState_lexed h) ?_
  rw [startState_eq h]
  exact fun f hf => absurd hf List.not_mem_nil

/-- The source text of printable declarations, at most one of them a namespace line, is parsed as
these declarations up to locations, and nothing lexical or grammatical is found in it. -/
theorem parse_sourceText (name : String) (declarations : List Declaration)
    (hprintable : ∀ d ∈ declarations, d.Printable)
    (hnamespace : declarations.countP Declaration.isNamespaceLine ≤ 1) :
    (Buffer.ofText name (sourceText declarations)).parse.declarations.map Declaration.bare =
        declarations.map Declaration.bare ∧
      ∀ f ∈ (Buffer.ofText name (sourceText declarations)).parse.findings,
        f.issue.isLexical = false ∧ f.issue.isGrammatical = false := by
  have hspells := spells_sourceText name hprintable
  have hvalid := hspells.valid (allScan_source hprintable)
  obtain ⟨nodes, hreads, hbare⟩ := reads_source name _ false hprintable hnamespace hspells
  obtain ⟨hnodes, hclean⟩ := Buffer.parse_eq hvalid hreads
  constructor
  · rw [hnodes, hbare]
  · exact fun f hf => ⟨Buffer.parse_not_lexical hvalid f hf, hclean f hf⟩

/-- A namespace, an external function, and a function with a quote, a line feed and a step. -/
def greeting : List Declaration :=
  let loc := Location.nowhere
  let str := TypeExpr.named "str" loc
  [.namespaceLine "demo" loc,
    .externFunction ⟨"print", [⟨"text", str, loc⟩], [.void loc], .function, true, loc⟩,
    .function ⟨"greet", [⟨"n", .named "Count" loc, loc⟩], [.void loc, str], .function, false, loc⟩
      [.bind ⟨"quote", none, some (.string "say \\\"hi\\\"" loc), .immutable, loc⟩,
        .namedBlock "loop" loc
          [.expr (.call "print" [.ident "quote" loc, .char '\n' loc] loc), .block [] loc] loc,
        .ret [.binary (.sub .plain) (.step .increment .plain .after (.ident "n" loc) loc)
          (.unary .negate (.int 7 loc) loc) loc] loc] loc]

theorem printable_greeting : ∀ d ∈ greeting, d.Printable := by
  have hname : isName "demo" ∧ isName "print" ∧ isName "text" ∧ isName "str" ∧ isName "greet" ∧
      isName "n" ∧ isName "Count" ∧ isName "quote" ∧ isName "loop" := by decide
  obtain ⟨demo, print, text, str, greet, n, count, quote, loop⟩ := hname
  have hquote : IsQuotable '"' "say \\\"hi\\\"".toList := ⟨by decide, by decide⟩
  have hlines : NoCrLf "say \\\"hi\\\"".toList := noCrLf_of_not_mem (by decide)
  have hbody : Binding.Printable
      ⟨"quote", none, some (.string "say \\\"hi\\\"" .nowhere), .immutable, .nowhere⟩ :=
    ⟨quote, by simp, by rintro e ⟨⟩; exact ⟨hquote, hlines⟩⟩
  rw [greeting]
  simp only [List.forall_mem_cons, Declaration.Printable, Statement.Printable,
    Statement.AllPrintable, Expr.Printable, Expr.AllPrintable]
  refine ⟨demo, ⟨⟨print, ?_, by simp, ?_⟩, trivial, trivial⟩,
    ⟨⟨greet, ?_, by simp, ?_⟩, trivial, hbody, ?_⟩, List.forall_mem_nil _⟩
  all_goals simp [Param.Printable, TypeExpr.Printable, text, str, n, count, print, quote, loop]

/-- The greeting is read back from its source text. -/
theorem parse_sourceText_greeting :
    sourceText greeting =
      "namespace demo ; extern fn print ( text : str ) : void ; " ++
        "fn greet ( n : Count ) : void , str \x7b val quote = \"say \\\"hi\\\"\" ; " ++
        "loop : \x7b print ( ( quote ) , ( '\\n' ) ) ; \x7b \x7d \x7d " ++
        "return ( ( n ) ++ ) - ( - ( 7 ) ) ; \x7d" ∧
      (Buffer.ofText "greeting.tp" (sourceText greeting)).parse.declarations.map Declaration.bare =
        greeting := by
  constructor
  · decide +kernel
  · exact (parse_sourceText "greeting.tp" greeting printable_greeting (by decide)).1

end FrontEnd
