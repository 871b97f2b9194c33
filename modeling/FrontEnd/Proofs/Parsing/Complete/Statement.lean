import FrontEnd.Proofs.Parsing.Complete.Expression
import FrontEnd.Proofs.Parsing.Complete.Signature

set_option autoImplicit false

/-! # Statements that can be read are read

The parsers of single statements are given the parser of an inner block, which has to be complete
for all blocks up to a length. The statements of a block are then complete by induction on the
fuel: every statement takes a token.

What kind of statement comes next is decided by the parser from one token or from two, and by the
relation from the production that reads it. That the two agree is clear but for one case: an
expression that starts with a name must not look like a binding (`Reads.not_startsBinding`).
-/

namespace FrontEnd.Grammar

open FrontEnd.Grammar.Parser

variable {s : State} {file : String} {finish t : Token} {input mid rest : List Token}

/-! ## The parts of bindings

A part that is missing is passed over, which needs that the next token is not the one it starts
with. -/

theorem yields_semicolon (h : ReadsSemicolon finish input rest) (hs : s.At file finish input)
    (hv : Valid finish input) : ∃ b, Yields (accept (.mark .semicolon)) s b rest := by
  cases h with
  | none hnext => exact ⟨false, .decline hs hnext⟩
  | some ht => exact ⟨true, .accept hs ht hv.tail.next⟩

theorem yields_optionalType {type : Option TypeExpr} (h : ReadsType file finish input type rest)
    (hs : s.At file finish input) (hv : Valid finish input) :
    Yields optionalType s type rest := by
  unfold optionalType
  cases h with
  | none hnext => exact .bind hs (.decline hs hnext) fun hs => .pure hs _
  | some hcolon ht =>
      refine .bind hs (.accept hs hcolon hv.tail.next) fun hs => ?_
      exact .bind hs (yields_typeExpr ht hs hv.tail _) fun hs => .pure hs _

theorem yields_optionalInit {init : Option Expr} (h : ReadsInit file finish input init rest)
    (hs : s.At file finish input) (hv : Valid finish input) :
    Yields optionalInit s init rest := by
  unfold optionalInit
  have hnext := hv.of_suffix h.suffix
  cases h with
  | none hsign => exact .bind hs (.decline hs hsign) fun hs => .pure hs _
  | some hsign he =>
      refine .bind hs (.accept hs hsign hv.tail.next) fun hs => ?_
      exact .bind hs (yields_expression he hs hnext.next) fun hs => .pure hs _

theorem yields_finishBinding (hs : s.At file finish input) (n : Token) (type : Option TypeExpr)
    (init : Option Expr) (mutability : Mutability) :
    Yields (finishBinding n type init mutability) s
      (.bind ⟨n.lexeme, type, init, mutability, ⟨file, n.position⟩⟩) input :=
  .locate hs (.bind hs (yields_declare hs _ n) fun hs => .pure hs _)

theorem yields_keywordBinding {k : Token} {node : Statement} (hk : isBindingWord k.kind)
    (h : ReadsForm file finish .binding (k :: input) node rest)
    (hs : s.At file finish (k :: input)) (hv : Valid finish (k :: input)) :
    Yields keywordBinding s node rest := by
  unfold keywordBinding
  cases h with
  | @keywordBinding _ n input mid mid' _ type init _ hn htype hinit hsemicolon =>
      have hmid := hv.tail.tail.of_suffix htype.suffix
      have hmid' := hmid.of_suffix hinit.suffix
      refine .bind hs (.take hs hv.tail.next) fun hs => ?_
      refine .bind hs (.expect hs hn _ hv.tail.tail.next) fun hs => ?_
      refine .bind hs (yields_optionalType htype hs hv.tail.tail) fun hs => ?_
      refine .bind hs (yields_optionalInit hinit hs hmid) fun hs => ?_
      obtain ⟨b, hb⟩ := yields_semicolon hsemicolon hs hmid'
      refine .bind hs hb fun hs => ?_
      exact .bind hs (.onlyIf hs (.complain hs rfl n)) fun hs => yields_finishBinding hs n ..
  | define hn | typedBinding hn | namedBlock hn => rw [hn] at hk; cases hk

/-! ## Blocks

The parser of a block is called with the parser of its statements. What is needed of this is that it
reads all blocks that are smaller. -/

/-- The parser reads all blocks of at most `bound` tokens. The bound is what the fuel of the parser
is good for. -/
def CompleteInner (bound : Nat) (inner : Parser (List Statement)) : Prop :=
  ∀ {file : String} {finish : Token} {input rest : List Token} {nodes : List Statement}
    {s : State}, ReadsForm file finish .statements input nodes rest → s.At file finish input →
    Valid finish input → input.length ≤ bound → Yields inner s nodes rest

variable {bound : Nat} {inner : Parser (List Statement)}

theorem yields_block (hinner : CompleteInner bound inner) {b : List Statement × Location}
    (h : ReadsForm file finish .block input b rest) (hs : s.At file finish input)
    (hv : Valid finish input) (hbound : input.length ≤ bound + 1) :
    Yields (block inner) s b rest := by
  unfold block
  cases h with
  | @block l input _ nodes hl hnodes =>
      refine .bind hs (.expect hs hl _ hv.tail.next) fun hs => ?_
      refine .bind hs (.update ⟨hs.unread_eq, rfl, rfl, rfl, rfl⟩) fun hs => ?_
      refine .bind hs (hinner hnodes hs hv.tail (Nat.le_of_succ_le_succ hbound)) fun hs => ?_
      exact .bind hs (.update ⟨hs.unread_eq, rfl, rfl, rfl, rfl⟩) fun hs => .locate hs (.pure hs _)

theorem yields_namedBlock (hinner : CompleteInner bound inner) {b : List Statement × Location}
    (h : ReadsForm file finish .block input b rest) (hs : s.At file finish input)
    (hv : Valid finish input) (hbound : input.length ≤ bound + 1) (n : Token) :
    Yields (namedBlock inner n) s (.namedBlock n.lexeme ⟨file, n.position⟩ b.1 b.2) rest := by
  unfold namedBlock
  refine .get (.bind hs (.onlyIf hs (.complain hs rfl n)) fun hs => ?_)
  exact .bind hs (yields_block hinner h hs hv hbound) fun hs => .locate hs (.pure hs _)

/-- A first value behind the sign, whatever mutability the sign gives. -/
theorem yields_define {e : Expr} (he : Reads file finish.kind .expression input e mid)
    (hsemicolon : ReadsSemicolon finish mid rest) (hs : s.At file finish input)
    (hv : Valid finish input) (n : Token) (mutability : Mutability) :
    Yields (do
      let node ← finishBinding n none (some (← expression)) mutability
      let _ ← accept (.mark .semicolon)
      return node) s (.bind ⟨n.lexeme, none, some e, mutability, ⟨file, n.position⟩⟩) rest := by
  have hmid := hv.of_suffix he.suffix
  refine .bind hs (yields_expression he hs hmid.next) fun hs => ?_
  refine .bind hs (yields_finishBinding hs n ..) fun hs => ?_
  obtain ⟨b, hb⟩ := yields_semicolon hsemicolon hs hmid
  exact .bind hs hb fun hs => .pure hs _

theorem yields_nameBinding (hinner : CompleteInner bound inner) {n : Token} {node : Statement}
    (hn : n.kind = .identifier) (h : ReadsForm file finish .binding (n :: input) node rest)
    (hs : s.At file finish (n :: input)) (hv : Valid finish (n :: input))
    (hbound : (n :: input).length ≤ bound + 1) : Yields (nameBinding inner) s node rest := by
  unfold nameBinding
  cases h with
  | keywordBinding hk => rw [hn] at hk; cases hk
  | @define _ sign input mid _ e _ hsign he hsemicolon =>
      refine .bind hs (.take hs hv.tail.next) fun hs => ?_
      refine .bind hs (.take hs hv.tail.tail.next) fun hs => ?_
      unfold mutabilityOfSign
      rcases isDefineSign_cases hsign with hsign | hsign
      · rw [hsign]
        exact yields_define he hsemicolon hs hv.tail.tail n .mutable
      · rw [hsign]
        exact yields_define he hsemicolon hs hv.tail.tail n .constant
  | @typedBinding _ colon t input mid _ init _ hcolon ht hinit hsemicolon =>
      -- a type does not start with a brace, so this is no named block
      have hmid := hv.tail.tail.tail.of_suffix hinit.suffix
      refine .bind hs (.take hs hv.tail.next) fun hs => ?_
      refine .bind hs (.take hs hv.tail.tail.next) fun hs => ?_
      rw [hcolon]
      refine .current ?_
      rw [if_neg]
      · refine .bind hs (yields_typeExpr ht hs hv.tail.tail _) fun hs => ?_
        refine .bind hs (yields_optionalInit hinit hs hv.tail.tail.tail) fun hs => ?_
        refine .bind hs (yields_finishBinding hs n ..) fun hs => ?_
        obtain ⟨b, hb⟩ := yields_semicolon hsemicolon hs hmid
        exact .bind hs hb fun hs => .pure hs _
      · rw [hs.current_eq]
        intro hk
        rw [hk] at ht
        cases ht
  | @namedBlock _ colon input _ b _ hcolon hb =>
      refine .bind hs (.take hs hv.tail.next) fun hs => ?_
      refine .bind hs (.take hs hv.tail.tail.next) fun hs => ?_
      rw [hcolon]
      refine .current ?_
      simp only [List.length_cons] at hbound
      rw [if_pos]
      · exact yields_namedBlock hinner hb hs hv.tail.tail (by omega) n
      · rw [hs.current_kind]
        cases hb with
        | block hl => exact hl

/-! ## Returns -/

/-- No value of a `return` starts like the end of one. -/
theorem endsReturn_of_startsExpression {kind : Kind} (h : startsExpression kind) :
    endsReturn kind = false := by
  unfold endsReturn
  split
  · cases h
  · cases h
  · cases h
  · rfl

theorem yields_returnStatement {node : Statement}
    (h : ReadsReturn file finish input node rest) (hs : s.At file finish input)
    (hv : Valid finish input) : Yields returnStatement s node rest := by
  unfold returnStatement
  -- a return outside of a function is reported, and read like any other
  have hreport {k : Token} {s : State} {b : Bool} {input : List Token}
      (hs : s.At file finish input) :
      Yields (onlyIf b (complain .returnOutsideFunction k)) s () input :=
    .onlyIf hs (.complain hs rfl k)
  cases h with
  | bare ht hend hsemicolon =>
      refine .bind hs (.take hs hv.tail.next) fun hs => .get ?_
      refine .bind hs (hreport hs) fun hs => ?_
      have hvalues : Yields returnValues _ [] _ := .current (by
        rw [if_pos (by rwa [hs.current_kind, endsReturn_eq])]
        exact .pure hs [])
      refine .bind hs hvalues fun hs => ?_
      obtain ⟨b, hb⟩ := yields_semicolon hsemicolon hs hv.tail
      exact .bind hs hb fun hs => .locate hs (.pure hs _)
  | @values t input mid _ es ht hes hsemicolon =>
      have hmid := hv.tail.of_suffix hes.suffix
      refine .bind hs (.take hs hv.tail.next) fun hs => .get ?_
      refine .bind hs (hreport hs) fun hs => ?_
      have hvalues : Yields returnValues _ es mid := .current (by
        rw [if_neg]
        · exact yields_expressions hes hs hmid.next
        · rw [hs.current_kind, endsReturn_of_startsExpression hes.startsWith]
          simp)
      refine .bind hs hvalues fun hs => ?_
      obtain ⟨b, hb⟩ := yields_semicolon hsemicolon hs hmid
      exact .bind hs hb fun hs => .locate hs (.pure hs _)

/-! ## Statements

A semicolon stands behind an expression that is a statement. So the name in front of it stands alone,
or with a link or a parenthesis behind it, and neither of these is the sign of a binding. -/

/-- A name with a token behind it that cannot go on an expression is an expression by itself. -/
theorem Reads.name_alone {behind : Kind} {n : Token} {e : Expr} (hn : n.kind = .identifier)
    (h : Reads file behind .expression (n :: input) e rest)
    (hlevel : (nextKind behind input).level? = none)
    (hparen : nextKind behind input ≠ .mark .leftParen) : rest = input := by
  cases h with
  | expression he hxs _ =>
      -- a name cannot be a call here, so it is the whole operand
      have hmid : ∃ mid, mid = input ∧ ∃ xs, Reads file behind .links mid xs rest := by
        cases he with
        | @unaryOp _ _ _ op _ ht => rw [hn] at ht; cases op <;> cases ht
        | stepBefore ht => rw [hn] at ht; cases ht
        | unary hp =>
            cases hp with
            | number ht | string ht | char ht | parens ht => rw [hn] at ht; cases ht
            | @bool _ _ value ht => rw [hn] at ht; cases value <;> cases ht
            | name => exact ⟨_, rfl, _, hxs⟩
            | call _ hl => exact absurd hl hparen
      obtain ⟨_, rfl, xs, hxs⟩ := hmid
      cases hxs with
      | noLink => rfl
      | stepAfter ht => rw [nextKind_cons, ht] at hlevel; cases hlevel
      | operator ht => rw [nextKind_cons, ht] at hlevel; cases hlevel

theorem State.At.startsBinding_iff (h : s.At file finish (t :: rest)) :
    startsBinding s ↔ t.kind = .identifier ∧
      (isDefineSign (nextKind finish.kind rest) ∨ nextKind finish.kind rest = .mark .colon) := by
  unfold startsBinding
  rw [h.current_eq, h.lookahead_kind, Bool.and_eq_true, decide_eq_true_eq]
  refine and_congr_right fun _ => ?_
  generalize nextKind finish.kind rest = k
  unfold isDefineSign
  split <;> simp_all

/-- An expression with a semicolon behind it is not mistaken for a binding. -/
theorem Reads.not_startsBinding {e : Expr}
    (h : Reads file finish.kind .expression input e (t :: rest)) (ht : t.kind = .mark .semicolon)
    (hs : s.At file finish input) : ¬ startsBinding s := by
  cases input with
  | nil =>
      have hlength := h.length_le
      simp at hlength
  | cons n more =>
      rw [hs.startsBinding_iff]
      rintro ⟨hn, hsign⟩
      -- the sign of a binding does not continue an expression, so the name would be all of it
      have hlevel : (nextKind finish.kind more).level? = none ∧
          nextKind finish.kind more ≠ .mark .leftParen ∧
          nextKind finish.kind more ≠ .mark .semicolon := by
        rcases hsign with hsign | hsign
        · rcases isDefineSign_cases hsign with hsign | hsign
          · rw [hsign]
            exact ⟨rfl, by simp, by simp⟩
          · rw [hsign]
            exact ⟨rfl, by simp, by simp⟩
        · rw [hsign]
          exact ⟨rfl, by simp, by simp⟩
      refine hlevel.2.2 ?_
      rw [← h.name_alone hn hlevel.1 hlevel.2.1]
      exact ht

theorem yields_statement (hinner : CompleteInner bound inner) {node : Option Statement}
    (h : ReadsForm file finish .statement input node rest) (hs : s.At file finish input)
    (hv : Valid finish input) (hbound : input.length ≤ bound + 1) :
    Yields (statement inner) s node rest := by
  unfold statement
  refine .get ?_
  cases h with
  | binding h =>
      obtain ⟨t, more, rfl, hk | ⟨hn, hsign⟩⟩ := h.binding_head
      · have hread := yields_keywordBinding hk h hs hv
        rw [hs.current_eq]
        rcases isBindingWord_cases hk with hk | hk | hk
        · rw [hk]
          exact .bind hs hread fun hs => .pure hs _
        · rw [hk]
          exact .bind hs hread fun hs => .pure hs _
        · rw [hk]
          exact .bind hs hread fun hs => .pure hs _
      · rw [hs.current_eq, hn]
        dsimp only
        rw [if_pos (hs.startsBinding_iff.mpr ⟨hn, hsign⟩)]
        exact .bind hs (yields_nameBinding hinner hn h hs hv hbound) fun hs => .pure hs _
  | ret h =>
      have hread := yields_returnStatement h hs hv
      have hk : s.current.kind = .word .returnWord := by
        rw [hs.current_kind]
        cases h with
        | bare ht | values ht => exact ht
      rw [hk]
      exact .bind hs hread fun hs => .pure hs _
  | inner h =>
      have hread := yields_block hinner h hs hv hbound
      have hk : s.current.kind = .mark .leftBrace := by
        rw [hs.current_kind]
        cases h with
        | block hl => exact hl
      rw [hk]
      exact .bind hs hread fun hs => .pure hs _
  | semicolon ht =>
      rw [hs.current_eq, ht]
      exact .bind hs (.advance hs hv.tail.next) fun hs => .pure hs _
  | @expression t _ _ e he ht =>
      have hmid := hv.of_suffix he.suffix
      have hbinding := he.not_startsBinding ht hs
      have hstart := he.startsWith
      have hread := yields_expression he hs hmid.next
      rw [← hs.current_kind] at hstart
      generalize s.current.kind = k at hstart
      -- all other kinds start no expression
      split
      case h_11 =>
        rw [if_neg hbinding]
        refine .bind hs hread fun hs => ?_
        exact .bind hs (.expect hs ht _ hmid.tail.next) fun hs => .pure hs _
      all_goals cases hstart

/-! ## Sequences of statements

The fuel bounds the tokens of a block. Each statement takes one of them, so that the rest is within
a smaller bound. -/

theorem State.At.exitPanic (h : s.At file finish input) : s.exitPanic.At file finish input :=
  ⟨h.file_eq, h.finish_eq, h.unread_eq⟩

/-- The closing brace of a block. -/
theorem goes_closeBlock (hs : s.At file finish (t :: rest)) (ht : t.kind = .mark .rightBrace)
    (hv : Valid finish (t :: rest)) : Goes s rest s.closeBlock := by
  have hexit := hs.exitPanic
  unfold State.closeBlock
  dsimp only
  rw [if_pos (by rwa [hexit.current_eq])]
  have hgo : Goes s s.unread s.exitPanic := ⟨rfl, rfl, rfl, rfl, rfl⟩
  exact hgo.trans (hexit.advance hv.tail.next)

theorem complete_statementsWithin (fuel : Nat) : CompleteInner fuel (statementsWithin fuel) := by
  induction fuel with
  | zero =>
      intro file finish input rest nodes s h hs hv hbound
      have hnil := List.eq_nil_of_length_eq_zero (Nat.le_zero.mp hbound)
      subst hnil
      cases h with
      | moreStatements hnode =>
          have hlength := hnode.statement_length_lt
          simp at hlength
  | succ fuel ih =>
      intro file finish input rest nodes s h hs hv hbound
      cases h with
      | noStatement ht =>
          refine ⟨s.closeBlock, statementsWithin_end (.inl ?_), goes_closeBlock hs ht hv⟩
          rw [hs.current_eq]
          exact ht
      | @moreStatements _ mid _ node nodes hnode hnodes =>
          -- a statement takes a token, so what is left for the others is within the smaller bound
          have hlength := hnode.statement_length_lt
          have hstart := hnode.statement_startsWith
          have hmid := hv.of_suffix hnode.suffix
          obtain ⟨s1, h1, hg1⟩ := yields_statement ih hnode hs.exitPanic hv hbound
          have hs1 := hs.exitPanic.goes hg1
          obtain ⟨s2, h2, hg2⟩ := ih hnodes hs1 hmid (by omega)
          refine ⟨s2, statementsWithin_ok ?_ h1 h2, ?_⟩
          · rw [State.endsBlock, hs.current_kind]
            rintro (hk | hk)
            · rw [hk] at hstart; cases hstart
            · rw [hk] at hstart; cases hstart
          · have hgo : Goes s s.unread s.exitPanic := ⟨rfl, rfl, rfl, rfl, rfl⟩
            exact hgo.trans (hg1.trans hg2)

theorem yields_statements {nodes : List Statement}
    (h : ReadsForm file finish .statements input nodes rest) (hs : s.At file finish input)
    (hv : Valid finish input) : Yields statements s nodes rest := by
  refine .get (complete_statementsWithin _ h hs hv ?_)
  rw [hs.unread_eq]
  exact Nat.le_succ _

end FrontEnd.Grammar
