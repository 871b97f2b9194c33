import FrontEnd.Proofs.Parsing.Complete.Statement
import FrontEnd.Proofs.Parsing.Continuation
import FrontEnd.Proofs.Syntax.LongestFile

set_option autoImplicit false

/-! # Statements that stand alone

A statement whose last token is a semicolon or a closing brace can be read without a look at what is
behind it. In a block it therefore leaves the tree that it leaves by itself (`statementTree`), and all
tokens behind it (`WholeStatement.round`). A list of such statements is read one by one
(`runBlock_statements`).

A statement may be derived with the end of the file behind it and yet be read on when something else
stands there: `x := 1` goes on before `+`. It is the last token that rules this out. A derivation that
ends in such a token may be made with any token behind it, and the parser follows the reading that
belongs to it.
-/

namespace FrontEnd.Grammar

open FrontEnd.Grammar.Parser

variable {file : String} {finish : Token} {next : Kind} {p : Phrase} {form : Form}
  {u w rest : List Token} {s : State}

/-- The last token that a state knows is the end of the file. -/
theorem State.At.hasEnd {input : List Token} (hs : s.At file finish input)
    (hv : Valid finish w) : s.HasEnd :=
  (congrArg Token.kind hs.finish_eq).trans hv.finish

/-! ## Derived tokens are valid

A derivation speaks of kinds of tokens, and none of them is that of an invalid token. So whatever is
derived can be read without a fault of the lexer. -/

/-- A test that invalid tokens do not pass. -/
theorem ne_invalid_of (test : Kind → Bool) {kind : Kind} (h : test kind = true)
    (hinvalid : test .invalid = false) : kind ≠ .invalid := by
  rintro rfl
  rw [hinvalid] at h
  cases h

/-- No token is invalid. -/
def AllValid (w : List Token) : Prop := ∀ t ∈ w, t.kind ≠ .invalid

theorem AllValid.nil : AllValid [] := fun _ h => absurd h List.not_mem_nil

theorem AllValid.cons {t : Token} (ht : t.kind ≠ .invalid) (hw : AllValid w) : AllValid (t :: w) :=
  List.forall_mem_cons.mpr ⟨ht, hw⟩

theorem AllValid.append (hu : AllValid u) (hw : AllValid w) : AllValid (u ++ w) :=
  List.forall_mem_append.mpr ⟨hu, hw⟩

theorem AllValid.one {t : Token} (ht : t.kind ≠ .invalid) : AllValid [t] := .cons ht .nil

theorem Derives.valid (h : Derives p w) : AllValid w := by
  induction h with
  | literal ht => exact .one (ne_invalid_of _ ht rfl)
  | name ht => exact .one (by simp [ht])
  | call ht hl _ hr ih =>
      exact .cons (by simp [ht]) (.cons (by simp [hl]) (ih.append (.one (by simp [hr]))))
  | parens hl _ hr ih => exact .cons (by simp [hl]) (ih.append (.one (by simp [hr])))
  | unaryOp ht _ ih | stepBefore ht _ ih | stepAfter ht _ ih =>
    exact .cons (ne_invalid_of _ ht rfl) ih
  | operator ht _ _ ih ih' =>
      exact .cons (ne_invalid_of (fun k => k.binaryOp?.isSome) ht rfl) (ih.append ih')
  | expression _ _ ih ih' => exact ih.append ih'
  | moreExpressions _ hcomma _ ih ih' => exact ih.append (.cons (by simp [hcomma]) ih')
  | noLink | noArguments => exact .nil
  | unary _ ih | oneExpression _ ih | arguments _ ih => exact ih

theorem Optional.valid {P : List Token → Prop} (hP : ∀ {w}, P w → AllValid w)
    (h : Optional P w) : AllValid w := by
  rcases h with rfl | h
  · exact .nil
  · exact hP h

theorem IsToken.valid {kind : Kind} (hk : kind ≠ .invalid) (h : IsToken kind w) : AllValid w := by
  obtain ⟨t, ht, rfl⟩ := h
  exact .one (ht ▸ hk)

theorem DerivesReturn.valid (h : DerivesReturn next w) : AllValid w := by
  have hsemicolon {w : List Token} (h : Optional (IsToken (.mark .semicolon)) w) : AllValid w :=
    h.valid fun h => h.valid (by simp)
  cases h with
  | values ht hes hs => exact .cons (by simp [ht]) (hes.valid.append (hsemicolon hs))
  | bare ht hs => exact .cons (by simp [ht]) (hsemicolon hs)

theorem Forms.valid (h : Forms form next w) : AllValid w := by
  have hsemicolon {w : List Token} (h : Optional (IsToken (.mark .semicolon)) w) : AllValid w :=
    h.valid fun h => h.valid (by simp)
  have htype {w : List Token} (h : Optional DerivesType w) : AllValid w := by
    refine h.valid fun h => ?_
    cases h with
    | type hcolon ht => exact .cons (by simp [hcolon]) (.one (ne_invalid_of _ ht rfl))
  have hinit {w : List Token} (h : Optional DerivesInit w) : AllValid w := by
    refine h.valid fun h => ?_
    cases h with
    | init hsign he => exact .cons (by simp [hsign]) he.valid
  -- every form is made of tokens of given kinds, and of forms
  induction h with
  | keywordBinding hk hn ht hi hs =>
      exact .cons (ne_invalid_of _ hk rfl) (.cons (by simp [hn])
        ((htype ht).append ((hinit hi).append (hsemicolon hs))))
  | define hn hsign he hs =>
      exact .cons (by simp [hn]) (.cons (ne_invalid_of _ hsign rfl) (he.valid.append (hsemicolon hs)))
  | typedBinding hn hcolon ht hi hs =>
      exact .cons (by simp [hn]) (.cons (by simp [hcolon])
        (.cons (ne_invalid_of _ ht rfl) ((hinit hi).append (hsemicolon hs))))
  | namedBlock hn hcolon _ ih => exact .cons (by simp [hn]) (.cons (by simp [hcolon]) ih)
  | block hl _ hr ih => exact .cons (by simp [hl]) (ih.append (.one (by simp [hr])))
  | ret hw => exact hw.valid
  | semicolon ht => exact .one (by simp [ht])
  | expression he ht => exact he.valid.append (.one (by simp [ht]))
  | noStatement => exact .nil
  | moreStatements _ _ ih ih' => exact ih.append ih'
  | binding _ ih | inner _ ih => exact ih

/-! ## Statements by themselves

A statement ends with a semicolon or a brace, so nothing that stands behind it can become a part of
it. It reads in a file of its own as it does anywhere else. -/

/-- Nothing follows the last statement of a file. -/
theorem follows_end : Follows .endOfFile (· = []) where
  absorb := by
    rintro e w he rfl
    exact ⟨e, [], rfl, he, rfl, rfl, .of_next (by simp)⟩
  semicolon := by
    rintro w hk rfl
    cases hk
  next := by
    rintro w rfl
    exact ⟨by simp, by simp, by simp⟩

/-- A derived statement with nothing behind it reads as a whole. -/
theorem Forms.reads_alone (file : String) (hfinish : finish.kind = .endOfFile)
    (h : Forms .statement .endOfFile w) : ∃ node, ReadsForm file finish .statement w node [] := by
  -- what follows is the empty text, which continues nothing
  have hfollows : Follows finish.kind (· = []) := hfinish ▸ follows_end
  have hnext : nextKind finish.kind [] = .endOfFile := hfinish
  rw [← hnext] at h
  rw [← List.append_nil w]
  cases h with
  | binding h =>
      obtain ⟨node, w', hnode, rfl⟩ :=
        hfollows.reads_binding h rfl fun _ hb => hb.reads_block file finish
      exact ⟨_, .binding hnode⟩
  | ret h =>
      obtain ⟨node, w', hnode, rfl⟩ := hfollows.reads_return file h rfl
      exact ⟨_, .ret hnode⟩
  | inner h =>
      obtain ⟨b, hb⟩ := h.reads_block file finish
      exact ⟨_, .inner hb⟩
  | semicolon ht => exact ⟨_, .semicolon ht⟩
  | @expression _ t e he ht =>
      obtain ⟨value, he'⟩ := he.exists_value file
      rw [List.append_assoc]
      exact ⟨_, .expression (he' finish.kind [t] (by rw [nextKind_cons, ht]; rfl)
        (.of_next (by rw [nextKind_cons, ht]; simp))) ht⟩

/-- The tree that the tokens of a statement leave if they stand alone in a file. The node that it
leaves within a block is compared with this tree. -/
def statementTree (file : String) (finish : Token) (w : List Token) : Option Statement :=
  (State.start file ⟨w, finish⟩).blockRound.1

/-- The tokens are a statement that ends in a semicolon or a closing brace. Whether what is behind
them belongs to the statement is then settled by the tokens themselves. -/
structure WholeStatement (w : List Token) : Prop where
  forms : Forms .statement .endOfFile w
  ends : ∃ front stop, w = front ++ [stop] ∧ isTerminator stop.kind = true

namespace WholeStatement

/-- Such a statement reads as its tree, whatever was found and declared before. -/
theorem statement_alone (hw : WholeStatement w) (hs : s.At file finish w)
    (hfinish : finish.kind = .endOfFile) :
    ∃ s', statement statements s = .ok (statementTree file finish w) s' ∧ Goes s [] s' := by
  obtain ⟨node, hnode⟩ := hw.forms.reads_alone file hfinish
  have hinner : CompleteInner w.length statements := fun h hs hv _ => yields_statements h hs hv
  have hyields {t : State} (ht : t.At file finish w) : Yields (statement statements) t node [] :=
    yields_statement hinner hnode ht ⟨hw.forms.valid, hfinish⟩ (Nat.le_succ _)
  have hstart : (State.start file ⟨w, finish⟩).At file finish w := by
    rw [State.start, State.settle_valid fun t ht => hw.forms.valid t (List.mem_of_mem_head? ht)]
    exact ⟨rfl, rfl, rfl⟩
  obtain ⟨u, hu, -⟩ := hyields hstart.exitPanic
  have htree : statementTree file finish w = node := by
    rw [statementTree, State.blockRound_ok hu]
  rw [htree]
  exact hyields hs

/-- In a block such a statement leaves its tree and all tokens behind it. What was found and declared
before has no influence on the tree, so it is the same tree at every place of a file. -/
theorem round (hw : WholeStatement w) (hs : s.At file finish (w ++ rest))
    (hv : Valid finish (w ++ rest)) :
    ∃ s', s.blockRound = (statementTree file finish w, s') ∧ Goes s rest s' := by
  obtain ⟨front, stop, hstop, hends⟩ := hw.ends
  -- by itself the statement is the first run, and within the block it is the second one
  let c : Twins := ⟨True, stop, hends, [], rest, s.exitPanic⟩
  have hc : c.Whole := ⟨trivial, rfl, rfl⟩
  have hfinish : s.exitPanic.HasEnd := hs.exitPanic.hasEnd hv
  have halike : Alike c (s.exitPanic.withTokens w s.finish) s.exitPanic := by
    refine ⟨⟨front, fun x hx => ?_, hstop, ?_⟩, hfinish, hfinish, fun _ => rfl,
      .of_findings rfl rfl⟩
    · exact hw.forms.valid x (hstop ▸ List.mem_append_left _ hx)
    · rw [hs.exitPanic.unread_eq, hstop, List.append_assoc]
      rfl
  obtain ⟨u, hu, hgo⟩ := hw.statement_alone (s := s.exitPanic.withTokens w s.finish)
    ⟨hs.file_eq, hs.finish_eq, rfl⟩ hv.finish
  obtain ⟨s', hs', hnear⟩ := Keeps.statement hc (Keeps.statements hc) halike _ u hu hgo.grammatical
  refine ⟨s', State.blockRound_ok hs', ?_⟩
  have hpast : Past c u s' := by
    refine hnear.resolve_left fun h => ?_
    obtain ⟨x, -, hx, -⟩ := h.tokens
    rw [hgo.unread] at hx
    simp at hx
  have hrest : ∀ x ∈ rest.head?, x.kind ≠ .invalid :=
    fun x hx => hv.tokens x (List.mem_append_right _ (List.mem_of_mem_head? hx))
  have hsame : s' = u.withTokens rest s'.finish := hpast.eq_of_valid hrest
  rw [hsame]
  have hfinish : s'.finish = s.finish := (moves_blockRound s).finish_eq ▸ by
    rw [State.blockRound_ok hs']
  exact ⟨rfl, hgo.file, hfinish, hgo.namespaceLine, hgo.grammatical⟩

end WholeStatement

/-- The trees of statements that stand alone. -/
def statementTrees (file : String) (finish : Token) (statements : List (List Token)) :
    List Statement :=
  statements.flatMap fun w => (statementTree file finish w).toList

/-- Whole statements in front of the rest of a block leave their trees. -/
theorem runBlock_statements {statements : List (List Token)}
    (hall : ∀ w ∈ statements, WholeStatement w)
    (hs : s.At file finish (statements.flatten ++ rest))
    (hv : Valid finish (statements.flatten ++ rest)) :
    ∃ s', s.runBlock = (statementTrees file finish statements ++ s'.runBlock.1, s'.runBlock.2) ∧
      Goes s rest s' := by
  induction statements generalizing s with
  | nil => exact ⟨s, rfl, hs.unread_eq, rfl, rfl, rfl, rfl⟩
  | cons w more ih =>
      rw [List.flatten_cons, List.append_assoc] at hs hv
      have hw := hall w List.mem_cons_self
      obtain ⟨s1, hround, hgo⟩ := hw.round hs hv
      obtain ⟨s', hrun, hgo'⟩ := ih (fun u hu => hall u (List.mem_cons_of_mem w hu)) (hs.goes hgo)
        (hv.of_suffix (List.suffix_append ..))
      -- a statement starts here, so the block does not end
      have hend : s.HasEnd := hs.hasEnd hv
      have he : ¬ s.endsBlock := by
        have hstart : startsStatement s.current.kind := by
          rw [hs.current_kind, nextKind_append]
          exact hw.forms.statement_startsWith
        rintro (hk | hk)
        · rw [hk] at hstart; cases hstart
        · rw [hk] at hstart; cases hstart
      refine ⟨s', ?_, hgo.trans hgo'⟩
      rw [hend.runBlock_round he, hround, hrun, statementTrees, statementTrees, List.flatMap_cons,
        List.append_assoc]

end FrontEnd.Grammar
