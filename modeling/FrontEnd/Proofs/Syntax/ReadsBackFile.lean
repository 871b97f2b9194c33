import FrontEnd.Proofs.Syntax.ReadsBack

set_option autoImplicit false

/-! # Source text of files reads back

The same for types, heads of functions, statements and declarations. Semicolons are always written,
so each of them reads back whatever follows it.

Trees keep less than was written: a semicolon that stands alone leaves no node, and a name that is
declared by `:=` is bound as one declared by a keyword. The source text of a tree uses one of the
forms throughout, and reading it gives back the tree.
-/

namespace FrontEnd.Grammar

open Lexeme

variable (file : String) (finish : Token) (rest : List Token) {w : List Token}

/-! ## Types and the heads of functions

Both lists of a head are written with commas between their parts. The last part is the one that has
no comma behind it, so the induction is on the list with its last two parts told apart. -/

theorem typeTree_readsBack {t : Token} {type : TypeExpr} (h : type.Printable)
    (ht : t.bare = type.lexeme) : isType t.kind ∧ (typeTree file t).bare = type.bare := by
  cases type with
  | void loc =>
      have hk : t.kind = .builtin .void := Token.bare_kind ht
      rw [typeTree, if_pos hk, hk]
      exact ⟨rfl, rfl⟩
  | named name loc =>
      have htext : t.lexeme = name := Token.bare_text ht
      have hk : t.kind = wordKind name.toList := Token.bare_kind ht
      -- the name of a builtin type has a kind of its own
      have hkind : isType t.kind ∧ t.kind ≠ .builtin .void := by
        rw [hk]
        rcases h with h | ⟨b, hb, rfl⟩
        · rw [isName, Bool.and_eq_true, beq_iff_eq] at h
          rw [h.2]
          exact ⟨rfl, by simp⟩
        · rw [(wordKind_builtin b).2]
          exact ⟨rfl, fun he => hb (Kind.builtin.inj he)⟩
      rw [typeTree, if_neg hkind.2, htext]
      exact ⟨hkind.1, rfl⟩

theorem reads_types {types : List TypeExpr} (hne : types ≠ []) (h : ∀ t ∈ types, t.Printable)
    (hw : Spells w (commaSeparated (types.map fun t => [t.lexeme])))
    (hnext : nextKind finish.kind rest ≠ .mark .comma) :
    ∃ types', ReadsTypes file finish (w ++ rest) types' rest ∧
      types'.map TypeExpr.bare = types.map TypeExpr.bare := by
  induction types generalizing w with
  | nil => exact absurd rfl hne
  | cons type types ih =>
      have htype := h type List.mem_cons_self
      -- the last type is followed by no comma, all others are
      cases types with
      | nil =>
          obtain ⟨t, v, rfl, ht, hv⟩ := hw.cons
          obtain rfl := Spells.nil_iff.mp hv
          obtain ⟨hk, hbare⟩ := typeTree_readsBack file htype ht
          exact ⟨_, .last hk hnext, by simp [hbare]⟩
      | cons type₂ types =>
          rw [List.map_cons, List.map_cons, commaSeparated_cons_cons] at hw
          obtain ⟨t, v, rfl, ht, hv⟩ := hw.cons
          obtain ⟨comma, v, rfl, hcomma, hv'⟩ := hv.cons
          obtain ⟨hk, hbare⟩ := typeTree_readsBack file htype ht
          obtain ⟨types', htypes', hbares⟩ :=
            ih (by simp) (fun t ht => h t (List.mem_cons_of_mem _ ht)) hv'
          refine ⟨_, .more hk (Token.bare_kind hcomma) htypes', ?_⟩
          rw [List.map_cons, List.map_cons, hbare, hbares]

theorem paramTree_readsBack {n t : Token} {p : Param} (h : p.Printable)
    (hn : n.bare = .name p.name) (ht : t.bare = p.type.lexeme) :
    isType t.kind ∧ (paramTree file n t).bare = p.bare := by
  obtain ⟨hk, hbare⟩ := typeTree_readsBack file h.2 ht
  have htext : n.lexeme = p.name := Token.bare_text hn
  refine ⟨hk, ?_⟩
  rw [paramTree, Param.bare, htext, hbare, Param.bare]

theorem reads_params {params : List Param} (hne : params ≠ []) (h : ∀ p ∈ params, p.Printable)
    (hw : Spells w (commaSeparated (params.map Param.lexemes)))
    (hnext : nextKind finish.kind rest ≠ .mark .comma) :
    ∃ params', ReadsParams file finish (w ++ rest) params' rest ∧
      params'.map Param.bare = params.map Param.bare := by
  induction params generalizing w with
  | nil => exact absurd rfl hne
  | cons p params ih =>
      have hp := h p List.mem_cons_self
      -- the last argument is followed by no comma, all others are
      cases params with
      | nil =>
          obtain ⟨n, v, rfl, hn, hv⟩ := hw.cons
          obtain ⟨colon, v, rfl, hcolon, hv⟩ := hv.cons
          obtain ⟨t, v, rfl, ht, hv⟩ := hv.cons
          obtain rfl := Spells.nil_iff.mp hv
          obtain ⟨hk, hbare⟩ := paramTree_readsBack file hp hn ht
          exact ⟨_, .last (Token.bare_kind hn) (Token.bare_kind hcolon) hk hnext, by simp [hbare]⟩
      | cons p₂ params =>
          rw [List.map_cons, List.map_cons, commaSeparated_cons_cons] at hw
          obtain ⟨n, v, rfl, hn, hv⟩ := hw.cons
          obtain ⟨colon, v, rfl, hcolon, hv⟩ := hv.cons
          obtain ⟨t, v, rfl, ht, hv⟩ := hv.cons
          obtain ⟨comma, v, rfl, hcomma, hv'⟩ := hv.cons
          obtain ⟨hk, hbare⟩ := paramTree_readsBack file hp hn ht
          obtain ⟨params', hparams', hbares⟩ :=
            ih (by simp) (fun p hp => h p (List.mem_cons_of_mem _ hp)) hv'
          refine ⟨_, .more (Token.bare_kind hn) (Token.bare_kind hcolon) hk
            (Token.bare_kind hcomma) hparams', ?_⟩
          rw [List.map_cons, List.map_cons, hbare, hbares]

theorem reads_paramList {params : List Param} (h : ∀ p ∈ params, p.Printable) {r : Token}
    (hw : Spells w (commaSeparated (params.map Param.lexemes)))
    (hr : r.kind = .mark .rightParen) :
    ∃ params', ReadsParamList file finish (w ++ r :: rest) params' rest ∧
      params'.map Param.bare = params.map Param.bare := by
  by_cases hne : params = []
  · subst hne
    rw [Spells.nil_iff.mp hw]
    exact ⟨[], .none hr, rfl⟩
  · obtain ⟨params', hparams', hbare⟩ := reads_params file finish
      (r :: rest) hne h hw (by rw [nextKind_cons, hr]; simp)
    exact ⟨params', .some hparams' hr, hbare⟩

theorem functionKindOf_keyword (kind : FunctionKind) :
    functionKindOf (.word kind.keyword) = kind := by
  cases kind <;> rfl

/-- The head of a function reads back. -/
theorem reads_prototype {p : Prototype} (h : p.Printable) (hw : Spells w p.lexemes)
    (hnext : nextKind finish.kind rest ≠ .mark .comma) :
    ∃ k v, w = k :: v ∧ k.kind = .word p.kind.keyword ∧
      ∃ head, ReadsHead file finish p.isExtern (k :: (v ++ rest)) head rest ∧
        head.bare = p.bare := by
  rw [Prototype.lexemes] at hw
  obtain ⟨k, v1, rfl, hk, hv1⟩ := hw.cons
  obtain ⟨n, v2, rfl, hn, hv2⟩ := hv1.cons
  obtain ⟨u, v3, rfl, hu, hv3⟩ := hv2.append
  obtain ⟨l, u, r, rfl, hl, hu', hr⟩ := hu.parenthesized
  obtain ⟨colon, v, rfl, hcolon, hv⟩ := hv3.cons
  -- both lists are read back as trees, which are then those of the head
  obtain ⟨params, hparams, hpbare⟩ := reads_paramList file finish
    (colon :: (v ++ rest)) h.params hu' hr
  obtain ⟨types, htypes, htbare⟩ := reads_types file finish rest h.returns_ne_nil h.returns hv hnext
  have hkind : k.kind = .word p.kind.keyword := Token.bare_kind hk
  have htext : n.lexeme = p.name := Token.bare_text hn
  have hhead : ReadsHead file finish p.isExtern
      (k :: n :: l :: (u ++ r :: (colon :: (v ++ rest))))
      ⟨n.lexeme, params, types, functionKindOf k.kind, p.isExtern, ⟨file, n.position⟩⟩ rest :=
    .head (Token.bare_kind hn) hl hparams (.written (Token.bare_kind hcolon) htypes)
  refine ⟨k, _, rfl, hkind, ⟨n.lexeme, params, types, functionKindOf k.kind, p.isExtern,
    ⟨file, n.position⟩⟩, ?_, ?_⟩
  · rw [List.cons_append, List.append_assoc, List.cons_append, List.append_assoc]
    exact hhead
  · simp only [Prototype.bare, hpbare, htbare, htext, hkind, functionKindOf_keyword]

/-! ## Parts of statements

Semicolons are always written, so each part ends in front of a token that is known. -/

theorem reads_semicolon {finish t : Token} {rest : List Token} (ht : t.bare = mark .semicolon) :
    ReadsSemicolon finish (t :: rest) rest := .some (Token.bare_kind ht)

theorem reads_optionalType {type : Option TypeExpr} (h : ∀ t ∈ type, t.Printable)
    (hw : Spells w (type.elim [] fun t => [mark .colon, t.lexeme]))
    (hnext : nextKind finish.kind rest ≠ .mark .colon) :
    ∃ type', ReadsType file finish (w ++ rest) type' rest ∧
      type'.map TypeExpr.bare = type.map TypeExpr.bare := by
  cases type with
  | none =>
      obtain rfl := Spells.nil_iff.mp hw
      exact ⟨none, .none hnext, rfl⟩
  | some type =>
      obtain ⟨colon, v, rfl, hcolon, hv⟩ := hw.cons
      obtain ⟨t, v, rfl, ht, hv'⟩ := hv.cons
      obtain rfl := Spells.nil_iff.mp hv'
      obtain ⟨hk, hbare⟩ := typeTree_readsBack file (h type rfl) ht
      exact ⟨_, .some (Token.bare_kind hcolon) hk, by simp [hbare]⟩

theorem reads_optionalInit {init : Option Expr} (h : ∀ e ∈ init, e.Printable)
    (hw : Spells w (init.elim [] fun e => fixed (.operator .assign) :: e.lexemes)) {t : Token}
    (ht : t.kind = .mark .semicolon) :
    (∃ init', ReadsInit file finish (w ++ t :: rest) init' (t :: rest) ∧
      init'.map Expr.bare = init.map Expr.bare) ∧
      nextKind finish.kind (w ++ t :: rest) ≠ .mark .colon := by
  cases init with
  | none =>
      obtain rfl := Spells.nil_iff.mp hw
      rw [List.nil_append, nextKind_cons, ht]
      exact ⟨⟨none, .none (by rw [nextKind_cons, ht]; simp), rfl⟩, by simp⟩
  | some e =>
      obtain ⟨sign, v, rfl, hsign, hv⟩ := hw.cons
      have hk : sign.kind = .operator .assign := Token.bare_kind hsign
      obtain ⟨e', he', hbare⟩ := Expr.readsBack file finish.kind (h e rfl)
        (t :: rest) hv (by rw [nextKind_cons, ht]; rfl) (by rw [nextKind_cons, ht]; simp)
      refine ⟨⟨some e', .some hk he', by simp [hbare]⟩, ?_⟩
      rw [List.cons_append, nextKind_cons, hk]
      simp

theorem isBindingWord_keyword (mutability : Mutability) :
    isBindingWord (.word mutability.keyword) ∧
      Parser.mutabilityOf (.word mutability.keyword) = mutability := by
  cases mutability <;> exact ⟨rfl, rfl⟩

/-- A binding reads back. -/
theorem reads_bind {b : Binding} (h : b.Printable) (hw : Spells w b.lexemes) :
    ∃ b', ReadsForm file finish .binding (w ++ rest) (Statement.bind b') rest ∧
      b'.bare = b.bare := by
  obtain ⟨-, htype, hinit⟩ := h
  rw [Binding.lexemes] at hw
  obtain ⟨k, v1, rfl, hk, hv1⟩ := hw.cons
  obtain ⟨n, v2, rfl, hn, hv2⟩ := hv1.cons
  obtain ⟨u, v3, rfl, hu, hv3⟩ := hv2.append
  obtain ⟨v, t, rfl, hv, ht⟩ := hv3.concat
  obtain ⟨⟨init, hinit', hibare⟩, hcolon⟩ := reads_optionalInit file finish
    rest hinit hv (Token.bare_kind ht)
  obtain ⟨type, htype', htbare⟩ := reads_optionalType file finish _ htype hu hcolon
  have hkind : k.kind = .word b.mutability.keyword := Token.bare_kind hk
  obtain ⟨hword, hmutability⟩ := isBindingWord_keyword b.mutability
  have htext : n.lexeme = b.name := Token.bare_text hn
  rw [List.cons_append, List.cons_append, List.append_assoc, List.append_assoc]
  refine ⟨_, .keywordBinding (by rw [hkind]; exact hword) (Token.bare_kind hn) htype' hinit'
    (reads_semicolon ht), ?_⟩
  simp only [Binding.bare, htbare, hibare, htext, hkind, hmutability]

/-- A `return` reads back. -/
theorem reads_ret {values : List Expr} (h : Expr.AllPrintable values) (loc : Location)
    (hw : Spells w (Statement.ret values loc).lexemes) :
    ∃ s, ReadsReturn file finish (w ++ rest) s rest ∧ s.bare = (Statement.ret values loc).bare := by
  rw [Statement.lexemes] at hw
  obtain ⟨k, v1, rfl, hk, hv1⟩ := hw.cons
  obtain ⟨v, t, rfl, hv, ht⟩ := hv1.concat
  have htk : t.kind = .mark .semicolon := Token.bare_kind ht
  rw [List.cons_append, List.append_assoc]
  by_cases hne : values = []
  · subst hne
    obtain rfl := Spells.nil_iff.mp hv
    refine ⟨_, .bare (Token.bare_kind hk) ?_ (reads_semicolon ht), ?_⟩
    · rw [List.nil_append, List.cons_append, nextKind_cons, htk]
      rfl
    · rw [Statement.bare, Statement.bare]
  · obtain ⟨values', hvalues', hbare⟩ := reads_commaSeparated (t :: rest) hne
      (Expr.readsBack_all file finish.kind h) hv
      (by rw [nextKind_cons, htk]; rfl) (by rw [nextKind_cons, htk]; simp)
      (by rw [nextKind_cons, htk]; simp)
    refine ⟨_, .values (Token.bare_kind hk) hvalues' (reads_semicolon ht), ?_⟩
    rw [Statement.bare, Statement.bare, hbare]

/-! ## Statements

Statements contain statements, so the two lemmas, for one and for many, are proved together by
recursion on the trees. -/

theorem reads_expr {e : Expr} (h : e.Printable) (hw : Spells w (Statement.expr e).lexemes) :
    ∃ s, ReadsForm file finish .statement (w ++ rest) (some s) rest ∧
      s.bare = (Statement.expr e).bare := by
  rw [Statement.lexemes] at hw
  obtain ⟨v, t, rfl, hv, ht⟩ := hw.concat
  have htk : t.kind = .mark .semicolon := Token.bare_kind ht
  obtain ⟨e', he', hbare⟩ := Expr.readsBack file finish.kind h
    (t :: rest) hv (by rw [nextKind_cons, htk]; rfl) (by rw [nextKind_cons, htk]; simp)
  rw [List.append_assoc]
  refine ⟨_, .expression he' htk, ?_⟩
  rw [Statement.bare, Statement.bare, hbare]

/-- A block in braces reads back if its statements do. The closing brace is given to the statements as
what stands behind them. -/
theorem reads_braced {statements : List Statement}
    (h : ∀ {w : List Token} (rest : List Token) {r : Token},
      Spells w (Statement.lexemesAll statements) → r.kind = .mark .rightBrace →
      ∃ nodes, ReadsForm file finish .statements (w ++ r :: rest) nodes rest ∧
        Statement.bareAll nodes = Statement.bareAll statements)
    (hw : Spells w (braced (Statement.lexemesAll statements))) :
    nextKind finish.kind (w ++ rest) = .mark .leftBrace ∧
      ∃ b, ReadsForm file finish .block (w ++ rest) b rest ∧
        Statement.bareAll b.1 = Statement.bareAll statements := by
  obtain ⟨l, u, r, rfl, hl, hu, hr⟩ := hw.braced
  obtain ⟨nodes, hnodes, hbare⟩ := h rest hu hr
  rw [List.cons_append, List.append_assoc]
  exact ⟨hl, _, .block hl hnodes, hbare⟩

theorem reads_namedBlock {name : String} {nameLoc loc : Location} {statements : List Statement}
    (h : ∀ {w : List Token} (rest : List Token) {r : Token},
      Spells w (Statement.lexemesAll statements) → r.kind = .mark .rightBrace →
      ∃ nodes, ReadsForm file finish .statements (w ++ r :: rest) nodes rest ∧
        Statement.bareAll nodes = Statement.bareAll statements)
    (hw : Spells w (Statement.namedBlock name nameLoc statements loc).lexemes) :
    ∃ s, ReadsForm file finish .binding (w ++ rest) s rest ∧
      s.bare = (Statement.namedBlock name nameLoc statements loc).bare := by
  rw [Statement.lexemes] at hw
  obtain ⟨n, v1, rfl, hn, hv1⟩ := hw.cons
  obtain ⟨colon, v, rfl, hcolon, hv⟩ := hv1.cons
  obtain ⟨-, b, hb, hbare⟩ := reads_braced file finish rest h hv
  have htext : n.lexeme = name := Token.bare_text hn
  refine ⟨_, .namedBlock (Token.bare_kind hn) (Token.bare_kind hcolon) hb, ?_⟩
  rw [Statement.bare, Statement.bare, hbare, htext]

mutual

/-- A printable statement reads back. -/
theorem Statement.readsBack : ∀ {s : Statement}, s.Printable →
    ∀ {w : List Token} (rest : List Token), Spells w s.lexemes →
    ∃ s', ReadsForm file finish .statement (w ++ rest) (some s') rest ∧ s'.bare = s.bare
  | .expr _, h, _, rest, hw => reads_expr file finish rest h hw
  | .bind b, h, w, rest, hw => by
      rw [Statement.lexemes] at hw
      obtain ⟨b', hb', hbare⟩ := reads_bind file finish rest h hw
      refine ⟨_, .binding hb', ?_⟩
      rw [Statement.bare, Statement.bare, hbare]
  | .ret values loc, h, w, rest, hw => by
      obtain ⟨s, hs, hbare⟩ :=
        reads_ret file finish rest h loc hw
      exact ⟨s, .ret hs, hbare⟩
  | .block statements _, h, w, rest, hw => by
      rw [Statement.lexemes] at hw
      obtain ⟨-, b, hb, hbare⟩ := reads_braced file finish rest (Statement.readsBack_all h) hw
      refine ⟨_, .inner hb, ?_⟩
      rw [Statement.bare, Statement.bare, hbare]
  | .namedBlock _ _ _ _, h, w, rest, hw => by
      obtain ⟨s, hs, hbare⟩ := reads_namedBlock file finish rest (Statement.readsBack_all h.2) hw
      exact ⟨s, .binding hs, hbare⟩

theorem Statement.readsBack_all : ∀ {ss : List Statement}, Statement.AllPrintable ss →
    ∀ {w : List Token} (rest : List Token) {r : Token},
      Spells w (Statement.lexemesAll ss) → r.kind = .mark .rightBrace →
      ∃ nodes, ReadsForm file finish .statements (w ++ r :: rest) nodes rest ∧
        Statement.bareAll nodes = Statement.bareAll ss
  | [], _, w, rest, r, hw, hr => by
      rw [Statement.lexemesAll] at hw
      rw [Spells.nil_iff.mp hw]
      exact ⟨[], .noStatement hr, rfl⟩
  | s :: ss, h, w, rest, r, hw, hr => by
      rw [Statement.lexemesAll] at hw
      obtain ⟨u, v, rfl, hu, hv⟩ := hw.append
      obtain ⟨nodes, hnodes, hbares⟩ := Statement.readsBack_all h.2 rest hv hr
      obtain ⟨node, hnode, hbare⟩ := Statement.readsBack h.1 (v ++ r :: rest) hu
      rw [List.append_assoc]
      refine ⟨_, .moreStatements hnode hnodes, ?_⟩
      rw [Option.toList_some, List.singleton_append, Statement.bareAll, Statement.bareAll, hbare,
        hbares]

end

/-! ## Declarations

A namespace line reads back like any other declaration, but a second one leaves no node. Files are
therefore read back with the relation that remembers the first one. -/

/-- A printable declaration other than a namespace line reads back. -/
theorem Declaration.readsBack {d : Declaration} (h : d.Printable) (hd : d.isNamespaceLine = false)
    (hw : Spells w d.lexemes) :
    ∃ d', ReadsDeclaration file finish (w ++ rest) d' rest ∧ d'.bare = d.bare := by
  cases d with
  | namespaceLine => cases hd
  | function p body loc =>
      obtain ⟨hp, hexternal, hbody⟩ := h
      rw [Declaration.lexemes] at hw
      obtain ⟨u, v, rfl, hu, hv⟩ := hw.append
      obtain ⟨hbrace, b, hb, hbare⟩ := reads_braced file finish rest
        (Statement.readsBack_all file finish hbody) hv
      obtain ⟨k, u, rfl, hk, head, hhead, hpbare⟩ := reads_prototype file
        finish (v ++ rest) hp hu (by rw [hbrace]; simp)
      -- a function that is no extern one starts with either word
      have hkeyword : k.kind = .word .fnWord ∨ k.kind = .word .mdWord := by
        rw [hk]
        cases p.kind
        · exact .inl rfl
        · exact .inr rfl
      rw [hexternal] at hhead
      rw [List.cons_append, List.cons_append, List.append_assoc]
      refine ⟨_, .function hkeyword hhead hb, ?_⟩
      rw [Declaration.bare, Declaration.bare, hpbare, hbare]
  | externFunction p =>
      obtain ⟨hp, hexternal, hkind⟩ := h
      rw [Declaration.lexemes] at hw
      obtain ⟨e, v1, rfl, he, hv1⟩ := hw.cons
      obtain ⟨u, t, rfl, hu, ht⟩ := hv1.concat
      have htk : t.kind = .mark .semicolon := Token.bare_kind ht
      obtain ⟨k, u, rfl, hk, head, hhead, hpbare⟩ := reads_prototype file
        finish (t :: rest) hp hu (by rw [nextKind_cons, htk]; simp)
      rw [hkind] at hk
      rw [hexternal] at hhead
      rw [List.cons_append, List.append_assoc]
      refine ⟨_, .externFunction (Token.bare_kind he) hk hhead (reads_semicolon ht), ?_⟩
      rw [Declaration.bare, Declaration.bare, hpbare]
  | statement s =>
      obtain ⟨hs, h⟩ := h
      rw [Declaration.lexemes] at hw
      cases s with
      | bind b =>
          rw [Statement.lexemes] at hw
          obtain ⟨b', hb', hbare⟩ := reads_bind file finish rest h hw
          refine ⟨_, .binding hb', ?_⟩
          rw [Declaration.bare, Declaration.bare, Statement.bare, Statement.bare, hbare]
      | namedBlock name nameLoc statements loc =>
          obtain ⟨s', hs', hbare⟩ := reads_namedBlock file finish rest
            (Statement.readsBack_all file finish h.2) hw
          refine ⟨_, .binding hs', ?_⟩
          rw [Declaration.bare, Declaration.bare, hbare]
      | ret values loc =>
          obtain ⟨s', hs', hbare⟩ :=
            reads_ret file finish rest h loc hw
          refine ⟨_, .ret hs', ?_⟩
          rw [Declaration.bare, Declaration.bare, hbare]
      | expr | block => cases hs

/-- A file with at most one namespace line reads back. If the namespace is set already there may be
none, so the induction over the declarations goes through both cases. -/
theorem reads_source {declarations : List Declaration} (named : Bool)
    (h : ∀ d ∈ declarations, d.Printable)
    (hcount : declarations.countP Declaration.isNamespaceLine ≤ if named then 0 else 1)
    (hw : Spells w (declarations.flatMap Declaration.lexemes)) :
    ∃ nodes, ReadsFile file finish named w nodes ∧
      nodes.map Declaration.bare = declarations.map Declaration.bare := by
  induction declarations generalizing w named with
  | nil =>
      obtain rfl := Spells.nil_iff.mp hw
      exact ⟨[], .empty, rfl⟩
  | cons d declarations ih =>
      have hd := h d List.mem_cons_self
      have hrest : ∀ d ∈ declarations, d.Printable := fun d hd => h d (List.mem_cons_of_mem _ hd)
      rw [List.flatMap_cons] at hw
      obtain ⟨u, v, rfl, hu, hv⟩ := hw.append
      -- behind a namespace line there is no other
      cases hline : d.isNamespaceLine with
      | true =>
          rw [List.countP_cons_of_pos hline] at hcount
          have hnamed : named = false := by
            cases named
            · rfl
            · simp at hcount
          subst hnamed
          obtain ⟨nodes, hnodes, hbares⟩ := ih true hrest
            (by simp only [Bool.false_eq_true, if_false] at hcount; simpa using hcount) hv
          cases d with
          | namespaceLine name loc =>
              rw [Declaration.lexemes] at hu
              obtain ⟨k, u1, rfl, hk, hu1⟩ := hu.cons
              obtain ⟨n, u2, rfl, hn, hu2⟩ := hu1.cons
              obtain ⟨t, u3, rfl, ht, hu3⟩ := hu2.cons
              obtain rfl := Spells.nil_iff.mp hu3
              have htext : n.lexeme = name := Token.bare_text hn
              refine ⟨_, .namespaceLine (Token.bare_kind hk) (Token.bare_kind hn)
                (reads_semicolon ht) hnodes, ?_⟩
              simp [Declaration.bare, htext, hbares]
          | _ => cases hline
      | false =>
          rw [List.countP_cons_of_neg (by simp [hline])] at hcount
          obtain ⟨nodes, hnodes, hbares⟩ := ih named hrest hcount hv
          obtain ⟨node, hnode, hbare⟩ := Declaration.readsBack file finish
            v hd hline hu
          refine ⟨_, .declaration hnode hnodes, ?_⟩
          rw [List.map_cons, List.map_cons, hbare, hbares]

end FrontEnd.Grammar
