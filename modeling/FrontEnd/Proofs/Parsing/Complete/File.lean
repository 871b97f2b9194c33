import FrontEnd.Proofs.Parsing.Complete.Statement

set_option autoImplicit false

/-! # Files that can be read are read

A file that reads as a list of declarations is parsed as this list, and nothing grammatical is
found in it.

The state carries one thing from declaration to declaration that decides about trees: whether the file
has a namespace. A second namespace line leaves none, and the relation on files remembers this in the
same way, as a flag.
-/

namespace FrontEnd.Grammar

open FrontEnd.Grammar.Parser

variable {s : State} {file : String} {finish t : Token} {input mid rest : List Token}

/-! ## Functions -/

theorem yields_functionBody {b : List Statement × Location}
    (h : ReadsForm file finish .block input b rest) (hs : s.At file finish input)
    (hv : Valid finish input) : Yields functionBody s b rest := by
  unfold functionBody
  cases h with
  | block hl hnodes =>
      refine .bind hs (.expect hs hl _ hv.tail.next) fun hs => ?_
      exact .bind hs (yields_statements hnodes hs hv.tail) fun hs => .locate hs (.pure hs _)

theorem yields_withinFunction (params : List Param) {b : List Statement × Location}
    (h : ReadsForm file finish .block input b rest) (hs : s.At file finish input)
    (hv : Valid finish input) : Yields (withinFunction params functionBody) s b rest := by
  have hentered : (s.enterFunction params).At file finish input :=
    ⟨hs.file_eq, hs.finish_eq, hs.unread_eq⟩
  obtain ⟨s', hb, hg⟩ := yields_functionBody h hentered hv
  refine ⟨s'.leaveFunction s.inFunction, ?_,
    ⟨hg.unread, hg.file, hg.finish, hg.namespaceLine, hg.grammatical⟩⟩
  rw [withinFunction, hb]

theorem yields_function {head : Prototype} {b : List Statement × Location}
    (hhead : ReadsHead file finish false input head mid)
    (hb : ReadsForm file finish .block mid b rest) (hs : s.At file finish input)
    (hv : Valid finish input) : Yields function s (.function head b.1 b.2) rest := by
  have hmid := hv.of_suffix hhead.suffix
  refine .bind hs (yields_prototype hhead hs hv) fun hs => ?_
  exact .bind hs (yields_withinFunction _ hb hs hmid) fun hs => .pure hs _

theorem yields_externFunction {k f : Token} {head : Prototype} (hf : f.kind = .word .fnWord)
    (hhead : ReadsHead file finish true (f :: input) head mid)
    (hsemicolon : ReadsSemicolon finish mid rest) (hs : s.At file finish (k :: f :: input))
    (hv : Valid finish (k :: f :: input)) : Yields externFunction s (.externFunction head) rest := by
  have hmid := hv.tail.of_suffix hhead.suffix
  refine .bind hs (.take hs hv.tail.next) fun hs => .current ?_
  rw [if_pos (by rwa [hs.current_eq])]
  refine .bind hs (yields_prototype hhead hs hv.tail) fun hs => ?_
  obtain ⟨b, hb⟩ := yields_semicolon hsemicolon hs hmid
  exact .bind hs hb fun hs => .pure hs _

/-! ## Declarations -/

theorem yields_declaration {node : Declaration}
    (h : ReadsDeclaration file finish input node rest) (hs : s.At file finish input)
    (hv : Valid finish input) : Yields declaration s (some node) rest := by
  unfold declaration
  refine .get ?_
  cases h with
  | function hk hhead hbody =>
      rw [hs.current_eq]
      have hread := yields_function hhead hbody hs hv
      rcases hk with hk | hk
      · rw [hk]
        exact .bind hs hread fun hs => .pure hs _
      · rw [hk]
        exact .bind hs hread fun hs => .pure hs _
  | externFunction hk hf hhead hsemicolon =>
      rw [hs.current_eq, hk]
      exact .bind hs (yields_externFunction hf hhead hsemicolon hs hv) fun hs => .pure hs _
  | binding h =>
      -- a binding starts with a word of its own, or with a name and a sign behind it
      obtain ⟨t, more, rfl, hk | ⟨hn, hsign⟩⟩ := h.binding_head
      · have hread := yields_keywordBinding hk h hs hv
        rw [hs.current_eq]
        rcases isBindingWord_cases hk with hk | hk | hk
        · rw [hk]
          exact .bind hs hread fun hs => .pure hs _
        · rw [hk]
          exact .bind hs hread fun hs => .pure hs _
        · rw [hk]
          exact .bind hs hread fun hs => .pure hs _
      · rw [hs.current_eq, hn]
        dsimp only
        rw [if_pos (hs.startsBinding_iff.mpr ⟨hn, hsign⟩)]
        have hinner : CompleteInner (t :: more).length statements :=
          fun h hs hv _ => yields_statements h hs hv
        exact .bind hs (yields_nameBinding hinner hn h hs hv (Nat.le_succ _)) fun hs => .pure hs _
  | ret h =>
      have hread := yields_returnStatement h hs hv
      have hk : s.current.kind = .word .returnWord := by
        rw [hs.current_kind]
        cases h with
        | bare ht | values ht => exact ht
      rw [hk]
      exact .bind hs hread fun hs => .pure hs _

/-- A namespace line is read. It leaves no node if the file has a namespace. -/
theorem declaration_namespaceLine {k n : Token} (hk : k.kind = .word .namespaceWord)
    (hn : n.kind = .identifier) (hsemicolon : ReadsSemicolon finish input rest)
    (hs : s.At file finish (k :: n :: input)) (hv : Valid finish (k :: n :: input)) :
    ∃ s', declaration s = .ok
        (if s.namespaceLine.isSome then none else some (.namespaceLine n.lexeme ⟨file, k.position⟩))
        s' ∧ s'.At file finish rest ∧ s'.namespaceLine.isSome ∧ (s.Clean → s'.Clean) := by
  obtain ⟨s1, h1, hg1⟩ := Yields.take hs hv.tail.next
  have hs1 := hs.goes hg1
  obtain ⟨s2, h2, hg2⟩ := Yields.expect hs1 hn (.behind k.kind) hv.tail.tail.next
  have hs2 := hs1.goes hg2
  obtain ⟨b, s3, h3, hg3⟩ := yields_semicolon hsemicolon hs2 hv.tail.tail
  have hs3 := hs2.goes hg3
  have hg := hg1.trans (hg2.trans hg3)
  have hdeclaration : declaration s = namespaceLine s := by
    unfold declaration
    rw [get_bind, hs.current_eq, hk]
  rw [hdeclaration, namespaceLine, bind_of_ok h1, bind_of_ok h2, bind_of_ok h3, get_bind,
    ← hg.namespaceLine]
  -- only the first line is kept; the report about a second one leaves the reading as it is
  cases hline : s3.namespaceLine with
  | some line =>
      have hreport := hg.trans (.report s3 (f := s3.finding (.namespaceTaken line.2) n) rfl)
      refine ⟨_, rfl, hs3.goes (hs3.unread_eq ▸ .report s3 rfl), ?_, hreport.clean⟩
      rw [State.report_namespaceLine, hline]
      rfl
  | none =>
      refine ⟨{ s3 with namespaceLine := some (n.lexeme, k.position.line) }.pushScope
        .namespaceScope, ?_, ⟨hs3.file_eq, hs3.finish_eq, hs3.unread_eq⟩, rfl, hg.clean⟩
      have hloc : s3.locate k = ⟨file, k.position⟩ := hs3.locate_eq k
      rw [← hloc]
      rfl

/-! ## Files

Each declaration takes a token, so there are enough rounds. The relation on files says of each round
what it leaves. -/

/-- A file is parsed as the declarations that it reads as, and nothing grammatical is found. -/
theorem declarations_eq {fuel : Nat} {named : Bool} {nodes : List Declaration}
    (h : ReadsFile file finish named input nodes) (hs : s.At file finish input)
    (hv : Valid finish input) (hfuel : input.length ≤ fuel)
    (hnamed : s.namespaceLine.isSome = named) :
    (declarations fuel s).1 = nodes ∧ (s.Clean → (declarations fuel s).2.Clean) := by
  induction fuel generalizing s input named nodes with
  | zero =>
      cases h with
      | empty => exact ⟨rfl, id⟩
      | namespaceLine => simp at hfuel
      | declaration hnode =>
          have hlength := hnode.head.1
          omega
  | succ fuel ih =>
      -- one round that reads a node
      have hround {node : Option Declaration} {s' : State} (hk : s.current.kind ≠ .endOfFile)
          (hd : declaration s.exitPanic = .ok node s') :
          declarations (fuel + 1) s =
            (node.toList ++ (declarations fuel s').1, (declarations fuel s').2) := by
        rw [declarations, if_neg hk, hd]
      cases h with
      | empty =>
          have hk : s.current.kind = .endOfFile := hs.current_kind.trans hv.finish
          rw [declarations, if_pos hk]
          exact ⟨rfl, id⟩
      | @namespaceLine _ k n input mid nodes hk hn hsemicolon hnodes =>
          obtain ⟨s', hd, hs', hline, hclean⟩ :=
            declaration_namespaceLine hk hn hsemicolon hs.exitPanic hv
          have hlength := hsemicolon.suffix.length_le
          simp only [List.length_cons] at hfuel
          obtain ⟨hrest, hclean'⟩ := ih hnodes hs' (hv.tail.tail.of_suffix hsemicolon.suffix)
            (by omega) hline
          rw [hround (by rw [hs.current_eq, hk]; simp) hd, hrest]
          refine ⟨?_, fun hc => hclean' (hclean hc)⟩
          have hexit : s.exitPanic.namespaceLine = s.namespaceLine := rfl
          rw [hexit, hnamed]
          cases named <;> rfl
      | @declaration _ _ mid node nodes hnode hnodes =>
          obtain ⟨hlength, hk⟩ := hnode.head
          obtain ⟨s', hd, hg⟩ := yields_declaration hnode hs.exitPanic hv
          obtain ⟨hrest, hclean'⟩ := ih hnodes (hs.exitPanic.goes hg)
            (hv.of_suffix hnode.suffix) (by omega) ((congrArg _ hg.namespaceLine).trans hnamed)
          rw [hround (by rwa [hs.current_kind]) hd, hrest]
          exact ⟨rfl, fun hc => hclean' (hg.clean hc)⟩

end FrontEnd.Grammar
