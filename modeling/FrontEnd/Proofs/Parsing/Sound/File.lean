import FrontEnd.Proofs.Parsing.Sound.Statement

set_option autoImplicit false

/-! # Files are read soundly

A file in which nothing grammatical is found has the form of a file, and what is found in it is
what a checker finds in its declarations.

A second namespace line is the one declaration that leaves no tree though nothing grammatical is wrong
with it. It is reported all the same, and where it is, the checker has nothing to walk through; so the
agreement of the two is stated for files in which there is at most one.
-/

namespace FrontEnd.Grammar

open FrontEnd.Grammar.Parser

variable {s s' : State} {c : Checker}

/-! ## The namespace line -/

theorem State.Lexed.advance_namespaceLine (h : s.Lexed) :
    s.advance.namespaceLine = s.namespaceLine := by
  rw [h.advance_eq]

theorem Takes.namespaceLine (hs : s.Lexed) (hk : s.current.kind = .word .namespaceWord)
    {node : Option Declaration} (h : Parser.namespaceLine s = .ok node s') :
    ∃ w, DerivesDeclaration s'.current.kind w ∧
      Takes s w c (Declaration.checkAll node.toList c) s' := by
  rw [Parser.namespaceLine, take_bind] at h
  obtain ⟨n, s1, hn, h⟩ := bind_eq_ok.mp h
  obtain ⟨b, s2, hsemicolon, h⟩ := bind_eq_ok.mp h
  rw [get_bind] at h
  have hkeyword := Takes.ofAdvance (c := c) hs (by rw [hk]; simp)
  have hline : s2.namespaceLine = s.namespaceLine := by
    obtain ⟨-, -, hs1⟩ := expect_eq_ok.mp hn
    have hlexed := (Change.advance s.advance).lexed hkeyword.lexed
    have h1 : s1.namespaceLine = s.namespaceLine := by
      rw [hs1, hkeyword.lexed.advance_namespaceLine, hs.advance_namespaceLine]
    rcases accept_eq_ok.mp hsemicolon with ⟨-, -, rfl⟩ | ⟨-, -, rfl⟩
    · rw [← h1]
      exact (hs1 ▸ hlexed).advance_namespaceLine
    · exact h1
  obtain ⟨hnk, hn⟩ := Takes.ofExpect (c := c) hkeyword.lexed hn (by simp)
  obtain ⟨w, hw, hsemicolon⟩ := Takes.semicolon (c := c) hn.lexed hsemicolon
  have hread : Takes s (s.current :: n :: w) c c s2 := hkeyword.trans (hn.trans hsemicolon)
  have hmem : s.current ∈ s.unread := by rw [hread.unread]; exact List.mem_cons_self
  refine ⟨_, .namespaceLine hk hnk hw, ?_⟩
  cases htaken : s2.namespaceLine with
  | some line =>
      obtain ⟨name, number⟩ := line
      rw [htaken] at h
      obtain ⟨_, s3, hcomplain, h⟩ := bind_eq_ok.mp h
      obtain ⟨rfl, rfl⟩ := pure_eq_ok.mp h
      refine hread.goOn ((Regular.complain rfl n).ok hcomplain) ?_ fun hc => ?_
      · rw [complain_eq_ok.mp hcomplain, State.report_unread]
      · -- a checker agrees only if this is the first namespace line
        rw [hline, hc.namespaceLine_eq hmem hk] at htaken
        cases htaken
  | none =>
      rw [htaken] at h
      dsimp only at h
      rw [update_bind, locate_bind] at h
      obtain ⟨rfl, rfl⟩ := pure_eq_ok.mp h
      refine hread.goOn ((Moves.of_change (.setNamespace s2 _)).tail (.setScopes _ _)) rfl
        fun hc hc' => ?_
      have hpush := hc'.pushScope .namespaceScope
      have hsingle := hc.single
      refine ⟨hpush.loud, hpush.legible, ?_, hpush.valid, hpush.frames, hpush.inFunction,
        hpush.findings⟩
      rw [State.namespaces, hread.unread, List.cons_append, List.countP_cons_of_pos (by simp [hk]),
        List.cons_append, List.countP_cons, List.countP_append] at hsingle
      -- the line counts as read now, no longer as one ahead
      show s2.unread.countP _ + 1 ≤ 1
      omega

/-! ## Functions

The name of a function is declared around it and its arguments within. The body is checked in
between, and the state behind it is that of before. -/

theorem Takes.functionBody (hs : s.Sober) {result : List Statement × Location}
    (h : Parser.functionBody s = .ok result s') (hclean : s'.Clean) :
    ∃ w, Forms .block s'.current.kind w ∧ Takes s w c (Statement.checkAll result.1 c) s' := by
  rw [Parser.functionBody] at h
  obtain ⟨l, s1, hl, h⟩ := bind_eq_ok.mp h
  obtain ⟨body, s2, hbody, h⟩ := bind_eq_ok.mp h
  rw [locate_bind] at h
  obtain ⟨rfl, rfl⟩ := pure_eq_ok.mp h
  have hsober := ((Regular.expect _ _).ok hl).sober hs
  obtain ⟨hlk, hl⟩ := Takes.ofExpect (c := c) hs.lexed hl (by simp)
  obtain ⟨_, ⟨v, r, hv, hr, rfl⟩, hbody⟩ := sound_statements c hsober hbody hclean
  exact ⟨_, .block hlk hv hr, hl.trans hbody⟩

/-- The body of a function is checked with its arguments in scope. -/
theorem Takes.withinFunction (hs : s.Sober) {params : List Param}
    {result : List Statement × Location}
    (h : Parser.withinFunction params Parser.functionBody s = .ok result s') (hclean : s'.Clean) :
    ∃ w, Forms .block s'.current.kind w ∧
      Takes s w c
        { (Statement.checkAll result.1
            { c with frames := Frames.addParams params ([] :: c.frames), inFunction := true }).leave
          with inFunction := c.inFunction } s' := by
  rw [Parser.withinFunction] at h
  split at h
  · next value next hbody =>
    cases h
    have hmoves : Moves s (s.enterFunction params) :=
      (Moves.of_change (.setScopes s (declareParams params (s.scopes.push .function)))).tail
        (.setInFunction _ true)
    -- a checker enters the function with its arguments, as the parser does
    have henter : Takes s [] c _ (s.enterFunction params) :=
      (Takes.refl hs.lexed).goOn hmoves rfl fun _ hc => hc.enterFunction params
    obtain ⟨w, hw, hread⟩ := Takes.functionBody
      (c := { c with frames := Frames.addParams params ([] :: c.frames), inFunction := true })
      (hmoves.sober hs) hbody hclean
    refine ⟨w, hw, (henter.trans hread).goOn
      ((Moves.of_change (.setScopes next _)).tail (.setInFunction next.popScope _)) rfl
      fun hc hc' => ?_⟩
    rw [← hc.inFunction]
    exact hc'.leaveFunction s.inFunction
  · cases h

theorem Takes.function (hs : s.Sober)
    (hk : s.current.kind = .word .fnWord ∨ s.current.kind = .word .mdWord) {node : Declaration}
    (h : Parser.function s = .ok node s') (hclean : s'.Clean) :
    ∃ w, DerivesDeclaration s'.current.kind w ∧ Takes s w c (node.check c) s' := by
  rw [Parser.function] at h
  obtain ⟨head, s1, hhead, h⟩ := bind_eq_ok.mp h
  obtain ⟨⟨body, loc⟩, s2, hbody, h⟩ := bind_eq_ok.mp h
  dsimp only at h
  obtain ⟨rfl, rfl⟩ := pure_eq_ok.mp h
  have hsober := ((Regular.grammar.prototype false).ok hhead).sober hs
  have hne : s.current.kind ≠ .endOfFile := by
    rcases hk with hk | hk <;> rw [hk] <;> simp
  obtain ⟨v, hv, hhead⟩ := Takes.prototype (c := c) hs.lexed hne hhead
  obtain ⟨w, hw, hbody⟩ := Takes.withinFunction (c := head.check c) hsober hbody hclean
  exact ⟨_, .function hk hv hw, hhead.trans hbody⟩

theorem Takes.externFunction (hs : s.Lexed) (hk : s.current.kind = .word .externWord)
    {node : Declaration} (h : Parser.externFunction s = .ok node s') :
    ∃ w, DerivesDeclaration s'.current.kind w ∧ Takes s w c (node.check c) s' := by
  rw [Parser.externFunction, take_bind, current_bind] at h
  split at h
  · next hf =>
    obtain ⟨head, s1, hhead, h⟩ := bind_eq_ok.mp h
    obtain ⟨b, s2, hsemicolon, h⟩ := bind_eq_ok.mp h
    obtain ⟨rfl, rfl⟩ := pure_eq_ok.mp h
    have hkeyword := Takes.ofAdvance (c := c) hs (by rw [hk]; simp)
    obtain ⟨v, hv, hhead⟩ := Takes.prototype (c := c) hkeyword.lexed (by rw [hf]; simp) hhead
    obtain ⟨w, hw, hsemicolon⟩ := Takes.semicolon (c := head.check c) hhead.lexed hsemicolon
    exact ⟨_, .externFunction hk hf hv hw, hkeyword.trans (hhead.trans hsemicolon)⟩
  · exact absurd h failExpecting_ne_ok

/-! ## Declarations

The first token decides what is read, and a token that starts no declaration is a failure. -/

theorem sound_declaration :
    SoundWhenClean DerivesDeclaration (fun node => Declaration.checkAll node.toList)
      declaration := by
  intro s s' node c hs h hclean
  rw [declaration, get_bind] at h
  generalize hk : s.current.kind = k at h
  have hbinding (hword : isBindingWord k)
      (h : (do return some (Declaration.statement (← keywordBinding))) s = .ok node s') :
      ∃ w, DerivesDeclaration s'.current.kind w ∧
        Takes s w c (Declaration.checkAll node.toList c) s' := by
    obtain ⟨node', s1, h, hnode⟩ := bind_eq_ok.mp h
    obtain ⟨rfl, rfl⟩ := pure_eq_ok.mp hnode
    obtain ⟨w, hw, ht⟩ := Takes.keywordBinding hs.lexed (hk ▸ hword) h
    exact ⟨w, .binding hw, ht⟩
  have hfunction (hword : k = .word .fnWord ∨ k = .word .mdWord)
      (h : (do return some (← function)) s = .ok node s') :
      ∃ w, DerivesDeclaration s'.current.kind w ∧
        Takes s w c (Declaration.checkAll node.toList c) s' := by
    obtain ⟨node', s1, h, hnode⟩ := bind_eq_ok.mp h
    obtain ⟨rfl, rfl⟩ := pure_eq_ok.mp hnode
    exact Takes.function hs (hk ▸ hword) h hclean
  -- one case for each word that starts a declaration, and one for names
  split at h
  · exact Takes.namespaceLine hs.lexed hk h
  · exact hfunction (.inl rfl) h
  · exact hfunction (.inr rfl) h
  · obtain ⟨node', s1, h, hnode⟩ := bind_eq_ok.mp h
    obtain ⟨rfl, rfl⟩ := pure_eq_ok.mp hnode
    exact Takes.externFunction hs.lexed hk h
  · exact hbinding rfl h
  · exact hbinding rfl h
  · exact hbinding rfl h
  · obtain ⟨node', s1, h, hnode⟩ := bind_eq_ok.mp h
    obtain ⟨rfl, rfl⟩ := pure_eq_ok.mp hnode
    obtain ⟨w, hw, ht⟩ := Takes.returnStatement hs.lexed hk h
    exact ⟨w, .ret hw, ht⟩
  · split at h
    · next hstart =>
      obtain ⟨node', s1, h, hnode⟩ := bind_eq_ok.mp h
      obtain ⟨rfl, rfl⟩ := pure_eq_ok.mp hnode
      obtain ⟨w, hw, ht⟩ := Takes.nameBinding sound_statements hs hstart h hclean
      exact ⟨w, .binding hw, ht⟩
    · exact absurd h failExpecting_ne_ok

/-! ## Files -/

theorem DerivesDeclaration.ne_nil {next : Kind} {w : List Token}
    (h : DerivesDeclaration next w) : w ≠ [] := by
  cases h with
  | binding hw => cases hw <;> simp
  | ret hw => cases hw <;> simp
  | namespaceLine | function | externFunction => simp

/-- At the end of the file nothing is left to read. -/
theorem State.Lexed.unread_eq_nil (h : s.Lexed) (hk : s.current.kind = .endOfFile) :
    s.unread = [] := by
  rw [h.current_kind] at hk
  cases hu : s.unread with
  | nil => rfl
  | cons t rest =>
      rw [hu] at hk
      exact absurd hk (h.inner t (by rw [hu]; exact List.mem_cons_self))

/-- A file without grammatical findings has the form of a file, and a checker finds in its
declarations what was found on the way. -/
theorem sound_declarations {fuel : Nat} (hs : s.Sober) (hfuel : s.unread.length ≤ fuel)
    (hclean : (declarations fuel s).2.Clean) :
    DerivesFile s.unread ∧
      (s.Tracks c →
        (declarations fuel s).2.Tracks (Declaration.checkAll (declarations fuel s).1 c)) := by
  induction fuel generalizing s c with
  | zero =>
      rw [List.eq_nil_of_length_eq_zero (Nat.le_zero.mp hfuel)]
      exact ⟨.empty, id⟩
  | succ fuel ih =>
      rw [declarations] at hclean ⊢
      split at hclean
      · next hend =>
        rw [if_pos hend, hs.lexed.unread_eq_nil hend]
        exact ⟨.empty, id⟩
      · next hend =>
        rw [if_neg hend]
        have hexit := (Change.exitPanic s).sober hs
        cases hd : declaration s.exitPanic with
        | ok node next =>
            rw [hd] at hclean
            dsimp only at hclean ⊢
            have hsober := (Regular.declaration.ok hd).sober hexit
            obtain ⟨w, hw, hread⟩ := sound_declaration c hexit hd
              ((moves_declarations fuel next).clean hclean)
            have hread := (Takes.exitPanic hs.lexed).trans hread
            -- a declaration takes a token, so the fuel is enough for the rest
            have hlength := congrArg List.length hread.unread
            have hpos := List.length_pos_iff.mpr hw.ne_nil
            simp only [List.nil_append, List.length_append] at hlength
            obtain ⟨hfile, htracks⟩ := ih (c := Declaration.checkAll node.toList c) hsober
              (by omega) hclean
            constructor
            · rw [hread.unread]
              rw [hread.lexed.current_kind] at hw
              exact .declaration hw hfile
            · intro hc
              have h := htracks (hread.tracks hc)
              rwa [Declaration.checkAll, Declaration.checkAll, ← List.foldl_append] at h
        | error failure next =>
            -- a failure would have left a finding
            rw [hd] at hclean
            obtain ⟨hm, hard⟩ := Regular.declaration.error hd
            exact absurd ((moves_declarations fuel _).clean hclean)
              ((hm.sober hexit).not_clean_recover hard _)

end FrontEnd.Grammar
