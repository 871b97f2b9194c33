import FrontEnd.Proofs.Parsing.Sound.Expression
import FrontEnd.Proofs.Parsing.Sound.Signature

set_option autoImplicit false

/-! # Statements are read soundly

The statements of a block never fail, so a run that succeeds says nothing by itself. It
does if the run stays `State.Clean`: then no statement was skipped and the closing brace was there.
`SoundWhenClean` is soundness under this condition.

The condition is on the state in the end, and findings are only added, so it holds at every step
before (`Moves.clean`). That nothing was reported means that nothing failed only while there is no
panic. So these lemmas start from a sober state, in which a panic would have left a finding.
-/

namespace FrontEnd.Grammar

open FrontEnd.Grammar.Parser

variable {α : Type} {s s' : State} {c : Checker}

/-! ## The parts of bindings

Each part may be there or not, and the parser decides by one token. -/

theorem Takes.semicolon (hs : s.Lexed) {b : Bool}
    (h : accept (.mark .semicolon) s = .ok b s') :
    ∃ w, Optional (IsToken (.mark .semicolon)) w ∧ Takes s w c c s' := by
  rcases Takes.ofAccept (c := c) hs h (by simp) with ⟨-, t, hk, ht⟩ | ⟨-, ht⟩
  · exact ⟨[t], .inr ⟨t, hk, rfl⟩, ht⟩
  · exact ⟨[], .inl rfl, ht⟩

theorem Takes.optionalType (hs : s.Lexed) {type : Option TypeExpr}
    (h : Parser.optionalType s = .ok type s') :
    ∃ w, Optional DerivesType w ∧ Takes s w c c s' := by
  rw [Parser.optionalType] at h
  obtain ⟨written, s1, hwritten, h⟩ := bind_eq_ok.mp h
  rcases Takes.ofAccept (c := c) hs hwritten (by simp) with ⟨rfl, colon, hk, hcolon⟩ | ⟨rfl, hcolon⟩
  · obtain ⟨type', s2, htype, h⟩ := bind_eq_ok.mp h
    obtain ⟨rfl, rfl⟩ := pure_eq_ok.mp h
    obtain ⟨t, ht, htype⟩ := Takes.typeExpr (c := c) hcolon.lexed htype
    exact ⟨_, .inr (.type hk ht), hcolon.trans htype⟩
  · obtain ⟨rfl, rfl⟩ := pure_eq_ok.mp h
    exact ⟨[], .inl rfl, hcolon⟩

theorem Takes.optionalInit (hs : s.Lexed) {init : Option Expr}
    (h : Parser.optionalInit s = .ok init s') :
    ∃ w, Optional DerivesInit w ∧ Takes s w c (Expr.checkInit init c) s' := by
  rw [Parser.optionalInit] at h
  obtain ⟨written, s1, hwritten, h⟩ := bind_eq_ok.mp h
  rcases Takes.ofAccept (c := c) hs hwritten (by simp) with ⟨rfl, sign, hk, hsign⟩ | ⟨rfl, hsign⟩
  · obtain ⟨e, s2, he, h⟩ := bind_eq_ok.mp h
    obtain ⟨rfl, rfl⟩ := pure_eq_ok.mp h
    obtain ⟨w, hw, hw'⟩ := sound_expressionParser c hsign.lexed he
    exact ⟨_, .inr (.init hk hw), hsign.trans hw'⟩
  · obtain ⟨rfl, rfl⟩ := pure_eq_ok.mp h
    exact ⟨[], .inl rfl, hsign⟩

/-- The name of a binding is declared once the rest of it was read. -/
theorem Takes.finishBinding {s₀ : State} {c₀ : Checker} {n : Token} {w : List Token}
    (h : Takes s₀ (n :: w) c₀ c s) (hk : n.kind = .identifier) {type : Option TypeExpr}
    {init : Option Expr} {mutability : Mutability} {node : Statement}
    (hp : Parser.finishBinding n type init mutability s = .ok node s') :
    node = .bind ⟨n.lexeme, type, init, mutability, s₀.locate n⟩ ∧
      Takes s₀ (n :: w) c₀
        (c.declare ⟨n.lexeme, .value, mutability, init.isSome, s₀.locate n⟩) s' := by
  have hloc : s.locate n = s₀.locate n := by rw [State.locate, State.locate, h.file]
  rw [Parser.finishBinding, locate_bind, hloc] at hp
  obtain ⟨_, s1, hdeclare, hp⟩ := bind_eq_ok.mp hp
  obtain ⟨rfl, rfl⟩ := pure_eq_ok.mp hp
  exact ⟨rfl, h.declare hk rfl hloc.symm hdeclare⟩

theorem Takes.keywordBinding (hs : s.Lexed) (hk : isBindingWord s.current.kind) {node : Statement}
    (h : Parser.keywordBinding s = .ok node s') :
    ∃ w, Forms .binding s'.current.kind w ∧ Takes s w c (node.check c) s' := by
  rw [Parser.keywordBinding, take_bind] at h
  obtain ⟨n, s1, hn, h⟩ := bind_eq_ok.mp h
  obtain ⟨type, s2, htype, h⟩ := bind_eq_ok.mp h
  obtain ⟨init, s3, hinit, h⟩ := bind_eq_ok.mp h
  obtain ⟨b, s4, hsemicolon, h⟩ := bind_eq_ok.mp h
  obtain ⟨_, s5, huninitialized, h⟩ := bind_eq_ok.mp h
  have hkeyword := Takes.ofAdvance (c := c) hs fun he => by rw [he] at hk; cases hk
  obtain ⟨hnk, hn⟩ := Takes.ofExpect (c := c) hkeyword.lexed hn (by simp)
  obtain ⟨u, hu, htype⟩ := Takes.optionalType (c := c) hn.lexed htype
  obtain ⟨v, hv, hinit⟩ := Takes.optionalInit (c := c) htype.lexed hinit
  obtain ⟨w, hw, hsemicolon⟩ := Takes.semicolon (c := Expr.checkInit init c) hinit.lexed hsemicolon
  have hread : Takes s.advance (n :: (u ++ (v ++ w))) c _ _ :=
    hn.trans (htype.trans (hinit.trans hsemicolon))
  have hloc : s4.locate n = s.advance.locate n := by rw [State.locate, State.locate, hread.file]
  obtain ⟨rfl, hfinish⟩ := (hread.complainIf rfl huninitialized hloc.symm
    (fun ht => ht.name hnk)).finishBinding hnk h
  refine ⟨_, .keywordBinding hk hnk hu hv hw, hkeyword.trans ?_⟩
  rw [Statement.check, Binding.check]
  simpa only [decide_eq_true_eq] using hfinish

/-! ## Blocks

A scope is opened at the brace of a block and closed behind its last one, by the parser and by the
checker. -/

/-- Soundness of the runs that find nothing grammatical. A block recovers from a statement that
fails, so its parser may succeed with tokens that no derivation has. -/
def SoundWhenClean (form : Kind → List Token → Prop) (check : α → Checker → Checker)
    (p : Parser α) : Prop :=
  ∀ {s s' : State} {a : α} (c : Checker), s.Sober → p s = .ok a s' → s'.Clean →
    ∃ w, form s'.current.kind w ∧ Takes s w c (check a c) s'

/-- The statements of a block with the closing brace. -/
def Enclosed (_ : Kind) (w : List Token) : Prop :=
  ∃ v r, Forms .statements (.mark .rightBrace) v ∧ r.kind = .mark .rightBrace ∧ w = v ++ [r]

variable {inner : Parser (List Statement)}

theorem Takes.block (hinner : SoundWhenClean Enclosed Statement.checkAll inner) (hs : s.Sober)
    {result : List Statement × Location} (h : Parser.block inner s = .ok result s')
    (hclean : s'.Clean) :
    ∃ w, Forms .block s'.current.kind w ∧
      Takes s w c (Statement.checkAll result.1 c.enter).leave s' := by
  rw [Parser.block] at h
  obtain ⟨l, s1, hl, h⟩ := bind_eq_ok.mp h
  rw [update_bind] at h
  obtain ⟨statements, s2, hstatements, h⟩ := bind_eq_ok.mp h
  rw [update_bind, locate_bind] at h
  obtain ⟨rfl, rfl⟩ := pure_eq_ok.mp h
  have hsober := (Change.setScopes s1 (s1.scopes.push .block)).sober
    (((Regular.expect _ _).ok hl).sober hs)
  obtain ⟨hlk, hl⟩ := Takes.ofExpect (c := c) hs.lexed hl (by simp)
  have henter : Takes s [l] c c.enter (s1.pushScope .block) :=
    hl.goOn (.of_change (.setScopes s1 _)) rfl fun _ hc => hc.pushScope .block
  obtain ⟨_, ⟨v, r, hv, hr, rfl⟩, hstatements⟩ := hinner c.enter hsober hstatements hclean
  have hleave : Takes (s1.pushScope .block) (v ++ [r]) c.enter
      (Statement.checkAll statements c.enter).leave s2.popScope :=
    hstatements.goOn (.of_change (.setScopes s2 _)) rfl fun _ hc => hc.popScope
  exact ⟨_, .block hlk hv hr, henter.trans hleave⟩

/-- What needs a function around it is reported outside of one. -/
theorem Takes.complainOutside {s₀ : State} {c₀ : Checker} {t : Token} {w : List Token}
    (h : Takes s₀ (t :: w) c₀ c s) {issue : Issue} (soft : issue.isSemantic) {x : Unit}
    (hp : onlyIf (!s.inFunction) (Parser.complain issue t) s = .ok x s') {length : Nat}
    (hwidth : t.Legible → t.width = length) :
    Takes s₀ (t :: w) c₀
      (if c.inFunction then c else c.report issue (s₀.locate t) length) s' := by
  have hloc : s₀.locate t = s.locate t := by rw [State.locate, State.locate, h.file]
  have hread := h.complainIf soft hp hloc hwidth
  refine ⟨hread.unread, hread.lexed, hread.file, fun hc => ?_⟩
  have hsame := (h.tracks hc).inFunction
  have htracks := hread.tracks hc
  rw [hsame] at htracks
  cases hf : c.inFunction with
  | true => rwa [hf] at htracks
  | false => rwa [hf] at htracks

theorem Takes.namedBlock (hinner : SoundWhenClean Enclosed Statement.checkAll inner)
    {s₀ : State} {n colon : Token} (h : Takes s₀ [n, colon] c c s) (hs : s.Sober)
    (hk : n.kind = .identifier) (hcolon : colon.kind = .mark .colon) {node : Statement}
    (hp : Parser.namedBlock inner n s = .ok node s') (hclean : s'.Clean) :
    ∃ w, Forms .binding s'.current.kind w ∧ Takes s₀ w c (node.check c) s' := by
  rw [Parser.namedBlock, get_bind] at hp
  obtain ⟨_, s1, hreport, hp⟩ := bind_eq_ok.mp hp
  obtain ⟨⟨statements, loc⟩, s2, hblock, hp⟩ := bind_eq_ok.mp hp
  dsimp only at hp
  rw [locate_bind] at hp
  obtain ⟨rfl, rfl⟩ := pure_eq_ok.mp hp
  have hsober := ((Regular.onlyIf _ (Regular.complain rfl n)).ok hreport).sober hs
  have hname := h.complainOutside rfl hreport fun ht => ht.name hk
  obtain ⟨w, hw, hblock⟩ := Takes.block hinner hsober hblock hclean
  have hread := hname.trans hblock
  refine ⟨_, .namedBlock hk hcolon hw, ?_⟩
  rwa [Statement.check, State.locate, hread.file]

/-! ## Statements that start with a name

A name may start a binding, a named block or an expression. The token behind it decides, and it is
looked at without being read; among valid tokens it is the one that comes up next. -/

/-- A name and a sign that declares it stand in front. -/
theorem State.Lexed.startsBinding_eq (h : s.Lexed) (hstart : startsBinding s) :
    s.current.kind = .identifier ∧
      (isDefineSign s.advance.current.kind ∨ s.advance.current.kind = .mark .colon) := by
  have hahead : s.advance.current = s.lookahead := by
    rw [h.advance_eq]
    rfl
  rw [hahead]
  unfold startsBinding at hstart
  rw [Bool.and_eq_true, decide_eq_true_eq] at hstart
  obtain ⟨hname, hsign⟩ := hstart
  refine ⟨hname, ?_⟩
  split at hsign
  · next hk => rw [hk]; exact .inl rfl
  · next hk => rw [hk]; exact .inl rfl
  · next hk => exact .inr hk
  · cases hsign

/-- A first value behind the sign, whatever mutability the sign gives. -/
theorem Takes.define {s₀ : State} {n sign : Token} (h : Takes s₀ [n, sign] c c s)
    (hn : n.kind = .identifier) (hsign : isDefineSign sign.kind) {mutability : Mutability}
    {node : Statement}
    (hp : (do
      let node ← Parser.finishBinding n none (some (← expression)) mutability
      let _ ← accept (.mark .semicolon)
      return node) s = .ok node s') :
    ∃ w, Forms .binding s'.current.kind w ∧ Takes s₀ w c (node.check c) s' := by
  obtain ⟨e, s1, he, hp⟩ := bind_eq_ok.mp hp
  obtain ⟨node', s2, hfinish, hp⟩ := bind_eq_ok.mp hp
  obtain ⟨_, s3, hsemicolon, hp⟩ := bind_eq_ok.mp hp
  obtain ⟨rfl, rfl⟩ := pure_eq_ok.mp hp
  obtain ⟨v, hv, he⟩ := sound_expressionParser c h.lexed he
  have hread : Takes s₀ (n :: sign :: v) c _ _ := h.trans he
  obtain ⟨rfl, hnode⟩ := hread.finishBinding hn hfinish
  obtain ⟨w, hw, hsemicolon⟩ := Takes.semicolon hnode.lexed hsemicolon
  refine ⟨_, .define hn hsign hv hw, ?_⟩
  simpa [Statement.check, Binding.check, Expr.checkInit] using hnode.trans hsemicolon

theorem Takes.nameBinding (hinner : SoundWhenClean Enclosed Statement.checkAll inner)
    (hs : s.Sober) (hstart : startsBinding s) {node : Statement}
    (h : Parser.nameBinding inner s = .ok node s') (hclean : s'.Clean) :
    ∃ w, Forms .binding s'.current.kind w ∧ Takes s w c (node.check c) s' := by
  obtain ⟨hnk, hsign⟩ := hs.lexed.startsBinding_eq hstart
  rw [Parser.nameBinding, take_bind, take_bind] at h
  have hn := Takes.ofAdvance (c := c) hs.lexed (by rw [hnk]; simp)
  have hsober := (Change.advance _).sober ((Change.advance s).sober hs)
  -- the sign behind the name is a token, so reading it advances
  have hne : s.advance.current.kind ≠ .endOfFile := by
    intro he
    rw [he] at hsign
    rcases hsign with hsign | hsign <;> cases hsign
  have hhead : Takes s [s.current, s.advance.current] c c s.advance.advance :=
    hn.trans (Takes.ofAdvance hn.lexed hne)
  generalize s.advance.current = sign at h hsign hhead
  generalize hk : sign.kind = k at h
  split at h
  · exact hhead.define hnk (by rw [hk]; rfl) h
  · exact hhead.define hnk (by rw [hk]; rfl) h
  · next hother hother' =>
    -- what starts a binding and defines nothing at once is a colon
    have hcolon : sign.kind = .mark .colon := by
      refine hsign.resolve_left fun hdef => ?_
      rw [hk] at hdef
      exact (isDefineSign_cases hdef).elim hother hother'
    rw [current_bind] at h
    split at h
    · exact Takes.namedBlock hinner hhead hsober hnk hcolon h hclean
    · obtain ⟨type, s1, htype, h⟩ := bind_eq_ok.mp h
      obtain ⟨init, s2, hinit, h⟩ := bind_eq_ok.mp h
      obtain ⟨node', s3, hfinish, h⟩ := bind_eq_ok.mp h
      obtain ⟨_, s4, hsemicolon, h⟩ := bind_eq_ok.mp h
      obtain ⟨rfl, rfl⟩ := pure_eq_ok.mp h
      obtain ⟨t, ht, htype⟩ := Takes.typeExpr (c := c) hhead.lexed htype
      obtain ⟨v, hv, hinit⟩ := Takes.optionalInit (c := c) htype.lexed hinit
      have hread : Takes s (s.current :: sign :: t :: v) c _ _ :=
        hhead.trans (htype.trans hinit)
      obtain ⟨rfl, hnode⟩ := hread.finishBinding hnk hfinish
      obtain ⟨w, hw, hsemicolon⟩ := Takes.semicolon hnode.lexed hsemicolon
      refine ⟨_, .typedBinding hnk hcolon ht hv hw, ?_⟩
      simpa [Statement.check, Binding.check] using hnode.trans hsemicolon

/-! ## Returns -/

theorem State.Lexed.current_kind (h : s.Lexed) :
    s.current.kind = nextKind .endOfFile s.unread := by
  unfold State.current
  cases s.unread with
  | nil => exact h.finish
  | cons t rest => rfl

theorem Takes.returnStatement (hs : s.Lexed) (hk : s.current.kind = .word .returnWord)
    {node : Statement} (h : Parser.returnStatement s = .ok node s') :
    ∃ w, DerivesReturn s'.current.kind w ∧ Takes s w c (node.check c) s' := by
  rw [Parser.returnStatement, take_bind, get_bind] at h
  obtain ⟨_, s1, hreport, h⟩ := bind_eq_ok.mp h
  obtain ⟨values, s2, hvalues, h⟩ := bind_eq_ok.mp h
  obtain ⟨_, s3, hsemicolon, h⟩ := bind_eq_ok.mp h
  rw [locate_bind] at h
  obtain ⟨rfl, rfl⟩ := pure_eq_ok.mp h
  have hkeyword := Takes.ofAdvance (c := c) hs (by rw [hk]; simp)
  have hreport := hkeyword.complainOutside rfl hreport fun ht => ht.ret hk
  generalize hc' : (if c.inFunction then c
    else c.report .returnOutsideFunction (s.locate s.current) 6) = c' at hreport
  have hcheck (hfile : s'.file = s.file) :
      (Statement.ret values (s'.locate s.current)).check c = Expr.checkAll values c' := by
    rw [Statement.check, State.locate, hfile, ← hc']
    rfl
  rw [Parser.returnValues, current_bind] at hvalues
  split at hvalues
  · next hend =>
    obtain ⟨rfl, rfl⟩ := pure_eq_ok.mp hvalues
    obtain ⟨w, hw, hread⟩ := Takes.semicolon (c := c') hreport.lexed hsemicolon
    have htake := hreport.trans hread
    -- what ends the statement is seen in front of the semicolon
    refine ⟨_, .bare hk hw ?_, ?_⟩
    · rwa [hread.lexed.current_kind, ← nextKind_append, ← hread.unread,
        ← hreport.lexed.current_kind]
    · rw [hcheck htake.file, Expr.checkAll]
      exact htake
  · obtain ⟨v, hv, hvalues⟩ := sound_expressionsParser c' hreport.lexed hvalues
    obtain ⟨w, hw, hread⟩ := Takes.semicolon (c := Expr.checkAll values c') hvalues.lexed hsemicolon
    have htake := hreport.trans (hvalues.trans hread)
    refine ⟨_, .values hk hv hw, ?_⟩
    rw [hcheck htake.file]
    exact htake

/-! ## Statements -/

theorem sound_statement (hinner : SoundWhenClean Enclosed Statement.checkAll inner) :
    SoundWhenClean (Forms .statement) (fun node => Statement.checkAll node.toList)
      (statement inner) := by
  intro s s' node c hs h hclean
  rw [statement, get_bind] at h
  generalize hk : s.current.kind = k at h
  have hbinding (hword : isBindingWord k)
      (h : (do return some (← keywordBinding)) s = .ok node s') :
      ∃ w, Forms .statement s'.current.kind w ∧
        Takes s w c (Statement.checkAll node.toList c) s' := by
    obtain ⟨node', s1, h, hnode⟩ := bind_eq_ok.mp h
    obtain ⟨rfl, rfl⟩ := pure_eq_ok.mp hnode
    obtain ⟨w, hw, ht⟩ := Takes.keywordBinding hs.lexed (hk ▸ hword) h
    exact ⟨w, .binding hw, by simpa [Statement.checkAll] using ht⟩
  -- one case for each token that starts a statement; words of the file scope fail
  split at h
  · exact hbinding rfl h
  · exact hbinding rfl h
  · exact hbinding rfl h
  · obtain ⟨node', s1, h, hnode⟩ := bind_eq_ok.mp h
    obtain ⟨rfl, rfl⟩ := pure_eq_ok.mp hnode
    obtain ⟨w, hw, ht⟩ := Takes.returnStatement hs.lexed hk h
    exact ⟨w, .ret hw, by simpa [Statement.checkAll] using ht⟩
  · obtain ⟨⟨statements, loc⟩, s1, h, hnode⟩ := bind_eq_ok.mp h
    obtain ⟨rfl, rfl⟩ := pure_eq_ok.mp hnode
    obtain ⟨w, hw, ht⟩ := Takes.block hinner hs h hclean
    exact ⟨w, .inner hw, by simpa [Statement.checkAll, Statement.check] using ht⟩
  · rw [advance_bind] at h
    obtain ⟨rfl, rfl⟩ := pure_eq_ok.mp h
    have ht := Takes.ofAdvance (c := c) hs.lexed (by rw [hk]; simp)
    exact ⟨_, .semicolon hk, by simpa [Statement.checkAll] using ht⟩
  · exact absurd h fail_ne_ok
  · exact absurd h fail_ne_ok
  · exact absurd h fail_ne_ok
  · exact absurd h fail_ne_ok
  · split at h
    · next hstart =>
      obtain ⟨node', s1, h, hnode⟩ := bind_eq_ok.mp h
      obtain ⟨rfl, rfl⟩ := pure_eq_ok.mp hnode
      obtain ⟨w, hw, ht⟩ := Takes.nameBinding hinner hs hstart h hclean
      exact ⟨w, .binding hw, by simpa [Statement.checkAll] using ht⟩
    · obtain ⟨e, s1, he, h⟩ := bind_eq_ok.mp h
      obtain ⟨t, s2, hsemicolon, h⟩ := bind_eq_ok.mp h
      obtain ⟨rfl, rfl⟩ := pure_eq_ok.mp h
      obtain ⟨w, hw, he⟩ := sound_expressionParser c hs.lexed he
      obtain ⟨ht, hsemicolon⟩ := Takes.ofExpect (c := e.check c) he.lexed hsemicolon (by simp)
      have hread := he.trans hsemicolon
      exact ⟨_, .expression hw ht, by simpa [Statement.checkAll, Statement.check] using hread⟩

/-! ## Sequences of statements

By induction on the fuel. The parser of inner blocks is the loop itself with one unit less, which is
why single statements are given this parser as an argument. -/

theorem Takes.exitPanic (hs : s.Lexed) : Takes s [] c c s.exitPanic :=
  (Takes.refl hs).goOn (.of_change (.exitPanic s)) rfl fun _ hc => hc.exitPanic

/-- A block that was closed without a finding has its closing brace. -/
theorem Takes.closeBlock (hs : s.Sober) (hclean : s.closeBlock.Clean) :
    s.current.kind = .mark .rightBrace ∧ Takes s [s.current] c c s.closeBlock := by
  have hexit := (Change.exitPanic s).sober hs
  unfold State.closeBlock at hclean ⊢
  dsimp only at hclean ⊢
  by_cases hk : s.exitPanic.current.kind = .mark .rightBrace
  · rw [if_pos hk]
    refine ⟨hk, (Takes.exitPanic hs.lexed).trans (Takes.ofAdvance hexit.lexed ?_)⟩
    rw [hk]
    simp
  · rw [if_neg hk] at hclean
    exact absurd hclean (hexit.not_clean_fail rfl)

/-- A statement that was skipped leaves a finding. -/
theorem State.Sober.not_clean_recover (hs : s.Sober) {failure : Finding}
    (hard : failure.issue.isGrammatical = true) (before : Nat) :
    ¬ (s.recover failure before).Clean := hs.not_clean_fail hard

theorem sound_statementsWithin (fuel : Nat) :
    SoundWhenClean Enclosed Statement.checkAll (statementsWithin fuel) := by
  induction fuel with
  | zero =>
      intro s s' nodes c hs h hclean
      rw [statementsWithin_zero] at h
      cases h
      obtain ⟨hk, ht⟩ := Takes.closeBlock hs hclean
      exact ⟨_, ⟨[], _, .noStatement, hk, rfl⟩, by simpa [Statement.checkAll] using ht⟩
  | succ fuel ih =>
      intro s s' nodes c hs h hclean
      have hexit := (Change.exitPanic s).sober hs
      have hregular := Regular.statementsWithin fuel
      rcases statementsWithin_cases h with
        ⟨-, rfl, rfl⟩ | ⟨-, node, rest, s1, hnode, hrest, rfl⟩ | ⟨-, failure, s1, hfail, hrest⟩
      · obtain ⟨hk, ht⟩ := Takes.closeBlock hs hclean
        exact ⟨_, ⟨[], _, .noStatement, hk, rfl⟩, by simpa [Statement.checkAll] using ht⟩
      · obtain ⟨u, hu, hfirst⟩ := sound_statement ih c hexit hnode
          ((hregular.ok hrest).clean hclean)
        have hsober := ((Regular.statement hregular).ok hnode).sober hexit
        obtain ⟨_, ⟨v, r, hv, hr, rfl⟩, hmore⟩ := ih (Statement.checkAll node.toList c) hsober
          hrest hclean
        -- the first statement sees the token behind it, which starts the rest or closes the block
        have hnext : s1.current.kind = nextKind (.mark .rightBrace) v := by
          rw [hfirst.lexed.current_kind, hmore.unread, List.append_assoc, nextKind_append,
            List.singleton_append, nextKind_cons, hr]
        rw [hnext] at hu
        refine ⟨_, ⟨u ++ v, r, .moreStatements hu hv, hr, rfl⟩, ?_⟩
        rw [Statement.checkAll_append, List.append_assoc]
        exact (Takes.exitPanic hs.lexed).trans (hfirst.trans hmore)
      -- a statement that fails is reported, and the findings stay
      · obtain ⟨hm, hard⟩ := (Regular.statement hregular).error hfail
        exact absurd ((hregular.ok hrest).clean hclean)
          ((hm.sober hexit).not_clean_recover hard _)

theorem sound_statements : SoundWhenClean Enclosed Statement.checkAll statements := by
  intro s s' nodes c hs h hclean
  rw [statements, get_bind] at h
  exact sound_statementsWithin _ c hs h hclean

end FrontEnd.Grammar
