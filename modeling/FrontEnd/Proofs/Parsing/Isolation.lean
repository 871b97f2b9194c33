import FrontEnd.Proofs.Parsing.Acceptance
import FrontEnd.Proofs.Parsing.Alone

set_option autoImplicit false

/-! # A broken statement stays alone

A statement that fails in front of a semicolon fails there whatever stands behind the semicolon and
whatever was declared before (`FailsAlike`): it fails at one of its tokens or at the semicolon, and
has reported nothing grammatical before. The search for the next statement then ends right behind
the semicolon, if no other boundary stands in the statement (`Fragment.round`). In the body of a
function the statements before and behind it are read as if it was not there, and its failure is the
only grammatical finding (`parse_broken`).

That the statement is broken is known from any one file in which it fails, so its failure has to be
carried over to the file at hand. The two runs go on side by side up to the semicolon, and a failure
comes up before either reads it. A statement may end with parts that never fail (`Safe`), and some of
these read the semicolon; but behind a failure they do not come into play.
-/

namespace FrontEnd

namespace Grammar

open FrontEnd.Grammar.Parser

variable {α β : Type} {c : Twins} {s t s' : State}

/-! ## Failures in two runs

Only failures are compared here. Where the first run succeeds it may have read its semicolon, and
nothing is said of the second one. -/

/-- If the first run has failed, so has the second one, at the same token. -/
def FailsAlike (c : Twins) (x y : EStateM.Result Finding State α) : Prop :=
  ∀ f s', x = .error f s' → ∃ g t', y = .error g t' ∧ g = t'.finding g.issue t'.current ∧
    Alike c s' t'

/-- A parser that never fails. What it finds it reports by itself, and goes on. -/
def Safe (p : Parser α) : Prop := ∀ s f s', p s ≠ .error f s'

namespace Safe

theorem of_ok {p : Parser α} (h : ∀ s, ∃ a s', p s = .ok a s') : Safe p := by
  intro s f s' he
  obtain ⟨a, s1, hok⟩ := h s
  rw [hok] at he
  cases he

theorem pure (a : α) : Safe (Pure.pure a) := of_ok fun s => ⟨a, s, rfl⟩

theorem bind {p : Parser α} {q : α → Parser β} (hp : Safe p) (hq : ∀ a, Safe (q a)) :
    Safe (p >>= q) := by
  intro s f s' h
  rcases bind_eq_error.mp h with h | ⟨a, s1, -, h⟩
  · exact hp s f s' h
  · exact hq a s1 f s' h

theorem update (f : State → State) : Safe (Parser.update f) := of_ok fun s => ⟨(), f s, rfl⟩

theorem locate (x : Token) : Safe (Parser.locate x) := of_ok fun s => ⟨s.locate x, s, rfl⟩

theorem onlyIf (condition : Bool) {p : Parser Unit} (hp : Safe p) :
    Safe (Parser.onlyIf condition p) := by
  cases condition with
  | true => exact hp
  | false => exact pure ()

theorem accept (kind : Kind) : Safe (Parser.accept kind) := by
  refine of_ok fun s => ?_
  rw [accept_eq]
  split
  · exact ⟨_, _, rfl⟩
  · exact ⟨_, _, rfl⟩

theorem statements : Safe Parser.statements := of_ok fun s => ⟨_, _, statements_eq_runBlock s⟩

theorem finishBinding (name : Token) (type : Option TypeExpr) (init : Option Expr)
    (mutability : Mutability) : Safe (Parser.finishBinding name type init mutability) := by
  apply bind (locate name)
  intro _
  refine bind (update _) ?_
  intro _
  exact pure _

end Safe

namespace FailsAlike

theorem of_match {x y : EStateM.Result Finding State α} (h : Match c x y) : FailsAlike c x y := by
  rintro f s' rfl
  cases y with
  | ok b t' => exact h.elim
  | error g t' => exact ⟨g, t', rfl, h.2⟩

theorem of_safe {p : Parser α} (hp : Safe p) (q : Parser α) : FailsAlike c (p s) (q t) :=
  fun f s' h => absurd h (hp s f s')

/-- If the first parts do the same, only the second ones can make a difference. -/
theorem bind {p p' : Parser α} {q q' : α → Parser β} (h : Match c (p s) (p' t))
    (hq : ∀ a b ⦃s t⦄, Alike c s t → FailsAlike c (q a s) (q' b t)) :
    FailsAlike c ((p >>= q) s) ((p' >>= q') t) := by
  intro f s' hs
  cases hs1 : p s with
  | ok a s1 =>
      cases ht1 : p' t with
      | ok b t1 =>
          rw [hs1, ht1] at h
          rw [bind_of_ok hs1] at hs
          rw [bind_of_ok ht1]
          exact hq a b h.2 f s' hs
      | error g t1 => rw [hs1, ht1] at h; exact h.elim
  | error f1 s1 =>
      obtain ⟨g, t1, ht1, hg⟩ := of_match h f1 s1 hs1
      rw [bind_eq_error.mpr (.inl hs1)] at hs
      cases hs
      exact ⟨g, t1, bind_eq_error.mpr (.inl ht1), hg⟩

/-- What is behind a parser that may fail does not fail. -/
theorem before_safe {p p' : Parser α} {q q' : α → Parser β} (h : FailsAlike c (p s) (p' t))
    (hq : ∀ a, Safe (q a)) : FailsAlike c ((p >>= q) s) ((p' >>= q') t) := by
  intro f s' hs
  rcases bind_eq_error.mp hs with hs | ⟨a, s1, -, hs⟩
  · obtain ⟨g, t1, ht1, hg⟩ := h f s' hs
    exact ⟨g, t1, bind_eq_error.mpr (.inl ht1), hg⟩
  · exact absurd hs (hq a s1 f s')

theorem expect (kind : Kind) (place : Place) (h : Alike c s t) :
    FailsAlike c (Parser.expect kind place s) (Parser.expect kind place t) := by
  intro f s' hs
  rw [expect_eq] at hs
  split at hs
  · cases hs
  · next hk =>
    cases hs
    exact ⟨_, t, by rw [expect_eq, h.current, if_neg hk], by rw [h.current]; rfl, h⟩

/-! ## Statements

For each kind of statement, the parts in front of the semicolon go on side by side, and what stands
behind it cannot fail. A block fails only for want of its opening brace: the statements in it recover
from their own failures. -/

theorem keywordBinding (h : Alike c s t) (hk : isTerminator s.current.kind = false) :
    FailsAlike c (Parser.keywordBinding s) (Parser.keywordBinding t) := by
  rw [Parser.keywordBinding, take_bind, take_bind, h.current]
  refine bind (Along.expectToken rfl _ (h.advance hk)) fun name name' s t h => ?_
  refine bind (Along.optionalType h) fun type type' s t h => ?_
  refine bind (Along.optionalInit h) fun init init' s t h => of_safe ?_ _
  refine .bind (.accept _) ?_
  intro _
  refine .bind (.onlyIf _ (.update _)) ?_
  intro _
  exact .finishBinding _ _ _ _

theorem block (h : Alike c s t) :
    FailsAlike c (Parser.block statements s) (Parser.block statements t) := by
  refine bind (Along.expectToken rfl _ h) fun opening opening' s t h => of_safe ?_ _
  refine .bind (.update _) ?_
  intro _
  refine .bind .statements ?_
  intro _
  refine .bind (.update _) ?_
  intro _
  refine .bind (.locate _) ?_
  intro _
  exact .pure _

theorem namedBlock (name : Token) (h : Alike c s t) :
    FailsAlike c (Parser.namedBlock statements name s) (Parser.namedBlock statements name t) := by
  rw [Parser.namedBlock, get_bind, get_bind]
  refine bind (Along.complainIf rfl name (fun hsame => ?_) h) fun _ _ s t h => ?_
  · rw [h.inFunction hsame]
  · apply before_safe (block h)
    intro _
    refine .bind (.locate _) ?_
    intro _
    exact .pure _

theorem nameBinding (h : Alike c s t) (hstarts : startsBinding s = true) :
    FailsAlike c (Parser.nameBinding statements s) (Parser.nameBinding statements t) := by
  obtain ⟨h1, h2⟩ := h.advance_binding hstarts
  have hfinish (name : Token) (type : Option TypeExpr) (init : Option Expr)
      (mutability : Mutability) : Safe (do
        let node ← Parser.finishBinding name type init mutability
        let _ ← Parser.accept (.mark .semicolon)
        return node) :=
    .bind (.finishBinding _ _ _ _) fun _ => .bind (.accept _) fun _ => .pure _
  rw [Parser.nameBinding, take_bind, take_bind, take_bind, take_bind, h.current, h1.current]
  generalize s.advance.current.kind = sign
  split
  · exact before_safe (of_match (Along.expression h2)) fun _ => hfinish _ _ _ _
  · exact before_safe (of_match (Along.expression h2)) fun _ => hfinish _ _ _ _
  · rw [current_bind, current_bind, h2.current]
    split
    · exact namedBlock _ h2
    · refine bind (Along.typeExpr _ h2) fun type type' s t h => ?_
      exact before_safe (of_match (Along.optionalInit h)) fun _ => hfinish _ _ _ _

theorem returnStatement (h : Alike c s t) (hk : isTerminator s.current.kind = false) :
    FailsAlike c (Parser.returnStatement s) (Parser.returnStatement t) := by
  have h1 := h.advance hk
  rw [Parser.returnStatement, take_bind, take_bind, h.current, get_bind, get_bind]
  refine bind (Along.complainIf rfl _ (fun hsame => ?_) h1) fun _ _ s t h => ?_
  · rw [h1.inFunction hsame]
  · apply before_safe (of_match (Along.returnValues h))
    intro _
    refine .bind (.accept _) ?_
    intro _
    refine .bind (.locate _) ?_
    intro _
    exact .pure _

theorem statement (h : Alike c s t) :
    FailsAlike c (Parser.statement statements s) (Parser.statement statements t) := by
  rw [Parser.statement, get_bind, get_bind, h.current, h.startsBinding_eq]
  generalize hk : s.current.kind = k
  split
  · exact before_safe (keywordBinding h (by rw [hk]; rfl)) fun _ => .pure _
  · exact before_safe (keywordBinding h (by rw [hk]; rfl)) fun _ => .pure _
  · exact before_safe (keywordBinding h (by rw [hk]; rfl)) fun _ => .pure _
  · exact before_safe (returnStatement h (by rw [hk]; rfl)) fun _ => .pure _
  · exact before_safe (block h) fun _ => .pure _
  · exact of_safe (.bind (.update _) fun _ => .pure _) _
  · exact of_match (Along.fail _ h)
  · exact of_match (Along.fail _ h)
  · exact of_match (Along.fail _ h)
  · exact of_match (Along.fail _ h)
  · split
    · next hstarts => exact before_safe (nameBinding h hstarts) fun _ => .pure _
    · refine bind (Along.expression h) fun e e' s t h => ?_
      exact before_safe (expect _ _ h) fun _ => .pure _

end FailsAlike

/-! ## The search for the next statement

Behind a failure tokens are skipped up to the next boundary. In a fragment the semicolon behind it is
the first boundary, wherever in the fragment the failure was. -/

/-- Tokens without a boundary at which the search for a statement ends, the first one apart: that one
may start a statement or a declaration. -/
structure Fragment (w : List Token) : Prop where
  ne_nil : w ≠ []
  valid : AllValid w
  plain : ∀ x ∈ w, x.kind ≠ .mark .leftBrace ∧ x.kind ≠ .mark .rightBrace ∧
    x.kind ≠ .mark .semicolon
  inner : ∀ x ∈ w.tail, startsDeclaration x.kind = false

/-- The search ends at a semicolon behind tokens that do not end it. -/
theorem synchronize_semicolon {w rest : List Token} {semicolon : Token}
    (hw : ∀ x ∈ w, endsSearch x.kind = false) (hk : semicolon.kind = .mark .semicolon)
    (hnext : ∀ x ∈ rest.head?, x.kind ≠ .invalid) :
    synchronize false (w ++ semicolon :: rest) = rest := by
  rw [synchronize_eq, List.dropWhile_append_of_pos (fun x hx => by rw [hw x hx]; rfl),
    List.dropWhile_cons_of_neg (by rw [hk]; decide), behindBoundary, hk]
  exact dropInvalid_of_valid hnext

namespace Fragment

variable {w v rest : List Token} {semicolon : Token}

theorem not_endsSearch (hw : Fragment w) : ∀ x ∈ w.tail, endsSearch x.kind = false := by
  intro x hx
  obtain ⟨hleft, hright, hsemicolon⟩ := hw.plain x (List.mem_of_mem_tail hx)
  simp [endsSearch, hleft, hright, hsemicolon, hw.inner x hx]

/-- Wherever the statement has failed, reading goes on behind its semicolon. -/
theorem recover_unread (hw : Fragment w) (hk : semicolon.kind = .mark .semicolon)
    (hnext : ∀ x ∈ rest.head?, x.kind ≠ .invalid) (hv : v <:+ w)
    (hs : s.unread = v ++ semicolon :: rest) (failure : Finding) :
    (s.recover failure (w ++ semicolon :: rest).length).unread = rest := by
  obtain ⟨x, w, rfl⟩ := List.exists_cons_of_ne_nil hw.ne_nil
  have hsearch := hw.not_endsSearch
  rw [State.recover]
  dsimp only
  rcases List.suffix_cons_iff.mp hv with rfl | hv
  · -- nothing was read, so the first token is skipped
    obtain ⟨hleft, -, hsemicolon⟩ := hw.plain x List.mem_cons_self
    rw [hs, if_pos rfl, List.cons_append, skipStatement, if_neg hleft, decide_eq_false hsemicolon]
    exact synchronize_semicolon hsearch hk hnext
  · have hlength : s.unread.length ≠ (x :: w ++ semicolon :: rest).length := by
      have hle := hv.length_le
      rw [hs]
      simp only [List.length_append, List.length_cons]
      omega
    rw [if_neg hlength, hs]
    exact synchronize_semicolon (fun y hy => hsearch y (hv.subset hy)) hk hnext

end Fragment

/-- From `s` to `s'` the tokens in front of `rest` were read, and there was one grammatical finding,
at one of the tokens `w`. -/
structure Breaks (s : State) (w rest : List Token) (s' : State) : Prop where
  unread : s'.unread = rest
  file : s'.file = s.file
  finish : s'.finish = s.finish
  found : ∃ x ∈ w, ∃ issue : Issue, issue.isGrammatical = true ∧
    s'.grammatical = s.grammatical ++ [⟨issue, ⟨s.file, x.position⟩, x.width⟩]

section

variable {file : String} {finish semicolon : Token} {w mid rest first : List Token} {s'' : State}

theorem Goes.breaks (h : Goes s mid s') (h' : Breaks s' w rest s'') : Breaks s w rest s'' := by
  obtain ⟨hunread, hfile, hfinish, hfound⟩ := h'
  rw [h.file, h.grammatical] at hfound
  exact ⟨hunread, hfile.trans h.file, hfinish.trans h.finish, hfound⟩

theorem Breaks.goes (h : Breaks s w mid s') (h' : Goes s' rest s'') : Breaks s w rest s'' where
  unread := h'.unread
  file := h'.file.trans h.file
  finish := h'.finish.trans h.finish
  found := by
    rw [h'.grammatical]
    exact h.found

theorem State.At.breaks (hs : s.At file finish mid) (h : Breaks s w rest s') :
    s'.At file finish rest :=
  ⟨h.file.trans hs.file_eq, h.finish.trans hs.finish_eq, h.unread⟩

/-- A statement that fails in front of a semicolon in one file fails there in a block, leaves no node,
and is skipped up to the semicolon. -/
theorem Fragment.round (hw : Fragment w) (hk : semicolon.kind = .mark .semicolon) {u u' : State}
    {f : Finding} (hu : u.HasEnd) (hunread : u.unread = w ++ semicolon :: first)
    (hfails : statement statements u = .error f u')
    (hs : s.At file finish (w ++ semicolon :: rest)) (hv : Valid finish (w ++ semicolon :: rest)) :
    ∃ s', s.blockRound = (none, s') ∧ Breaks s (w ++ [semicolon]) rest s' := by
  -- the two runs read the same fragment up to the semicolon, with different tokens behind it
  let c : Twins := ⟨False, semicolon, by rw [hk]; rfl, first, rest, s.exitPanic⟩
  have hend : s.exitPanic.HasEnd := hs.exitPanic.hasEnd hv
  have halike : Alike c u s.exitPanic :=
    ⟨⟨w, hw.valid, hunread, hs.unread_eq⟩, hu, hend, False.elim,
      .of_findings rfl rfl⟩
  obtain ⟨g, t, ht, hg, halike'⟩ := FailsAlike.statement halike f u' hfails
  obtain ⟨hmoves, hard⟩ := (Regular.statement Regular.statements).error ht
  obtain ⟨v, -, -, hv'⟩ := halike'.tokens
  -- the failure comes up within the fragment, or at its semicolon
  have hsuffix : v <:+ w := by
    have h := hmoves.unread_suffix
    rw [hv', hs.exitPanic.unread_eq] at h
    exact (List.suffix_append_self_iff).mp h
  have hnext : ∀ x ∈ rest.head?, x.kind ≠ .invalid := fun x hx =>
    hv.tokens x (List.mem_append_right w (List.mem_cons_of_mem _ (List.mem_of_mem_head? hx)))
  have hcurrent : t.current ∈ w ++ [semicolon] := by
    rw [State.current, hv']
    cases v with
    | nil => exact List.mem_append_right w List.mem_cons_self
    | cons x v => exact List.mem_append_left _ (hsuffix.subset List.mem_cons_self)
  have hskip := hmoves.trans (Regular.recover hard t s.unread.length)
  refine ⟨t.recover g s.unread.length, State.blockRound_error ht, ?_, hskip.file_eq,
    hskip.finish_eq, t.current, hcurrent, g.issue, hard, ?_⟩
  · rw [hs.unread_eq]
    exact hw.recover_unread hk hnext hsuffix hv' g
  · have hmore : (t.recover g s.unread.length).grammatical = t.grammatical ++ [g] :=
      State.report_grammatical_hard hard halike'.calm.panic
    have hfile : t.file = s.file := hmoves.file_eq
    rw [hmore, halike'.calm.grammatical, ← hfile]
    exact congrArg (s.grammatical ++ [·]) hg

end

/-! ## The function around the statement

The statements of the body are read in rounds, one for each of them, and the broken one takes a round
as well. The rounds before it and behind it are those of a body without it. -/

theorem goes_leaveFunction (s : State) (wasInFunction : Bool) :
    Goes s s.unread (s.leaveFunction wasInFunction) := ⟨rfl, rfl, rfl, rfl, rfl⟩

/-- A function is read up to its opening brace, and what is behind the brace is its body. -/
theorem function_of_block {file : String} {finish opening : Token} {head : Prototype}
    {input inner : List Token} (hopening : opening.kind = .mark .leftBrace)
    (hhead : ReadsHead file finish false input head (opening :: inner))
    (hs : s.At file finish input) (hv : Valid finish input) :
    ∃ s' was, Goes s inner s' ∧ function s =
      .ok (.function head s'.runBlock.1 ⟨file, opening.position⟩)
        (s'.runBlock.2.leaveFunction was) := by
  obtain ⟨s1, hprototype, hgo1⟩ := yields_prototype hhead hs hv
  have hv1 := hv.of_suffix hhead.suffix
  -- the state in the body, in front of the brace and behind it
  have hgo2 : Goes s1 s1.unread (s1.enterFunction head.params) := ⟨rfl, rfl, rfl, rfl, rfl⟩
  have hs2 := (hs.goes hgo1).goes hgo2
  rw [hgo1.unread] at hs2
  have hgo3 := hs2.advance hv1.tail.next
  have hs3 := hs2.goes hgo3
  refine ⟨_, s1.inFunction, (hgo1.trans hgo2).trans hgo3, ?_⟩
  have hbrace : (s1.enterFunction head.params).current.kind = .mark .leftBrace := by
    rw [hs2.current_eq]
    exact hopening
  have hfile := (moves_runBlock (s1.enterFunction head.params).advance).file_eq
  have hbody : functionBody (s1.enterFunction head.params) =
      .ok ((s1.enterFunction head.params).advance.runBlock.1, ⟨file, opening.position⟩)
        (s1.enterFunction head.params).advance.runBlock.2 := by
    rw [functionBody, bind_of_ok (expect_of_kind _ hbrace), bind_of_ok (statements_eq_runBlock _),
      locate_bind, State.locate, hfile, hs3.file_eq, hs2.current_eq]
    rfl
  have hwithin : withinFunction head.params functionBody s1 =
      .ok ((s1.enterFunction head.params).advance.runBlock.1, ⟨file, opening.position⟩)
        ((s1.enterFunction head.params).advance.runBlock.2.leaveFunction s1.inFunction) := by
    rw [withinFunction, hbody]
  rw [function, bind_of_ok hprototype, bind_of_ok hwithin]
  rfl

section

variable {file : String} {finish semicolon closing : Token} {w rest first : List Token}
  {before behind : List (List Token)} {u u' : State} {f : Finding}
  (hw : Fragment w) (hk : semicolon.kind = .mark .semicolon) (hinner : ∀ x ∈ w, x.kind ≠ .endOfFile)
  (hu : u.HasEnd) (hunread : u.unread = w ++ semicolon :: first)
  (hfails : statement statements u = .error f u')
  (hbefore : ∀ v ∈ before, WholeStatement v) (hbehind : ∀ v ∈ behind, WholeStatement v)
  (hclosing : closing.kind = .mark .rightBrace)
include hw hk hinner hu hunread hfails hbefore hbehind hclosing

/-- The statements around a broken one are read as if it was not there. -/
theorem runBlock_broken
    (hs : s.At file finish
      (before.flatten ++ (w ++ semicolon :: (behind.flatten ++ closing :: rest))))
    (hv : Valid finish
      (before.flatten ++ (w ++ semicolon :: (behind.flatten ++ closing :: rest)))) :
    ∃ s', s.runBlock =
        (statementTrees file finish before ++ statementTrees file finish behind, s') ∧
      Breaks s (w ++ [semicolon]) rest s' := by
  -- the statements in front, the round of the broken one, and the statements behind it
  obtain ⟨s1, hrun1, hgo1⟩ := runBlock_statements hbefore hs hv
  have hs1 := hs.goes hgo1
  have hv1 := hv.of_suffix (List.suffix_append ..)
  obtain ⟨s2, hround, hbreaks⟩ := hw.round hk hu hunread hfails hs1 hv1
  have hs2 := hs1.breaks hbreaks
  have hv2 : Valid finish (behind.flatten ++ closing :: rest) :=
    hv1.of_suffix ((List.suffix_cons semicolon _).trans (List.suffix_append w _))
  obtain ⟨s3, hrun2, hgo2⟩ := runBlock_statements hbehind hs2 hv2
  have hs3 := hs2.goes hgo2
  have hclose := goes_closeBlock hs3 hclosing (hv2.of_suffix (List.suffix_append ..))
  refine ⟨s3.closeBlock, ?_, hgo1.breaks ((hbreaks.goes hgo2).goes hclose)⟩
  have hend1 : s1.HasEnd := hs1.hasEnd hv
  have he1 : ¬ s1.endsBlock := by
    obtain ⟨x, more, rfl⟩ := List.exists_cons_of_ne_nil hw.ne_nil
    rw [State.endsBlock, hs1.current_eq]
    rintro (hkind | hkind)
    · exact (hw.plain x List.mem_cons_self).2.1 hkind
    · exact hinner x List.mem_cons_self hkind
  have he3 : s3.endsBlock := .inl (by rw [hs3.current_eq]; exact hclosing)
  rw [hrun1, hend1.runBlock_round he1, hround, hrun2, State.runBlock_end he3]
  simp

/-- A function with a broken statement in its body is read as the function without it. -/
theorem function_broken {head : Prototype} {input : List Token} {opening : Token}
    (hopening : opening.kind = .mark .leftBrace)
    (hhead : ReadsHead file finish false input head (opening ::
      (before.flatten ++ (w ++ semicolon :: (behind.flatten ++ closing :: rest)))))
    (hs : s.At file finish input) (hv : Valid finish input) :
    ∃ s', function s = .ok (.function head
        (statementTrees file finish before ++ statementTrees file finish behind)
        ⟨file, opening.position⟩) s' ∧
      Breaks s (w ++ [semicolon]) rest s' := by
  obtain ⟨s1, was, hgo1, hfunction⟩ := function_of_block hopening hhead hs hv
  have hv1 := (hv.of_suffix hhead.suffix).tail
  obtain ⟨s2, hrun, hbreaks⟩ := runBlock_broken hw hk hinner hu hunread hfails hbefore hbehind
    hclosing (hs.goes hgo1) hv1
  have hgo2 := goes_leaveFunction s2 was
  rw [hbreaks.unread] at hgo2
  rw [hrun] at hfunction
  exact ⟨s2.leaveFunction was, hfunction, hgo1.breaks (hbreaks.goes hgo2)⟩

end

/-- A head without arguments and return types. -/
theorem readsHead_plain (file : String) (finish : Token) {keyword name left right opening : Token}
    (hkeyword : keyword.kind = .word .fnWord) (hname : name.kind = .identifier)
    (hleft : left.kind = .mark .leftParen) (hright : right.kind = .mark .rightParen)
    (hopening : opening.kind = .mark .leftBrace) (rest : List Token) :
    ReadsHead file finish false (keyword :: name :: left :: right :: opening :: rest)
      ⟨name.lexeme, [], [.void ⟨file, opening.position⟩], .function, false, ⟨file, name.position⟩⟩
      (opening :: rest) := by
  have hkind : functionKindOf keyword.kind = .function := by rw [hkeyword]; rfl
  rw [← hkind]
  exact .head hname hleft (.none hright)
    (.none (by rw [nextKind_cons, hopening]; simp) (.inr hopening))

theorem declaration_function {d : Declaration} (hk : s.current.kind = .word .fnWord)
    (h : function s = .ok d s') : declaration s = .ok (some d) s' := by
  rw [declaration, get_bind, hk]
  exact bind_of_ok h _

end Grammar

open Grammar Grammar.Parser

/-- In the body of a function, whole statements around a broken one leave their trees, and the broken
one leaves one grammatical finding, at one of its tokens or its semicolon. A statement is broken if it
fails in front of a semicolon, in any state of any file. -/
theorem parse_broken {b : Buffer} {keyword name left right opening semicolon closing : Token}
    {before behind : List (List Token)} {w first : List Token}
    (htokens : b.tokens = keyword :: name :: left :: right :: opening ::
      (before.flatten ++ (w ++ semicolon :: (behind.flatten ++ [closing]))))
    (hkinds : [keyword, name, left, right, opening, semicolon, closing].map (·.kind) =
      [.word .fnWord, .identifier, .mark .leftParen, .mark .rightParen, .mark .leftBrace,
        .mark .semicolon, .mark .rightBrace])
    (hbefore : ∀ v ∈ before, WholeStatement v) (hbehind : ∀ v ∈ behind, WholeStatement v)
    (hw : Fragment w) {s s' : State} {f : Finding} (hs : s.HasEnd)
    (hunread : s.unread = w ++ semicolon :: first)
    (hfails : statement statements s = .error f s') :
    let finish := (Stream.ofText b.chars).finish
    b.parse.declarations =
      [.function ⟨name.lexeme, [], [.void ⟨b.name, opening.position⟩], .function, false,
          ⟨b.name, name.position⟩⟩
        (statementTrees b.name finish before ++ statementTrees b.name finish behind)
        ⟨b.name, opening.position⟩] ∧
      ∃ x ∈ w ++ [semicolon], ∃ issue : Issue,
        b.parse.findings.filter (·.issue.isGrammatical) =
          [⟨issue, ⟨b.name, x.position⟩, x.width⟩] := by
  intro finish
  simp only [List.map_cons, List.map_nil, List.cons.injEq, and_true] at hkinds
  obtain ⟨hkeyword, hname, hleft, hright, hopening, hsemicolon, hclosing⟩ := hkinds
  have hinner : ∀ x ∈ b.tokens, x.kind ≠ .endOfFile := fun x hx => (Stream.upTo_tokens hx).1
  have hall {statements : List (List Token)} (h : ∀ v ∈ statements, WholeStatement v) :
      AllValid statements.flatten := by
    intro x hx
    obtain ⟨v, hv, hx⟩ := List.mem_flatten.mp hx
    exact (h v hv).forms.valid x hx
  have hvalid : AllValid b.tokens := by
    rw [htokens]
    refine .cons (by simp [hkeyword]) (.cons (by simp [hname]) (.cons (by simp [hleft])
      (.cons (by simp [hright]) (.cons (by simp [hopening]) ((hall hbefore).append ?_)))))
    exact hw.valid.append (.cons (by simp [hsemicolon])
      ((hall hbehind).append (.one (by simp [hclosing]))))
  obtain ⟨hat, hv⟩ := Buffer.startState_at hvalid
  have hhead := readsHead_plain b.name finish hkeyword hname hleft hright hopening
    (before.flatten ++ (w ++ semicolon :: (behind.flatten ++ [closing])))
  rw [← htokens] at hhead
  obtain ⟨s1, hfunction, hbreaks⟩ := function_broken hw hsemicolon
    (fun x hx => hinner x (by rw [htokens]; simp [hx])) hs hunread hfails hbefore hbehind hclosing
    hopening hhead hat.exitPanic hv
  have hs1 := hat.exitPanic.breaks hbreaks
  have hkind : b.startState.current.kind = .word .fnWord := by
    rw [State.current, hat.unread_eq, htokens]
    exact hkeyword
  -- the function is the only declaration, and the end of the file is behind it
  have hend : b.startState.HasEnd := hat.hasEnd hv
  have hrun := hend.run_single (by rw [hkind]; simp)
    (State.fileRound_ok (declaration_function hkind hfunction)) hs1.unread_eq
  obtain ⟨x, hx, issue, -, hfound⟩ := hbreaks.found
  have hstart : b.startState.exitPanic.grammatical = [] := by
    rw [Buffer.startState_eq hvalid]
    rfl
  rw [hstart, List.nil_append] at hfound
  rw [Buffer.parse, hrun]
  exact ⟨rfl, x, hx, issue, hat.exitPanic.file_eq ▸ hfound⟩

/-- A sum without its second operand, between a name and an empty block. -/
theorem parse_broken_sum :
    let b := Buffer.ofText "sum.tp" "fn f() \x7b a; b + ; \x7b\x7d \x7d"
    let loc (column : Nat) : Location := ⟨"sum.tp", ⟨1, column⟩⟩
    b.parse.declarations =
      [.function ⟨"f", [], [.void (loc 8)], .function, false, loc 4⟩
        [.expr (.ident "a" (loc 10)), .block [] (loc 19)] (loc 8)] ∧
      ∃ x ∈ [⟨.identifier, "b", ⟨1, 13⟩⟩, ⟨.operator (.add .plain), "+", ⟨1, 15⟩⟩,
          ⟨.mark .semicolon, ";", ⟨1, 17⟩⟩], ∃ issue : Issue,
        b.parse.findings.filter (·.issue.isGrammatical) =
          [⟨issue, ⟨"sum.tp", Token.position x⟩, x.width⟩] := by
  intro b loc
  let a : Token := ⟨.identifier, "a", ⟨1, 10⟩⟩
  let semicolon : Token := ⟨.mark .semicolon, ";", ⟨1, 17⟩⟩
  let broken : List Token := [⟨.identifier, "b", ⟨1, 13⟩⟩, ⟨.operator (.add .plain), "+", ⟨1, 15⟩⟩]
  let before : List (List Token) := [[a, ⟨.mark .semicolon, ";", ⟨1, 11⟩⟩]]
  let behind : List (List Token) :=
    [[⟨.mark .leftBrace, "\x7b", ⟨1, 19⟩⟩, ⟨.mark .rightBrace, "\x7d", ⟨1, 20⟩⟩]]
  have htokens : b.tokens = ⟨.word .fnWord, "fn", ⟨1, 1⟩⟩ :: ⟨.identifier, "f", ⟨1, 4⟩⟩ ::
      ⟨.mark .leftParen, "(", ⟨1, 5⟩⟩ :: ⟨.mark .rightParen, ")", ⟨1, 6⟩⟩ ::
      ⟨.mark .leftBrace, "\x7b", ⟨1, 8⟩⟩ :: (before.flatten ++
        (broken ++ semicolon :: (behind.flatten ++ [⟨.mark .rightBrace, "\x7d", ⟨1, 22⟩⟩]))) := by
    decide
  have hbefore : ∀ v ∈ before, WholeStatement v := by
    intro v hv
    rw [List.mem_singleton.mp hv]
    have ha : Derives .expression ([a] ++ []) := .expression (.unary (.name rfl)) .noLink
    exact ⟨.expression ha rfl, [a], _, rfl, rfl⟩
  have hbehind : ∀ v ∈ behind, WholeStatement v := by
    intro v hv
    rw [List.mem_singleton.mp hv]
    exact ⟨.inner (.block (w := []) rfl .noStatement rfl), [_], _, rfl, rfl⟩
  have hvalid : ∀ x ∈ broken, x.kind ≠ .invalid := by decide
  have hbroken : Fragment broken := ⟨by decide, hvalid, by decide, by decide⟩
  let alone := State.start "sum.tp" ⟨broken ++ [semicolon], ⟨.endOfFile, "", ⟨1, 18⟩⟩⟩
  have hend : alone.HasEnd := rfl
  have hunread : alone.unread = broken ++ [semicolon] := rfl
  -- the second operand is missing also where the fragment stands alone
  obtain ⟨f, s', hfails⟩ : ∃ f s', statement statements alone = .error f s' := ⟨_, _, rfl⟩
  exact parse_broken htokens (by decide) hbefore hbehind hbroken hend hunread hfails

end FrontEnd
