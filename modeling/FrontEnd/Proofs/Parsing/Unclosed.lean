import FrontEnd.Proofs.Parsing.Continuation
import FrontEnd.Proofs.Parsing.Cut

set_option autoImplicit false

/-! # Braces that are missing at the end of a file

Behind the cut the run of the whole file reads the closing braces, and the other run, at the end of
its file, reports one missing brace for each of them (`Cut.Short`). Nothing else is read or found
there, at whatever depth of blocks the cut is. So a file that is read without a grammatical finding
leaves the same trees if its last closing braces are cut off, and one finding more for each of them
(`Cut.Near.run`).

The invariant is that the two runs are in front of the cut or behind it (`Cut.Near`), with the
number of braces behind it as the only thing that changes. It changes in one step, where a block is
closed (`Cut.Near.closeBlock`); all other steps behind the cut read nothing and find nothing
(`Cut.Idle`). The second run is in panic from the first missing brace on, but each block that is
closed leaves the panic behind before it reports, so every missing brace is reported.
-/

namespace FrontEnd

/-- The finding about a closing brace that is missing at the end of a file. -/
def missingBrace (name : String) (p : Position) : Finding :=
  ⟨.expected (.token (.mark .rightBrace) .behindBlock) (.endOfFile p), ⟨name, p⟩, 1⟩

namespace Grammar

open FrontEnd.Grammar.Parser

variable {α β : Type} {c : Cut} {s t s' : State} {m : Nat}

/-! ## Behind the cut

The first run closes a block with a brace, the second one reports that the brace is missing. The
states differ in these findings alone, apart from the tokens. -/

/-- The state at the end of the file that is left, if `m` braces were missing there. -/
def Cut.shorten (c : Cut) (m : Nat) (s : State) : State :=
  { s with
    unread := []
    finish := c.finish
    findings := s.findings ++ List.replicate m (missingBrace s.file c.place)
    errors := s.errors + m
    panic := true }

/-- The first run has read `m` of the braces that are cut off, and they were missing in the second
one. -/
structure Cut.Short (c : Cut) (m : Nat) (s t : State) : Prop where
  unread : s.unread = c.closers.drop m
  le : m ≤ c.closers.length
  eq : t = c.shorten m s
  sober : s.Sober

/-- The two runs are in front of the cut or behind it. Behind it a brace has been missed for each
that the first run has taken. -/
def Cut.Near (c : Cut) (s t : State) : Prop := c.Fits s t ∨ ∃ m, c.Short (m + 1) s t

theorem Cut.Short.current (h : c.Short m s t) : t.current.kind = .endOfFile := by
  rw [h.eq]
  rfl

theorem Cut.Short.endsBlock (h : c.Short m s t) : s.endsBlock := by
  rw [State.endsBlock, State.current]
  cases hunread : s.unread with
  | nil => exact .inr h.sober.lexed.finish
  | cons x rest =>
      refine .inl (c.closing x ?_)
      rw [h.unread] at hunread
      exact List.mem_of_mem_drop (hunread ▸ List.mem_cons_self)

/-- A change of the state that neither reads tokens nor looks at them or at the findings. -/
structure Trailing (f : State → State) : Prop extends Quiet f where
  findings : ∀ s, (f s).findings = s.findings
  shorten : ∀ (c : Cut) m s, f (c.shorten m s) = c.shorten m (f s)

theorem Trailing.popScope : Trailing State.popScope :=
  ⟨(Late.popScope).toQuiet, fun _ => rfl, fun _ _ _ => rfl⟩

theorem Trailing.leaveFunction (wasInFunction : Bool) :
    Trailing fun s => s.leaveFunction wasInFunction :=
  ⟨(Late.leaveFunction wasInFunction).toQuiet, fun _ => rfl, fun _ _ _ => rfl⟩

theorem Cut.Near.update {f : State → State} (h : c.Near s t) (hf : Trailing f) :
    c.Near (f s) (f t) := by
  rcases h with h | ⟨m, h⟩
  · exact .inl (h.update hf.toQuiet)
  · refine .inr ⟨m, (hf.unread_eq s).trans h.unread, h.le, ?_, hf.toQuiet.sober h.sober⟩
    rw [h.eq, hf.shorten]

/-- Behind the cut nothing but closing braces is left. -/
theorem Cut.Near.fits (h : c.Near s t) (he : ¬ s.endsBlock) : c.Fits s t := by
  rcases h with h | ⟨m, h⟩
  · exact h
  · exact absurd h.endsBlock he

theorem Cut.Near.locate (h : c.Near s t) (x : Token) : t.locate x = s.locate x := by
  rcases h with h | ⟨m, h⟩
  · exact h.locate x
  · rw [h.eq]
    rfl

theorem Cut.Near.right (h : c.Near s t) : t.HasEnd := by
  rcases h with h | ⟨m, h⟩
  · exact h.right
  · rw [h.eq]
    exact c.ends

theorem Cut.Near.length_le (h : c.Near s t) : t.unread.length ≤ s.unread.length := by
  rcases h with h | ⟨m, h⟩
  · exact h.length_le
  · rw [h.eq]
    exact Nat.zero_le _

/-- A block that is closed without a finding has its brace: a missing one would have been reported. -/
theorem State.brace_of_closeBlock (hclean : s.closeBlock.Clean) :
    s.current.kind = .mark .rightBrace := by
  by_contra hk
  have hbefore := Moves.clean (Regular.closeBlock s) hclean
  exact State.closeBlock_ne hk
    ((State.clean_iff.mp hclean).trans (State.clean_iff.mp hbefore).symm)

/-- One more brace is missing. Whether the second run is in panic does not matter, since a block that
is closed leaves it: this is the step in which the number of braces behind the cut grows. -/
theorem Cut.closeBlock_short (hs : s.unread = c.closers.drop m) (hm : m < c.closers.length)
    (hsober : s.Sober) (ht : t.exitPanic = (c.shorten m s).exitPanic) :
    c.Short (m + 1) s.closeBlock t.closeBlock := by
  have hdrop : s.unread = c.closers[m] :: c.closers.drop (m + 1) :=
    hs.trans (List.drop_eq_getElem_cons hm)
  have hbrace : s.exitPanic.current.kind = .mark .rightBrace := by
    rw [State.current, show s.exitPanic.unread = _ from hdrop]
    exact c.closing _ (List.getElem_mem hm)
  have hexit := (Change.exitPanic s).sober hsober
  have hclose : s.closeBlock = { s.exitPanic with unread := c.closers.drop (m + 1) } := by
    rw [State.closeBlock]
    dsimp only
    rw [if_pos hbrace, hexit.lexed.advance_eq, show s.exitPanic.unread = _ from hdrop,
      List.tail_cons]
  -- the second run finds the end of the file in place of the brace
  have hmissing : t.closeBlock =
      ((c.shorten m s).exitPanic.report (missingBrace s.file c.place)).enterPanic := by
    rw [State.closeBlock, ht]
    rfl
  refine ⟨by rw [hclose], hm, ?_, Moves.sober (Regular.closeBlock s) hsober⟩
  rw [hmissing, State.report_eq _ _ rfl, hclose]
  simp only [State.enterPanic, Cut.shorten, State.exitPanic, List.replicate_succ',
    List.append_assoc]
  rfl

/-- Where a block is closed in the first run the second one closes it or misses the brace. -/
theorem Cut.Near.closeBlock (h : c.Near s t) (hclean : s.closeBlock.Clean) :
    c.Near s.closeBlock t.closeBlock := by
  have hbrace := State.brace_of_closeBlock hclean
  rcases h with h | ⟨m, h⟩
  · -- in front of the cut the brace is in both files, or it is the first one that is cut off
    obtain ⟨w, hs, ht⟩ := h.tokens
    cases w with
    | cons x w =>
        have hbrace' : s.exitPanic.current.kind = .mark .rightBrace := hbrace
        have hsame : t.exitPanic.current = s.exitPanic.current := by
          rw [ht, State.current, State.current, show s.exitPanic.unread = _ from hs]
          rfl
        rw [State.closeBlock, State.closeBlock]
        dsimp only
        rw [hsame, if_pos hbrace', if_pos hbrace']
        exact .inl (h.exitPanic.advance_cons hs (by rw [ht]; rfl))
    | nil =>
        refine .inr ⟨0, closeBlock_short hs (List.length_pos_iff.mpr c.nonempty) h.sober ?_⟩
        rw [ht]
        simp [State.exitPanic, shorten, State.withTokens]
  · refine .inr ⟨m + 1, closeBlock_short h.unread (Nat.lt_of_not_le fun hle => ?_) h.sober ?_⟩
    · rw [State.current, h.unread, List.drop_eq_nil_of_le hle] at hbrace
      -- if no brace was left, the first run would have missed one too
      have hend : s.finish.kind = .endOfFile := h.sober.lexed.finish
      change s.finish.kind = _ at hbrace
      rw [hend] at hbrace
      cases hbrace
    · rw [h.eq]

/-! ## Parsers that come to the cut

A parser that may close a block may end behind the cut. What follows it there has to be idle, as the
rest of every production is that ends with a block: it leaves scopes and builds a tree. The first run
has to end clean, for a grammatical finding would mean that it had not read its braces. -/

/-- If the first run succeeds without a grammatical finding then so does the second one. -/
abbrev Cut.Closes (c : Cut) (x y : EStateM.Result Finding State α) : Prop :=
  Repeats State.Clean c.Near x y

theorem Cut.Goes.closes {p p' : Parser α} (h : c.Goes (p s) (p' t)) : c.Closes (p s) (p' t) :=
  h.mono (fun _ _ => trivial) fun _ _ => .inl

/-- The parser reads nothing and finds nothing, so it may run behind the cut. -/
structure Cut.Idle (c : Cut) (p : Parser α) : Prop where
  findings : ∀ {s a s'}, p s = .ok a s' → s'.findings = s.findings
  near : ∀ ⦃s t⦄, c.Near s t → Repeats (fun _ => True) c.Near (p s) (p t)

namespace Cut.Idle

theorem pure (a : α) : c.Idle (Pure.pure a) where
  findings h := by cases h; rfl
  near s t h b s' hok _ := by cases hok; exact ⟨t, rfl, h⟩

theorem bind {p : Parser α} {q : α → Parser β} (hp : c.Idle p) (hq : ∀ a, c.Idle (q a)) :
    c.Idle (p >>= q) where
  findings h := by
    obtain ⟨a, s1, hs, h⟩ := bind_eq_ok.mp h
    exact ((hq a).findings h).trans (hp.findings hs)
  near s t h := (hp.near h).tail (fun _ _ => trivial) fun a _ _ h' => (hq a).near h'

theorem update {f : State → State} (hf : Trailing f) : c.Idle (Parser.update f) where
  findings {s _ _} h := by cases h; exact hf.findings s
  near s t h a s' hok _ := by cases hok; exact ⟨f t, rfl, h.update hf⟩

theorem locate (x : Token) : c.Idle (Parser.locate x) where
  findings h := by cases h; rfl
  near s t h loc s' hok _ := by cases hok; exact ⟨t, by rw [← h.locate x]; rfl, h⟩

end Cut.Idle

namespace Cut.Closes

/-- The second part reads nothing. -/
theorem idle {p p' : Parser α} {q : α → Parser β} (hp : c.Closes (p s) (p' t))
    (hq : ∀ a, c.Idle (q a)) : c.Closes ((p >>= q) s) ((p' >>= q) t) := by
  refine hp.tail (fun hok hs' => ?_) fun a s t h => ?_
  · rwa [State.Clean, ← (hq _).findings hok]
  · exact ((hq a).near h).mono (fun _ _ => trivial) fun _ _ h => h

/-! ## Blocks

Only blocks go over the cut. All that stands in front of a block or within it is read in front of
the cut, and behind a block nothing more is read. -/

section

variable {inner : Parser (List Statement)}
  (hinner : ∀ ⦃s t⦄, c.Near s t → c.Closes (inner s) (inner t))
include hinner

theorem block (h : c.Fits s t) : c.Closes (Parser.block inner s) (Parser.block inner t) := by
  refine .bind (Blind.expect rfl _ h) fun opening s t h => ?_
  refine .bind (Blind.update (Late.pushScope .block).toQuiet h) fun _ s t h => ?_
  refine idle (hinner (.inl h)) ?_
  intro _
  refine .bind (.update .popScope) ?_
  intro _
  exact .bind (.locate opening) fun _ => .pure _

theorem namedBlock (name : Token) (h : c.Fits s t) :
    c.Closes (Parser.namedBlock inner name s) (Parser.namedBlock inner name t) := by
  rw [Parser.namedBlock, get_bind, get_bind, h.inFunction]
  refine .bind (Blind.onlyIf _ (Blind.complain rfl name) h) fun _ s t h => ?_
  apply idle (block hinner h)
  intro _
  refine .bind (.locate name) ?_
  intro _
  exact .pure _

/-- A binding or a block that starts with a name, with a sign behind it. -/
theorem nameBinding (h : c.Fits s t) (hstarts : startsBinding s = true) :
    c.Closes (Parser.nameBinding inner s) (Parser.nameBinding inner t) := by
  have hname := State.current_of_startsBinding hstarts
  have hsign : endsBlock s.advance.current.kind = false := by
    rcases State.sign_of_startsBinding hstarts with hk | hk | hk <;> rw [hk] <;> rfl
  have hk : endsBlock s.current.kind = false := by rw [hname]; rfl
  have h1 := h.advance hk
  have h2 := h1.advance hsign
  rw [Parser.nameBinding, take_bind, take_bind, take_bind, take_bind, h.current_eq hk,
    h1.current_eq hsign]
  generalize s.advance.current.kind = sign
  split
  · exact Goes.closes (Blind.define s.current .mutable h2)
  · exact Goes.closes (Blind.define s.current .constant h2)
  · rw [current_bind, current_bind]
    -- a brace behind the colon opens a named block; at the cut there is none in either run
    by_cases hbrace : s.advance.advance.current.kind = .mark .leftBrace
    · have hsame := h2.current_eq (by rw [hbrace]; rfl)
      rw [hsame, if_pos hbrace]
      exact namedBlock hinner _ h2
    · have hbrace' : t.advance.advance.current.kind ≠ .mark .leftBrace := by
        rcases h2.current with hsame | ⟨-, hend⟩
        · rwa [hsame]
        · rw [hend]
          simp
      rw [if_neg hbrace, if_neg hbrace']
      exact Goes.closes (Blind.typed s.current h2)

theorem statement (h : c.Fits s t) (hk : endsBlock s.current.kind = false) :
    c.Closes (Parser.statement inner s) (Parser.statement inner t) := by
  have hstarts : startsBinding t = startsBinding s := h.startsBinding_eq hk
  rw [Parser.statement, get_bind, get_bind, h.current_eq hk, hstarts]
  generalize hkind : s.current.kind = k at hk
  split
  · exact .map (Goes.closes (Blind.keywordBinding h (hkind ▸ hk)))
  · exact .map (Goes.closes (Blind.keywordBinding h (hkind ▸ hk)))
  · exact .map (Goes.closes (Blind.keywordBinding h (hkind ▸ hk)))
  · exact .map (Goes.closes (Blind.returnStatement h (hkind ▸ hk)))
  · exact idle (block hinner h) fun _ => .pure _
  · have hnext := h.advance (hkind ▸ hk)
    intro node s' hok _
    cases hok
    exact ⟨t.advance, rfl, .inl hnext⟩
  · exact .fail _
  · exact .fail _
  · exact .fail _
  · exact .fail _
  · split
    · next hstarts => exact .map (nameBinding hinner h hstarts)
    · refine .bind (Blind.expression h) fun e s t h => ?_
      exact idle (Goes.closes (Blind.expect rfl _ h)) fun _ => .pure _

end

/-- The statements of a block and its closing brace, or the end of the file where the brace is
missing. The loop may begin behind the cut, as it does behind an inner block. -/
theorem statementsWithin (fuel : Nat) :
    ∀ ⦃s t⦄, c.Near s t →
      c.Closes (Parser.statementsWithin fuel s) (Parser.statementsWithin fuel t) := by
  induction fuel with
  | zero =>
      intro s t h nodes s' hok hclean
      cases hok
      exact ⟨t.closeBlock, rfl, h.closeBlock hclean⟩
  | succ fuel ih =>
      intro s t h nodes s'' hok hclean
      have hregular := Regular.statementsWithin fuel
      rcases statementsWithin_cases hok with
        ⟨he, rfl, rfl⟩ | ⟨he, node, rest, s1, hs1, hrest, rfl⟩ | ⟨he, failure, s1, hs1, hrest⟩
      · -- the first run is at a closing brace, and the second one at the same or at the end
        have het : t.endsBlock := by
          rcases h with h | ⟨m, h⟩
          · rcases h.current with hsame | ⟨-, hend⟩
            · rwa [State.endsBlock, hsame]
            · exact .inr hend
          · exact .inr h.current
        exact ⟨t.closeBlock, statementsWithin_end het, h.closeBlock hclean⟩
      · have h := h.fits he
        have hk := endsBlock_eq_false he
        obtain ⟨t1, ht1, h1⟩ :=
          statement ih h.exitPanic hk node s1 hs1 ((hregular.ok hrest).clean hclean)
        obtain ⟨t2, ht2, h2⟩ := ih h1 rest s'' hrest hclean
        have het : ¬ t.endsBlock := by rwa [State.endsBlock, h.current_eq hk]
        exact ⟨t2, statementsWithin_ok het ht1 ht2, h2⟩
      · -- a statement that fails leaves a grammatical finding
        have h := h.fits he
        obtain ⟨hm, hard⟩ := (Regular.statement hregular).error hs1
        exact absurd ((hregular.ok hrest).clean hclean)
          ((hm.sober h.exitPanic.sober).not_clean_fail hard)

theorem statements ⦃s t : State⦄ (h : c.Near s t) :
    c.Closes (Parser.statements s) (Parser.statements t) := by
  have ht : Parser.statements t = Parser.statementsWithin (s.unread.length + 1) t :=
    (statementsWithin_eq h.right (Nat.lt_succ_of_le h.length_le)).symm
  rw [ht]
  exact statementsWithin _ h

/-! ## Declarations

At file scope the cut can only be behind a function, whose body has been closed by the braces that are
cut off. The extern function is the exception that it was for the heads: the next token must not be a
brace, which at file scope it never is in a file without findings. -/

theorem functionBody (h : c.Fits s t) :
    c.Closes (Parser.functionBody s) (Parser.functionBody t) := by
  refine .bind (Blind.expect rfl _ h) fun opening s t h => ?_
  refine idle (statements (.inl h)) ?_
  intro _
  refine .bind (.locate opening) ?_
  intro _
  exact .pure _

theorem withinFunction {body : Parser α} (params : List Param)
    (hbody : ∀ ⦃s t⦄, c.Fits s t → c.Closes (body s) (body t)) (h : c.Fits s t) :
    c.Closes (Parser.withinFunction params body s) (Parser.withinFunction params body t) := by
  have henter : Quiet fun s => s.enterFunction params :=
    ⟨fun _ _ _ => rfl, fun _ => .of_findings rfl rfl⟩
  intro a s' hok hclean
  rw [Parser.withinFunction] at hok
  split at hok
  · next value s1 hs1 =>
    cases hok
    obtain ⟨t1, ht1, h1⟩ := hbody (h.update henter) a s1 hs1 hclean
    refine ⟨t1.leaveFunction t.inFunction, by rw [Parser.withinFunction, ht1], ?_⟩
    rw [h.inFunction]
    exact h1.update (.leaveFunction s.inFunction)
  · cases hok

theorem function (h : c.Fits s t) (hk : endsBlock s.current.kind = false) :
    c.Closes (Parser.function s) (Parser.function t) := by
  refine .bind (Blind.prototype (P := fun _ => True) (fun _ _ => nofun) h hk) fun head s t h => ?_
  exact idle (withinFunction head.params (fun _ _ => functionBody) h) fun _ => .pure _

end Cut.Closes

namespace Cut

theorem Goes.clear {p p' : Parser α} (h : c.Goes (p s) (p' t)) :
    Repeats (fun s => s.Clean ∧ s.NoBrace) c.Near (p s) (p' t) :=
  h.mono (fun _ _ => trivial) fun _ _ => .inl

theorem externFunction (h : c.Fits s t) (hk : endsBlock s.current.kind = false) :
    Repeats State.NoBrace c.Fits (Parser.externFunction s) (Parser.externFunction t) := by
  have h1 := h.advance hk
  rw [Parser.externFunction, take_bind, take_bind, current_bind, current_bind, h.current_eq hk]
  by_cases hfn : s.advance.current.kind = .word .fnWord
  · have hk1 : endsBlock s.advance.current.kind = false := by rw [hfn]; rfl
    rw [h1.current_eq hk1, if_pos hfn]
    refine .tail (Blind.prototype (fun _ hP _ => hP) h1 hk1) (fun hok hs' => ?_) ?_
    · -- behind the head stands the semicolon, or the token that follows the declaration
      obtain ⟨b, s1, hs1, hok⟩ := bind_eq_ok.mp hok
      cases hok
      rcases accept_eq_ok.mp hs1 with ⟨-, hsemicolon, -⟩ | ⟨-, -, rfl⟩
      · rw [State.NoBrace, hsemicolon]
        simp
      · exact hs'
    · intro head s t h
      have hfinish : c.Blind (do
          let _ ← Parser.accept (.mark .semicolon)
          return Declaration.externFunction head) :=
        Blind.bind (Blind.accept rfl) fun _ => Blind.pure _
      exact (hfinish h).mono (fun _ _ => trivial) fun _ _ h => h
  · rw [if_neg hfn]
    exact .failExpecting _

theorem namespaceLine (h : c.Fits s t) (hk : endsBlock s.current.kind = false) :
    c.Goes (Parser.namespaceLine s) (Parser.namespaceLine t) := by
  rw [Parser.namespaceLine, take_bind, take_bind, h.current_eq hk]
  refine .bind (Blind.expect rfl _ (h.advance hk)) fun name s t h => ?_
  refine .bind (Blind.accept rfl h) fun _ s t h => ?_
  rw [get_bind, get_bind, h.namespaceLine]
  cases s.namespaceLine with
  | some line => exact Blind.bind (Blind.complain rfl name) (fun _ => Blind.pure none) h
  | none =>
      refine Blind.bind (Blind.update (Late.setNamespace _).toQuiet) ?_ h
      intro _
      refine Blind.bind (Blind.locate _) ?_
      intro _
      exact Blind.pure _

/-- A declaration up to the cut or beyond it. -/
theorem declaration (h : c.Fits s t) (hk : endsBlock s.current.kind = false) :
    Repeats (fun s => s.Clean ∧ s.NoBrace) c.Near (Parser.declaration s)
      (Parser.declaration t) := by
  have hstarts : startsBinding t = startsBinding s := h.startsBinding_eq hk
  rw [Parser.declaration, get_bind, get_bind, h.current_eq hk, hstarts]
  generalize hkind : s.current.kind = k at hk
  split
  · exact Goes.clear (namespaceLine h (hkind ▸ hk))
  · exact .map (.mono (Closes.function h (hkind ▸ hk)) (fun _ h => h.1) fun _ _ h => h)
  · exact .map (.mono (Closes.function h (hkind ▸ hk)) (fun _ h => h.1) fun _ _ h => h)
  · exact .map (.mono (externFunction h (hkind ▸ hk)) (fun _ h => h.2) fun _ _ => .inl)
  · exact .map (Goes.clear (Blind.keywordBinding h (hkind ▸ hk)))
  · exact .map (Goes.clear (Blind.keywordBinding h (hkind ▸ hk)))
  · exact .map (Goes.clear (Blind.keywordBinding h (hkind ▸ hk)))
  · exact .map (Goes.clear (Blind.returnStatement h (hkind ▸ hk)))
  · split
    · next hstarts =>
      refine .map (.mono ?_ (fun _ h => h.1) fun _ _ h => h)
      exact Closes.nameBinding Closes.statements h hstarts
    · exact .failExpecting _

end Cut

/-! ## Files -/

/-- A failure at file scope is a grammatical finding. -/
theorem State.Sober.fileRound_ok (hs : s.Sober) (hclean : s.fileRound.2.Clean) :
    Parser.declaration s.exitPanic = .ok s.fileRound.1 s.fileRound.2 := by
  cases hd : Parser.declaration s.exitPanic with
  | ok node next => rw [State.fileRound_ok hd]
  | error failure next =>
      obtain ⟨hm, hard⟩ := Regular.declaration.error hd
      have hexit := (Change.exitPanic s).sober hs
      rw [State.fileRound_error hd] at hclean
      exact absurd hclean ((hm.sober hexit).not_clean_fail hard)

/-- A file without a grammatical finding does not go on with a closing brace. -/
theorem State.Sober.noBrace (hs : s.Sober) (hclean : s.run.2.Clean) : s.NoBrace := by
  intro hbrace
  have hend : s.HasEnd := hs.lexed.finish
  have hexit : s.exitPanic.current.kind = .mark .rightBrace := hbrace
  have hnone : startsBinding s.exitPanic = false := by
    rw [startsBinding, hexit]
    rfl
  rw [hend.run_eq, if_neg (by rw [hbrace]; simp)] at hclean
  have hok := hs.fileRound_ok ((moves_run _).clean hclean)
  rw [Parser.declaration, get_bind, hexit, hnone] at hok
  exact failExpecting_ne_ok hok

namespace Cut

theorem Fits.fileRound (h : c.Fits s t) (hk : endsBlock s.current.kind = false)
    (hclean : s.fileRound.2.Clean) (hbrace : s.fileRound.2.NoBrace) :
    ∃ t', t.fileRound = (s.fileRound.1, t') ∧ c.Near s.fileRound.2 t' := by
  have hok := h.sober.fileRound_ok hclean
  obtain ⟨t', ht', h'⟩ := declaration h.exitPanic hk _ _ hok ⟨hclean, hbrace⟩
  exact ⟨t', State.fileRound_ok ht', h'⟩

/-- In front of the cut at least the braces that are cut off are left to read. -/
theorem Fits.not_endsBlock (h : c.Fits s t) (hbrace : s.NoBrace) : ¬ s.endsBlock := by
  obtain ⟨w, hs, -⟩ := h.tokens
  obtain ⟨x, rest, hx⟩ : ∃ x rest, s.unread = x :: rest :=
    List.exists_cons_of_ne_nil (by simp [hs, c.nonempty])
  have hcurrent : s.current = x := by rw [State.current, hx]; rfl
  rintro (hk | hk)
  · exact hbrace hk
  · exact h.sober.lexed.inner x (hx ▸ List.mem_cons_self) (hcurrent ▸ hk)

/-- A file that has nothing but closing braces left is at its end. -/
theorem Short.eq_length (h : c.Short m s t) (hbrace : s.NoBrace) :
    s.unread = [] ∧ m = c.closers.length := by
  have hnil : s.unread = [] := by
    cases hunread : s.unread with
    | nil => rfl
    | cons x rest =>
        refine absurd (c.closing x (List.mem_of_mem_drop (i := m) ?_)) ?_
        · rw [← h.unread, hunread]
          exact List.mem_cons_self
        · rw [State.NoBrace, State.current, hunread] at hbrace
          exact hbrace
  have hle := List.drop_eq_nil_iff.mp (h.unread.symm.trans hnil)
  exact ⟨hnil, Nat.le_antisymm h.le hle⟩

/-- A file that is read without a grammatical finding leaves the same trees if its last closing
braces are cut off, and one finding for each of them. -/
theorem Near.run (h : c.Near s t) (hclean : s.run.2.Clean) :
    ∃ t', t.run = (s.run.1, t') ∧ c.Short c.closers.length s.run.2 t' := by
  induction hn : s.unread.length using Nat.strongRecOn generalizing s t with
  | _ n ih =>
      rcases h with h | ⟨m, h⟩
      · have hk := endsBlock_eq_false (h.not_endsBlock (h.sober.noBrace hclean))
        have hend : s.current.kind ≠ .endOfFile := fun he => by
          rw [he] at hk
          cases hk
        rw [h.left.run_eq, if_neg hend] at hclean ⊢
        have hnext := (moves_fileRound s).sober h.sober
        obtain ⟨t1, ht1, h1⟩ := h.fileRound hk ((moves_run _).clean hclean) (hnext.noBrace hclean)
        obtain ⟨t', ht', h'⟩ := ih _ (hn ▸ h.left.fileRound_lt hend) h1 hclean rfl
        refine ⟨t', ?_, h'⟩
        rw [h.right.run_eq, if_neg (h.current_eq hk ▸ hend), ht1, ht']
      · have hs : s.HasEnd := h.sober.lexed.finish
        obtain ⟨hnil, hm⟩ := h.eq_length (h.sober.noBrace hclean)
        have ht : t.HasEnd := by rw [h.eq]; exact c.ends
        refine ⟨t, ?_, ?_⟩
        · rw [ht.run_end h.current, hs.run_of_nil hnil]
        · rw [hs.run_of_nil hnil, ← hm]
          exact h

end Cut

end Grammar

end FrontEnd
