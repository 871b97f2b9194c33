import FrontEnd.Proofs.Parsing.Alongside
import FrontEnd.Proofs.Parsing.Entered
import FrontEnd.Proofs.Parsing.Past

set_option autoImplicit false

/-! # Reading on behind a file

A file that is read without a grammatical finding, up to a token that ends a statement, is read in the
same way if more tokens stand behind that token: the same declarations come out, and the states are
alike up to the last token and related by `Past` behind it (`Near`). One lemma for each parser whose
phrase may end in such a token, in the order of the grammar (`Keeps`). The last steps of these parsers
read nothing more (`Tail`).

That nothing grammatical is found is a fact about the end of the first run, and the findings of a
run only grow. So it holds of every state on the way, and no parser on the way has failed, since a
failure is either passed on to the end or reported as a grammatical finding (`Moves.recover_ne`).
Once the last token is taken the first run is at the end of its file and the second one is not; from
there on nothing may look at a token.
-/

namespace FrontEnd.Grammar

open FrontEnd.Grammar.Parser

variable {α β : Type} {c : Twins} {s t s' : State}

/-! ## No failure goes unseen

A run that ends with as many grammatical findings as it started with has never failed: recovery does
not take back what was reported, and nothing is silent before the first failure. -/

theorem Moves.grammatical_prefix (h : Moves s s') : s.grammatical <+: s'.grammatical :=
  h.findings_prefix.filter _

/-- What is as at the end was so in between: if a run has found nothing grammatical then neither has
its first part. -/
theorem Moves.grammatical_eq {s'' : State} (h : Moves s s') (h' : Moves s' s'')
    (heq : s''.grammatical = s.grammatical) : s'.grammatical = s.grammatical := by
  have hearly := h'.grammatical_prefix
  rw [heq] at hearly
  exact (h.grammatical_prefix.eq_of_length_le hearly.length_le).symm

theorem State.report_grammatical_hard {f : Finding} (hard : f.issue.isGrammatical = true)
    (hp : s.panic = false) : (s.report f).grammatical = s.grammatical ++ [f] := by
  rw [grammatical, report_findings, hp, grammatical]
  simp [hard]

/-- Among valid tokens a panic starts with a grammatical finding. An invalid token starts one too,
with a finding that is not grammatical, so such tokens are excluded. -/
theorem Moves.calm (h : Moves s s') (hvalid : ∀ x ∈ s.unread, x.kind ≠ .invalid)
    (hp : s.panic = false) (heq : s'.grammatical = s.grammatical) : s'.panic = false := by
  -- by induction on the changes: no panic as long as the grammatical findings are the same
  have hkept : (∀ x ∈ s'.unread, x.kind ≠ .invalid) ∧ s.grammatical <+: s'.grammatical ∧
      (s'.grammatical = s.grammatical → s'.panic = false) := by
    refine h.keeps (P := fun u => (∀ x ∈ u.unread, x.kind ≠ .invalid) ∧
      s.grammatical <+: u.grammatical ∧ (u.grammatical = s.grammatical → u.panic = false))
      (fun u u' hc hu => ?_) ⟨hvalid, List.prefix_rfl, fun _ => hp⟩
    obtain ⟨hvalid, hearly, hcalm⟩ := hu
    have hc' := Moves.of_change hc
    refine ⟨fun x hx => hvalid x (hc.unread_suffix.subset hx),
      hearly.trans hc'.grammatical_prefix, fun heq => ?_⟩
    have hlength := congrArg List.length heq
    have hu : u.grammatical = s.grammatical :=
      (hearly.eq_of_length_le (hlength ▸ hc'.grammatical_prefix.length_le)).symm
    have hpanic := hcalm hu
    cases hc with
    | complain f soft => exact (u.report_panic f).trans hpanic
    | advance =>
        rw [State.advance, State.settle_valid]
        · exact hpanic
        · exact fun x hx => hvalid x (List.mem_of_mem_tail (List.mem_of_mem_head? hx))
    | exitPanic => rfl
    | fail f hard =>
        have hmore : (u.report f).enterPanic.grammatical = u.grammatical ++ [f] :=
          State.report_grammatical_hard hard hpanic
        rw [hmore, hu, List.length_append] at hlength
        simp at hlength
    | setScopes | setInFunction | setEntryPoint | setNamespace | skip => exact hpanic
  exact hkept.2.2 heq

/-- A failure among valid tokens is a grammatical finding. -/
theorem Moves.recover_ne (h : Moves s s') (hvalid : ∀ x ∈ s.unread, x.kind ≠ .invalid)
    (hp : s.panic = false) {failure : Finding} (hard : failure.issue.isGrammatical = true)
    (before : Nat) : (s'.recover failure before).grammatical ≠ s.grammatical := by
  intro heq
  have hrecover := Regular.recover hard s' before
  have hs' := h.grammatical_eq hrecover heq
  have hmore : (s'.recover failure before).grammatical = s'.grammatical ++ [failure] :=
    State.report_grammatical_hard hard (h.calm hvalid hp hs')
  rw [heq, hs'] at hmore
  simpa using congrArg List.length hmore

/-- A closing brace that is missing is a grammatical finding. -/
theorem State.closeBlock_ne (hk : s.current.kind ≠ .mark .rightBrace) :
    s.closeBlock.grammatical ≠ s.grammatical := by
  have hmissing : s.closeBlock.grammatical = s.grammatical ++
      [s.finding (.expected (.token (.mark .rightBrace) .behindBlock) s.current) s.current] := by
    rw [closeBlock]
    dsimp only
    rw [if_neg (show s.exitPanic.current.kind ≠ .mark .rightBrace from hk)]
    exact State.report_grammatical_hard (s := s.exitPanic) rfl rfl
  intro heq
  rw [heq] at hmissing
  simpa using congrArg List.length hmissing

theorem State.HasEnd.current_of_nil (h : s.HasEnd) (hnil : s.unread = []) :
    s.current.kind = .endOfFile := by
  rw [State.current, hnil]
  exact h

theorem State.HasEnd.run_of_nil (h : s.HasEnd) (hnil : s.unread = []) : s.run = ([], s) :=
  h.run_end (h.current_of_nil hnil)

/-- A file of one declaration, or of none that can be read. -/
theorem State.HasEnd.run_single (h : s.HasEnd) (hk : s.current.kind ≠ .endOfFile)
    {node : Option Declaration} (hround : s.fileRound = (node, s')) (hnil : s'.unread = []) :
    s.run = (node.toList, s') := by
  have hnext := h.moves (moves_fileRound s)
  rw [hround] at hnext
  rw [h.run_eq, if_neg hk, hround]
  dsimp only
  rw [hnext.run_of_nil hnil, List.append_nil]

/-- At the end of the tokens the closing brace of a block is missing. -/
theorem State.HasEnd.statementsWithin_ne (h : s.HasEnd) (hnil : s.unread = []) {fuel : Nat}
    {nodes : List Statement} (hs : statementsWithin fuel s = .ok nodes s') :
    s'.grammatical ≠ s.grammatical := by
  have hk := h.current_of_nil hnil
  have hclose : s' = s.closeBlock := by
    cases fuel with
    | zero => cases hs; rfl
    | succ fuel => rw [statementsWithin_end (.inr hk)] at hs; cases hs; rfl
  rw [hclose]
  exact State.closeBlock_ne (by rw [hk]; simp)

/-! ## The last token and what is behind it

Only the last token may be taken while more follows in the other file. From then on the first run is
at its end, and the second one has not looked further than the next token. -/

/-- The two runs stand before the same tokens up to the last one of the first run, or behind it.
Behind it only parsers run that read nothing. -/
def Near (c : Twins) (s t : State) : Prop := Alike c s t ∨ Past c s t

namespace Near

theorem frame (hc : c.Whole) (h : Near c s t) : SameFrame s t := by
  rcases h with h | h
  · exact .of_withTokens (h.agrees hc.same)
  · exact h.frame

theorem update {f : State → State} (h : Near c s t) (hf : Late f) : Near c (f s) (f t) :=
  h.imp (fun h => h.update hf.toQuiet hf.toQuiet fun _ => rfl) fun h => h.update hf

end Near

/-- Both runs move on, over the last token too. -/
theorem Alike.advance_near (hc : c.Whole) (h : Alike c s t) : Near c s.advance t.advance := by
  obtain ⟨w, hw, hs, ht⟩ := h.tokens
  cases w with
  | nil =>
      refine .inr (h.past hc ?_ ht)
      rw [hs, hc.first_eq, List.nil_append]
  | cons x w => exact .inl (h.advance_cons (fun y hy => hw y (List.mem_cons_of_mem x hy)) hs ht)

/-- Neither run is in panic so far. -/
theorem Alike.panic_eq (hc : c.Whole) (h : Alike c s t) : s.panic = false ∧ t.panic = false := by
  have ht : t.panic = false := h.calm.panic.trans hc.loud
  refine ⟨?_, ht⟩
  rw [h.agrees hc.same] at ht
  exact ht

theorem Alike.exitPanic_eq (hc : c.Whole) (h : Alike c s t) :
    s.exitPanic = s ∧ t.exitPanic = t := by
  obtain ⟨hs, ht⟩ := h.panic_eq hc
  constructor
  · rw [State.exitPanic, ← hs]
  · rw [State.exitPanic, ← ht]

theorem Alike.grammatical (hc : c.Whole) (h : Alike c s t) :
    s.grammatical = c.base.grammatical := by
  rw [← h.calm.grammatical, h.agrees hc.same]
  rfl

theorem Alike.valid (hc : c.Whole) (h : Alike c s t) : ∀ x ∈ s.unread, x.kind ≠ .invalid := by
  obtain ⟨w, hw, hs, -⟩ := h.tokens
  rw [hs, hc.first_eq]
  intro x hx
  rcases List.mem_append.mp hx with hx | hx
  · exact hw x hx
  · rw [List.mem_singleton.mp hx]
    exact isTerminator_ne_invalid c.ends

/-- A binding starts in both runs, or in none. -/
theorem Alike.startsBinding_eq (h : Alike c s t) : startsBinding t = startsBinding s := by
  rw [startsBinding, startsBinding, h.current]
  by_cases hk : s.current.kind = .identifier
  · rw [h.lookahead (by rw [hk]; rfl)]
  · rw [decide_eq_false hk, Bool.false_and, Bool.false_and]

/-- Both runs move on over the name and the sign with which a binding starts. -/
theorem Alike.advance_binding (h : Alike c s t) (hstarts : startsBinding s = true) :
    Alike c s.advance t.advance ∧ Alike c s.advance.advance t.advance.advance := by
  have hname := State.current_of_startsBinding hstarts
  have hsign := State.sign_of_startsBinding hstarts
  have h1 := h.advance (by rw [hname]; rfl)
  exact ⟨h1, h1.advance (by rcases hsign with hk | hk | hk <;> rw [hk] <;> rfl)⟩

/-! ## Parsers

A parser of `Keeps` may take the last token, and must be the last one that looks at tokens. In front
of it stand parsers that stop before a token which ends no statement (`Along`), behind it those that
look at no token (`Tail`). -/

/-- If the first run has succeeded without a grammatical finding, so has the second one. -/
def Kept (c : Twins) (x y : EStateM.Result Finding State α) : Prop :=
  ∀ a s', x = .ok a s' → s'.grammatical = c.base.grammatical → ∃ t', y = .ok a t' ∧ Near c s' t'

/-- Whatever the first run reads, the second one reads too. -/
def Keeps (c : Twins) (p : Parser α) : Prop := ∀ ⦃s t⦄, Alike c s t → Kept c (p s) (p t)

/-- The parser reads nothing, so it may run behind the last token. -/
structure Tail (c : Twins) (p : Parser α) : Prop where
  grammatical : ∀ {s a s'}, p s = .ok a s' → s'.grammatical = s.grammatical
  near : ∀ {s t}, Near c s t → ∃ a s' t', p s = .ok a s' ∧ p t = .ok a t' ∧ Near c s' t'

namespace Tail

theorem pure (a : α) : Tail c (Pure.pure a) where
  grammatical h := by cases h; rfl
  near {s t} h := ⟨a, s, t, rfl, rfl, h⟩

theorem bind {p : Parser α} {q : α → Parser β} (hp : Tail c p) (hq : ∀ a, Tail c (q a)) :
    Tail c (p >>= q) where
  grammatical h := by
    obtain ⟨a, s1, hs, h⟩ := bind_eq_ok.mp h
    exact ((hq a).grammatical h).trans (hp.grammatical hs)
  near h := by
    obtain ⟨a, s1, t1, hs, ht, h1⟩ := hp.near h
    rw [bind_of_ok hs, bind_of_ok ht]
    exact (hq a).near h1

theorem update {f : State → State} (hf : Late f) : Tail c (Parser.update f) where
  grammatical {s _ _} h := by cases h; exact (hf.calm s).grammatical
  near {s t} h := ⟨(), f s, f t, rfl, rfl, h.update hf⟩

theorem locate (hc : c.Whole) (x : Token) : Tail c (Parser.locate x) where
  grammatical h := by cases h; rfl
  near {s t} h := by
    have hlocate : t.locate x = s.locate x := by rw [State.locate, (h.frame hc).file]; rfl
    exact ⟨s.locate x, s, t, rfl, hlocate ▸ rfl, h⟩

theorem complainIf {issue : Issue} (hlate : issue.isLate = true) (x : Token) (condition : Bool) :
    Tail c (Parser.onlyIf condition (Parser.complain issue x)) where
  grammatical {s _ _} h := by
    rw [onlyIf_complain_eq] at h
    cases h
    exact ((Late.complainIf hlate x condition).calm s).grammatical
  near h :=
    ⟨_, _, _, onlyIf_complain_eq .., onlyIf_complain_eq ..,
      h.update (Late.complainIf hlate x condition)⟩

/-- What follows depends on the namespace of the file, and on nothing else in the state. -/
theorem byNamespace (hc : c.Whole) {q : State → Parser α} (hq : ∀ s, Tail c (q s))
    (hsame : ∀ s t : State, t.namespaceLine = s.namespaceLine → q t = q s) :
    Tail c (get >>= q) where
  grammatical {s _ _} hs := (hq s).grammatical hs
  near {s t} hnear := by
    rw [get_bind, get_bind, hsame s t (hnear.frame hc).namespaceLine]
    exact (hq s).near hnear

theorem finishBinding (hc : c.Whole) (name : Token) (type : Option TypeExpr) (init : Option Expr)
    (mutability : Mutability) : Tail c (Parser.finishBinding name type init mutability) := by
  apply bind (locate hc name)
  intro _
  refine bind (update (Late.declare _ name)) ?_
  intro _
  exact pure _

end Tail

/-- The second part is read if the first one is the same in both runs. -/
theorem Kept.bind (hc : c.Whole) {p : Parser α} {q : α → Parser β} (h : Match c (p s) (p t))
    (hq : ∀ a, Keeps c (q a)) : Kept c ((p >>= q) s) ((p >>= q) t) := by
  intro b s' hs heq
  obtain ⟨a, s1, hs1, hs⟩ := bind_eq_ok.mp hs
  cases ht1 : p t with
  | error g t1 => rw [hs1, ht1] at h; exact h.elim
  | ok a' t1 =>
      rw [hs1, ht1] at h
      obtain rfl := h.1 hc.same
      rw [bind_of_ok ht1]
      exact hq a' h.2 b s' hs heq

/-- The second part reads nothing more. -/
theorem Kept.tail {p : Parser α} {q : α → Parser β} (h : Kept c (p s) (p t))
    (hq : ∀ a, Tail c (q a)) : Kept c ((p >>= q) s) ((p >>= q) t) := by
  intro b s' hs heq
  obtain ⟨a, s1, hs1, hs⟩ := bind_eq_ok.mp hs
  have hcalm := (hq a).grammatical hs
  obtain ⟨t1, ht1, hnear⟩ := h a s1 hs1 (hcalm.symm.trans heq)
  obtain ⟨b', s2, t2, hs2, ht2, hnear⟩ := (hq a).near hnear
  rw [hs2] at hs
  cases hs
  exact ⟨t2, by rw [bind_of_ok ht1, ht2], hnear⟩

theorem Along.expectToken {kind : Kind} (hk : isTerminator kind = false) (place : Place) :
    Along c (Parser.expect kind place) (Parser.expect kind place) := by
  have h := Along.expect (c := c) hk place fun x => Along.pure (a := x) fun _ => rfl
  rwa [bind_pure] at h

namespace Keeps

theorem of_along (hc : c.Whole) {p : Parser α} (h : Along c p p) : Keeps c p := by
  intro s t halike a s' hs _
  have hmatch := h halike
  rw [hs] at hmatch
  cases ht : p t with
  | error g t' => rw [ht] at hmatch; exact hmatch.elim
  | ok b t' =>
      rw [ht] at hmatch
      obtain rfl := hmatch.1 hc.same
      exact ⟨t', rfl, .inl hmatch.2⟩

theorem bind (hc : c.Whole) {p : Parser α} {q : α → Parser β} (hp : Along c p p)
    (hq : ∀ a, Keeps c (q a)) : Keeps c (p >>= q) := fun _ _ h => .bind hc (hp h) hq

theorem tail {p : Parser α} {q : α → Parser β} (hp : Keeps c p) (hq : ∀ a, Tail c (q a)) :
    Keeps c (p >>= q) := by
  intro _ _ h
  apply (hp h).tail
  intro _
  exact hq _

theorem advance (hc : c.Whole) : Keeps c Parser.advance := by
  intro s t h a s' hs _
  cases hs
  exact ⟨t.advance, rfl, h.advance_near hc⟩

theorem accept (hc : c.Whole) (kind : Kind) : Keeps c (Parser.accept kind) := by
  intro s t h b s' hs _
  rw [accept_eq] at hs
  rw [accept_eq, h.current]
  split at hs
  · next hk =>
    cases hs
    exact ⟨t.advance, if_pos hk, h.advance_near hc⟩
  · next hk =>
    cases hs
    exact ⟨t, if_neg hk, .inl h⟩

theorem expect (hc : c.Whole) (kind : Kind) (place : Place) : Keeps c (Parser.expect kind place) := by
  intro s t h x s' hs _
  obtain ⟨rfl, hk, rfl⟩ := expect_eq_ok.mp hs
  exact ⟨t.advance, h.current ▸ expect_of_kind place (h.current ▸ hk), h.advance_near hc⟩

/-! ## Statements

Each statement ends with a semicolon that may be missing, or with a brace. If this is the last token
of the file, then nothing is read behind it in either run. -/

theorem keywordBinding (hc : c.Whole) (h : Alike c s t) (hk : isTerminator s.current.kind = false) :
    Kept c (Parser.keywordBinding s) (Parser.keywordBinding t) := by
  rw [Parser.keywordBinding, take_bind, take_bind, h.current]
  refine bind hc (Along.expectToken rfl _) (fun name => ?_) (h.advance hk)
  apply bind hc Along.optionalType
  intro type
  apply bind hc Along.optionalInit
  intro init
  refine tail (accept hc _) ?_
  intro _
  refine .bind (.complainIf rfl name _) ?_
  intro _
  exact .finishBinding hc name type init _

theorem block (hc : c.Whole) {inner : Parser (List Statement)} (hinner : Keeps c inner) :
    Keeps c (Parser.block inner) := by
  refine bind hc (Along.expectToken rfl _) fun opening => ?_
  refine bind hc (Along.updateSelf (Late.pushScope .block).toQuiet) fun _ => ?_
  apply tail hinner
  intro _
  refine .bind (.update .popScope) ?_
  intro _
  exact .bind (.locate hc opening) fun _ => .pure _

theorem namedBlock (hc : c.Whole) {inner : Parser (List Statement)} (hinner : Keeps c inner)
    (name : Token) : Keeps c (Parser.namedBlock inner name) := by
  intro s t h
  rw [Parser.namedBlock, get_bind, get_bind, h.inFunction hc.same]
  refine bind hc (Along.complainIf rfl name fun _ => rfl) (fun _ => ?_) h
  apply tail (block hc hinner)
  intro _
  refine .bind (.locate hc name) ?_
  intro _
  exact .pure _

/-- A binding or a block that starts with a name, with a sign behind it. -/
theorem nameBinding (hc : c.Whole) {inner : Parser (List Statement)} (hinner : Keeps c inner)
    (h : Alike c s t) (hstarts : startsBinding s = true) :
    Kept c (Parser.nameBinding inner s) (Parser.nameBinding inner t) := by
  obtain ⟨h1, h2⟩ := h.advance_binding hstarts
  -- the semicolon is the last step of a binding
  have hsemicolon (node : Statement) : Keeps c (do
      let _ ← Parser.accept (.mark .semicolon)
      return node) := tail (accept hc _) fun _ => .pure node
  have hdefine (mutability : Mutability) : Keeps c (do
      let node ← Parser.finishBinding s.current none (some (← Parser.expression)) mutability
      let _ ← Parser.accept (.mark .semicolon)
      return node) :=
    bind hc Along.expression fun _ =>
      bind hc (Along.finishBinding s.current mutability (fun _ => rfl) fun _ => rfl) hsemicolon
  rw [Parser.nameBinding, take_bind, take_bind, take_bind, take_bind, h.current, h1.current]
  generalize s.advance.current.kind = sign
  split
  · exact hdefine .mutable h2
  · exact hdefine .constant h2
  · rw [current_bind, current_bind, h2.current]
    split
    · exact namedBlock hc hinner _ h2
    · refine bind hc (Along.typeExpr _) (fun type => ?_) h2
      refine bind hc Along.optionalInit fun init => ?_
      exact bind hc (Along.finishBinding _ _ (fun _ => rfl) fun _ => rfl) hsemicolon

theorem returnStatement (hc : c.Whole) (h : Alike c s t) (hk : isTerminator s.current.kind = false) :
    Kept c (Parser.returnStatement s) (Parser.returnStatement t) := by
  have h1 := h.advance hk
  rw [Parser.returnStatement, take_bind, take_bind, h.current, get_bind, get_bind,
    h1.inFunction hc.same]
  refine bind hc (Along.complainIf rfl _ fun _ => rfl) (fun _ => ?_) h1
  apply bind hc Along.returnValues
  intro values
  refine tail (accept hc _) ?_
  intro _
  exact .bind (.locate hc _) fun _ => .pure _

theorem statement (hc : c.Whole) {inner : Parser (List Statement)} (hinner : Keeps c inner) :
    Keeps c (Parser.statement inner) := by
  intro s t h
  -- whether a name is bound depends on the token behind it, which both runs see
  have hstarts : startsBinding t = startsBinding s := h.startsBinding_eq
  rw [Parser.statement, get_bind, get_bind, h.current]
  generalize hk : s.current.kind = k
  split
  · exact (keywordBinding hc h (by rw [hk]; rfl)).tail fun _ => .pure _
  · exact (keywordBinding hc h (by rw [hk]; rfl)).tail fun _ => .pure _
  · exact (keywordBinding hc h (by rw [hk]; rfl)).tail fun _ => .pure _
  · exact (returnStatement hc h (by rw [hk]; rfl)).tail fun _ => .pure _
  · exact tail (block hc hinner) (fun _ => .pure _) h
  · exact tail (advance hc) (fun _ => .pure _) h
  · exact of_along hc (Along.fail _) h
  · exact of_along hc (Along.fail _) h
  · exact of_along hc (Along.fail _) h
  · exact of_along hc (Along.fail _) h
  · rw [hstarts]
    split
    · next hstarts => exact (nameBinding hc hinner h hstarts).tail fun _ => .pure _
    · refine bind hc Along.expression ?_ h
      intro _
      refine tail (expect hc _ _) ?_
      intro _
      exact .pure _

/-! ## Sequences of statements

The last token of a file may be the brace of a block, but a block has no statement behind its brace.
So the statements in front of it are read before the last token. -/

theorem closeBlock (hc : c.Whole) : Keeps c Parser.closeBlock := by
  intro s t h a s' hs heq
  cases hs
  obtain ⟨hs, ht⟩ := h.exitPanic_eq hc
  by_cases hk : s.current.kind = .mark .rightBrace
  · have hs' : s.closeBlock = s.advance := by
      rw [State.closeBlock, hs]
      exact if_pos hk
    have ht' : t.closeBlock = t.advance := by
      rw [State.closeBlock, ht]
      exact if_pos (h.current ▸ hk)
    rw [hs']
    exact ⟨t.advance, by rw [← ht']; rfl, h.advance_near hc⟩
  · exact absurd (heq.trans (h.grammatical hc).symm) (State.closeBlock_ne hk)

theorem statementsWithin (hc : c.Whole) (fuel : Nat) : Keeps c (Parser.statementsWithin fuel) := by
  induction fuel with
  | zero => exact tail (closeBlock hc) fun _ => .pure _
  | succ fuel ih =>
      intro s t h nodes s'' hs heq
      obtain ⟨hexit, hexit'⟩ := h.exitPanic_eq hc
      have hsame : s''.grammatical = s.grammatical := heq.trans (h.grammatical hc).symm
      have hregular := Regular.statement (Regular.statementsWithin fuel)
      rcases statementsWithin_cases hs with
        ⟨he, rfl, rfl⟩ | ⟨he, node, rest, s1, hs1, hrest, rfl⟩ | ⟨he, failure, s1, hs1, hrest⟩
      · obtain ⟨t', ht, hnear⟩ := closeBlock hc h () s.closeBlock rfl heq
        cases ht
        have het : t.endsBlock := by rwa [State.endsBlock, h.current]
        exact ⟨t.closeBlock, statementsWithin_end het, hnear⟩
      · rw [hexit] at hs1
        have hm := hregular.ok hs1
        have hm' := (Regular.statementsWithin fuel).ok hrest
        have heq1 := (hm.grammatical_eq hm' hsame).trans (h.grammatical hc)
        obtain ⟨t1, ht1, hnear | hpast⟩ := statement hc ih h _ _ hs1 heq1
        · obtain ⟨t2, ht2, hnear⟩ := ih hnear _ _ hrest heq
          have het : ¬ t.endsBlock := by rwa [State.endsBlock, h.current]
          rw [← hexit'] at ht1
          exact ⟨t2, statementsWithin_ok het ht1 ht2, hnear⟩
        · -- the block is not closed at the last token
          exact absurd (heq.trans heq1.symm) (hpast.left.statementsWithin_ne hpast.done hrest)
      · rw [hexit] at hs1
        -- a statement that fails leaves a grammatical finding, which the file does not have
        obtain ⟨hm, hard⟩ := hregular.error hs1
        have hskip := hm.trans (Regular.recover hard s1 s.unread.length)
        have heq1 := hskip.grammatical_eq ((Regular.statementsWithin fuel).ok hrest) hsame
        exact absurd heq1 (hm.recover_ne (h.valid hc) (h.panic_eq hc).1 hard _)

theorem statements (hc : c.Whole) : Keeps c Parser.statements := by
  intro s t h
  have hs := statementsWithin_eq h.left (Nat.lt_succ_of_le (Nat.le_max_left _ t.unread.length))
  have ht := statementsWithin_eq h.right (Nat.lt_succ_of_le (Nat.le_max_right s.unread.length _))
  rw [← hs, ← ht]
  exact statementsWithin hc _ h

/-! ## Declarations

Declarations end as statements do, or with the body of a function. Only what they declare is done
behind their last token, and for this nothing is read. -/

theorem namespaceLine (hc : c.Whole) (h : Alike c s t) (hk : isTerminator s.current.kind = false) :
    Kept c (Parser.namespaceLine s) (Parser.namespaceLine t) := by
  rw [Parser.namespaceLine, take_bind, take_bind, h.current]
  refine bind hc (Along.expectToken rfl _) ?_ (h.advance hk)
  intro name
  refine tail (accept hc _) ?_
  intro _
  refine .byNamespace hc (fun u => ?_) fun u v huv => by rw [huv]
  split
  · exact .bind (.complainIf rfl name true) fun _ => .pure _
  · refine .bind (.update (.setNamespace (name.lexeme, s.current.position.line))) fun _ => ?_
    exact .bind (.locate hc _) fun _ => .pure _

theorem functionBody (hc : c.Whole) : Keeps c Parser.functionBody := by
  refine bind hc (Along.expectToken rfl _) ?_
  intro opening
  apply tail (statements hc)
  intro _
  refine .bind (.locate hc opening) ?_
  intro _
  exact .pure _

theorem withinFunction (hc : c.Whole) {body : Parser α} (hbody : Keeps c body)
    (params : List Param) : Keeps c (Parser.withinFunction params body) := by
  intro s t h a s' hs heq
  have henter : Quiet fun s => s.enterFunction params := 
    ⟨fun _ _ _ => rfl, fun _ => .of_findings rfl rfl⟩
  rw [Parser.withinFunction] at hs
  rw [Parser.withinFunction, h.inFunction hc.same]
  split at hs
  · next value next hvalue =>
    cases hs
    obtain ⟨next', hnext', hnear⟩ :=
      hbody (h.update henter henter fun _ => rfl) _ _ hvalue heq
    rw [hnext']
    exact ⟨next'.leaveFunction s.inFunction, rfl, hnear.update (.leaveFunction s.inFunction)⟩
  · cases hs

theorem function (hc : c.Whole) (h : Alike c s t) (hk : isTerminator s.current.kind = false) :
    Kept c (Parser.function s) (Parser.function t) := by
  refine .bind hc (Along.prototype false h hk) fun head => ?_
  exact tail (withinFunction hc (functionBody hc) _) fun _ => .pure _

theorem externFunction (hc : c.Whole) (h : Alike c s t) (hk : isTerminator s.current.kind = false) :
    Kept c (Parser.externFunction s) (Parser.externFunction t) := by
  have h1 := h.advance hk
  rw [Parser.externFunction, take_bind, take_bind, h.current, current_bind, current_bind, h1.current]
  split
  · next hfn =>
    refine .bind hc (Along.prototype true h1 (by rw [hfn]; rfl)) fun head => ?_
    exact tail (accept hc _) fun _ => .pure _
  · exact of_along hc (Along.failExpecting _) h1

theorem declaration (hc : c.Whole) : Keeps c Parser.declaration := by
  intro s t h
  have hstarts : startsBinding t = startsBinding s := h.startsBinding_eq
  rw [Parser.declaration, get_bind, get_bind, h.current]
  generalize hk : s.current.kind = k
  split
  · exact namespaceLine hc h (by rw [hk]; rfl)
  · exact (function hc h (by rw [hk]; rfl)).tail fun _ => .pure _
  · exact (function hc h (by rw [hk]; rfl)).tail fun _ => .pure _
  · exact (externFunction hc h (by rw [hk]; rfl)).tail fun _ => .pure _
  · exact (keywordBinding hc h (by rw [hk]; rfl)).tail fun _ => .pure _
  · exact (keywordBinding hc h (by rw [hk]; rfl)).tail fun _ => .pure _
  · exact (keywordBinding hc h (by rw [hk]; rfl)).tail fun _ => .pure _
  · exact (returnStatement hc h (by rw [hk]; rfl)).tail fun _ => .pure _
  · rw [hstarts]
    split
    · next hstarts => exact (nameBinding hc (statements hc) h hstarts).tail fun _ => .pure _
    · exact of_along hc (Along.failExpecting _) h

end Keeps

/-! ## Files

Round by round, until one of them takes the last token. The first run is over then, and the second
one goes on with what stands behind. -/

/-- A round that finds nothing grammatical reads the same declaration in both runs. -/
theorem Alike.fileRound (hc : c.Whole) (h : Alike c s t)
    (heq : s.fileRound.2.grammatical = s.grammatical) :
    ∃ t', t.fileRound = (s.fileRound.1, t') ∧ Near c s.fileRound.2 t' := by
  obtain ⟨hexit, hexit'⟩ := h.exitPanic_eq hc
  cases hread : declaration s.exitPanic with
  | ok node s1 =>
      rw [State.fileRound_ok hread] at heq ⊢
      rw [hexit] at hread
      obtain ⟨t1, ht1, hnear⟩ := Keeps.declaration hc h _ _ hread (heq.trans (h.grammatical hc))
      rw [← hexit'] at ht1
      exact ⟨t1, State.fileRound_ok ht1, hnear⟩
  | error failure s1 =>
      rw [State.fileRound_error hread] at heq
      rw [hexit] at hread
      obtain ⟨hm, hard⟩ := Regular.declaration.error hread
      exact absurd heq (hm.recover_ne (h.valid hc) (h.panic_eq hc).1 hard _)

/-- Two runs that are alike are alike from here on. The base is moved so that what the next round
finds is measured from its own start. -/
theorem Alike.rebase (hc : c.Whole) (h : Alike c s t) : Alike { c with base := s } s t where
  tokens := h.tokens
  left := h.left
  right := h.right
  agrees := h.agrees
  calm := by
    rw [h.agrees hc.same]
    exact .of_findings rfl rfl

/-- A file that is read without a grammatical finding is read in the same way if more tokens stand
behind its last one. Reading goes on behind that token, which is read in the last round. -/
theorem Alike.run_past (hc : c.Whole) (h : Alike c s t)
    (hinner : ∀ x ∈ s.unread, x.kind ≠ .endOfFile) (heq : s.run.2.grammatical = s.grammatical) :
    ∃ last u, s.Enters .file last ∧ last.fileRound.2 = s.run.2 ∧
      Past { c with base := last } s.run.2 u ∧ t.run = (s.run.1 ++ u.run.1, u.run.2) := by
  induction hn : s.unread.length using Nat.strongRecOn generalizing c s t with
  | _ n ih =>
      have hk : s.current.kind ≠ .endOfFile := by
        obtain ⟨w, -, hs, -⟩ := h.tokens
        obtain ⟨x, rest, hx⟩ := List.exists_cons_of_ne_nil (show s.unread ≠ [] by simp [hs])
        rw [State.current, hx]
        exact hinner x (hx ▸ List.mem_cons_self)
      have hrun := h.left.run_eq
      have hrun' := h.right.run_eq
      rw [if_neg hk] at hrun
      rw [h.current, if_neg hk] at hrun'
      have hmoves := moves_fileRound s
      have hlater := moves_run s.fileRound.2
      rw [hrun] at heq ⊢
      have heq1 := hmoves.grammatical_eq hlater heq
      have hbase : Twins.Whole { c with base := s } := ⟨hc.same, hc.first_eq, (h.panic_eq hc).1⟩
      -- a round ends in front of the last token or behind it; the one leaves more rounds
      obtain ⟨t1, ht1, hnear | hpast⟩ := (h.rebase hc).fileRound hbase heq1
      · have hlt := h.left.fileRound_lt hk
        have hinner1 : ∀ x ∈ s.fileRound.2.unread, x.kind ≠ .endOfFile :=
          fun x hx => hinner x (hmoves.unread_suffix.subset hx)
        obtain ⟨last, u, hlast, hround, hpast, hu⟩ :=
          ih _ (hn ▸ hlt) hbase hnear hinner1 (heq.trans heq1.symm) rfl
        refine ⟨last, u, .trans (.round .file hk) hlast, hround, hpast, ?_⟩
        rw [hrun', ht1, hu, List.append_assoc]
      · rw [hpast.left.run_of_nil hpast.done]
        refine ⟨s, t1, .file, rfl, hpast, ?_⟩
        rw [hrun', ht1, List.append_nil]

end FrontEnd.Grammar
