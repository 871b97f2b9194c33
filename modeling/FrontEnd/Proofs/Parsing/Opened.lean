import FrontEnd.Proofs.Parsing.Progress

set_option autoImplicit false

/-! # The block that a round opens

A statement opens at most one block, with or without a name; a declaration may open the body of a
function or a named block. The definitions here give the state in which the statements of that block
are read. They are read in no other one: two parsers of inner blocks that agree there make the same of
the statement around them (`statement_opened`).

This is what relates the two ways in which blocks within blocks are spoken of. The parsers are given
the parser of inner statements as an argument, and the states of a run are followed from a statement
to the block that it opens.
-/

namespace FrontEnd.Grammar

open FrontEnd.Grammar.Parser

variable {α β : Type} {s s' t : State}

namespace Parser

/-- Two sequences agree if their parts do, the second one on the states that the first one
reaches. -/
theorem bind_congr {p p' : Parser α} {q q' : α → Parser β} (hp : p' s = p s)
    (hq : ∀ a s', p s = .ok a s' → q' a s' = q a s') : (p' >>= q') s = (p >>= q) s := by
  change EStateM.bind p' q' s = EStateM.bind p q s
  unfold EStateM.bind
  rw [hp]
  cases h : p s with
  | ok a s' => exact hq a s' h
  | error f s' => rfl

/-- Two sequences with the same first part. -/
theorem bind_congr_right {p : Parser α} {q q' : α → Parser β}
    (hq : ∀ a s', p s = .ok a s' → q' a s' = q a s') : (p >>= q') s = (p >>= q) s :=
  bind_congr rfl hq

/-- Two sequences that go on in the same way. -/
theorem bind_congr_left {p p' : Parser α} {q : α → Parser β} (hp : p' s = p s) :
    (p' >>= q) s = (p >>= q) s :=
  bind_congr hp fun _ _ _ => rfl

theorem onlyIf_complain_eq (condition : Bool) (issue : Issue) (t : Token) (s : State) :
    onlyIf condition (complain issue t) s =
      .ok () (if condition then s.report (s.finding issue t) else s) := by
  cases condition <;> rfl

end Parser

/-! ## Where blocks are entered

A block is entered in few ways: by its brace, behind a label, or as the body of a function. The
state in it is known in each of them. -/

namespace State

/-- The state in the block whose brace is the current token. -/
def openBlock (s : State) : State := s.advance.pushScope .block

/-- The state behind the name and the colon of a named block. Outside a function such a block is
reported, and read all the same. -/
def behindLabel (s : State) : State :=
  let t := s.advance.advance
  if !t.inFunction then t.report (t.finding .namedBlockOutsideFunction s.current) else t

/-- The state in the named block that starts here. -/
def openNamed (s : State) : State := s.behindLabel.openBlock

/-- The state in the body of the function that starts here, if its head can be read and a brace
follows. -/
def openBody? (s : State) : Option State :=
  match prototype false s with
  | .ok head next =>
    let inner := next.enterFunction head.params
    if inner.current.kind = .mark .leftBrace then some inner.advance else none
  | .error _ _ => none

/-- A named block stands here: a name, a colon and a brace. A colon alone may also announce a type.
-/
def AtNamed (s : State) : Prop :=
  startsBinding s = true ∧ s.advance.current.kind = .mark .colon ∧
    s.advance.advance.current.kind = .mark .leftBrace

instance (s : State) : Decidable s.AtNamed := inferInstanceAs (Decidable (_ ∧ _ ∧ _))

/-- The state in the block that the declaration which starts here opens, if it opens one. -/
def openedAtFile? (s : State) : Option State :=
  match s.current.kind with
  | .word .fnWord | .word .mdWord => s.openBody?
  | _ => if s.AtNamed then some s.openNamed else none

/-- The state in the block that the statement which starts here opens, if it opens one. -/
def openedInBlock? (s : State) : Option State :=
  match s.current.kind with
  | .mark .leftBrace => some s.openBlock
  | _ => if s.AtNamed then some s.openNamed else none

/-- The next token, unless it is an invalid one. -/
theorem advance_current (h : s.lookahead.kind ≠ .invalid) : s.advance.current = s.lookahead := by
  rw [lookahead] at *
  rw [advance, current]
  cases htail : s.unread.tail with
  | nil => rfl
  | cons t rest =>
      rw [htail] at h
      rw [settle_valid (fun t' ht' => by cases ht'; exact h)]

/-- Behind the name of a binding stands one of three signs. -/
theorem sign_of_startsBinding (h : startsBinding s = true) :
    s.advance.current.kind = .mark .define ∨ s.advance.current.kind = .mark .defineConst ∨
      s.advance.current.kind = .mark .colon := by
  rw [startsBinding, Bool.and_eq_true] at h
  have hsign := h.2
  have hvalid : s.lookahead.kind ≠ .invalid := by
    intro hk
    rw [hk] at hsign
    cases hsign
  rw [advance_current hvalid]
  split at hsign
  · next hk => exact .inl hk
  · next hk => exact .inr (.inl hk)
  · next hk => exact .inr (.inr hk)
  · cases hsign

theorem report_current (s : State) (f : Finding) : (s.report f).current = s.current := by
  rw [current, current, report_unread, report_finish]

theorem behindLabel_current (s : State) : s.behindLabel.current = s.advance.advance.current := by
  unfold behindLabel
  dsimp only
  split
  · exact report_current _ _
  · rfl

theorem current_of_startsBinding (h : startsBinding s = true) : s.current.kind = .identifier := by
  rw [startsBinding, Bool.and_eq_true] at h
  exact of_decide_eq_true h.1

theorem moves_openBlock (s : State) : Moves s s.openBlock :=
  (Moves.of_change (.advance s)).tail (.setScopes _ _)

theorem moves_behindLabel (s : State) : Moves s s.behindLabel := by
  have hadvance : Moves s s.advance.advance := (Moves.of_change (.advance s)).tail (.advance _)
  unfold behindLabel
  dsimp only
  split
  · exact hadvance.tail (.complain _ _ rfl)
  · exact hadvance

theorem moves_openNamed (s : State) : Moves s s.openNamed :=
  (moves_behindLabel s).trans (moves_openBlock _)

theorem moves_enterFunction (s : State) (params : List Param) :
    Moves s (s.enterFunction params) :=
  (Moves.of_change (.setScopes s (declareParams params (s.scopes.push .function)))).tail
    (.setInFunction _ true)

theorem moves_openBody (h : s.openBody? = some t) : Moves s t := by
  rw [openBody?] at h
  split at h
  · next head next hhead =>
    dsimp only at h
    split at h
    · cases h
      have hprototype := (Regular.grammar.prototype false).ok hhead
      exact (hprototype.trans (moves_enterFunction ..)).tail (.advance _)
    · cases h
  · cases h

theorem moves_openedAtFile (h : s.openedAtFile? = some t) : Moves s t := by
  unfold openedAtFile? at h
  split at h
  · exact moves_openBody h
  · exact moves_openBody h
  · split at h
    · cases h
      exact moves_openNamed s
    · cases h

theorem moves_openedInBlock (h : s.openedInBlock? = some t) : Moves s t := by
  unfold openedInBlock? at h
  split at h
  · cases h
    exact moves_openBlock s
  · split at h
    · cases h
      exact moves_openNamed s
    · cases h

/-- A block that a statement opens has fewer tokens than the statement, since the brace was taken. An
induction on the number of tokens may therefore go into blocks. -/
theorem HasEnd.openedInBlock_lt (hs : s.HasEnd) (h : s.openedInBlock? = some t) :
    t.unread.length < s.unread.length := by
  have hbrace {u : State} (hm : Moves s u) (hk : u.current.kind = .mark .leftBrace) :
      u.openBlock.unread.length < s.unread.length := by
    have hlt := (hs.moves hm).advance_lt (by rw [hk]; simp)
    exact Nat.lt_of_lt_of_le hlt hm.length_le
  unfold openedInBlock? at h
  split at h
  · next hk =>
    cases h
    exact hbrace (.refl s) hk
  · split at h
    · next hnamed =>
      cases h
      exact hbrace (moves_behindLabel s) (by rw [behindLabel_current]; exact hnamed.2.2)
    · cases h

end State

/-! ## Statements are read nowhere else

If the parser of inner statements is exchanged for one that agrees with it in the block that is
entered, then nothing changes. So it is called there and nowhere else. -/

variable {inner inner' : Parser (List Statement)}

theorem block_opened
    (h : s.current.kind = .mark .leftBrace → inner' s.openBlock = inner s.openBlock) :
    block inner' s = block inner s := by
  rw [block, block]
  refine bind_congr_right fun opening s1 hopening => ?_
  obtain ⟨-, hk, rfl⟩ := expect_eq_ok.mp hopening
  rw [update_bind, update_bind]
  exact bind_congr_left (h hk)

theorem nameBinding_opened (hstarts : startsBinding s = true)
    (h : s.AtNamed → inner' s.openNamed = inner s.openNamed) :
    nameBinding inner' s = nameBinding inner s := by
  rw [nameBinding, nameBinding, take_bind, take_bind, take_bind, take_bind]
  have hsign := State.sign_of_startsBinding hstarts
  generalize hk : s.advance.current.kind = k at hsign
  split
  · rfl
  · rfl
  · next hdefine hconst =>
    obtain hk' | hk' | rfl := hsign
    · contradiction
    · contradiction
    · rw [current_bind, current_bind]
      split
      · next hbrace =>
        rw [namedBlock, namedBlock, get_bind, get_bind, bind_of_ok (onlyIf_complain_eq ..),
          bind_of_ok (onlyIf_complain_eq ..)]
        exact bind_congr_left (block_opened fun _ => h ⟨hstarts, hk, hbrace⟩)
      · rfl

/-- A statement reads an inner block in one state at most. -/
theorem statement_opened (h : ∀ t, s.openedInBlock? = some t → inner' t = inner t) :
    statement inner' s = statement inner s := by
  rw [statement, statement, get_bind, get_bind]
  generalize hkind : s.current.kind = kind
  split
  case h_5 =>
    refine bind_congr_left (block_opened fun _ => h _ ?_)
    unfold State.openedInBlock?
    rw [hkind]
  case h_11 =>
    split
    · next hstarts =>
      refine bind_congr_left (nameBinding_opened hstarts fun hnamed => h _ ?_)
      unfold State.openedInBlock?
      rw [State.current_of_startsBinding hstarts]
      exact if_pos hnamed
    · rfl
  all_goals rfl

end FrontEnd.Grammar
