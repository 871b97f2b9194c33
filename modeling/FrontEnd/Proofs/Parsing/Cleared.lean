import FrontEnd.Proofs.Parsing.Hidden
import FrontEnd.Proofs.Parsing.Past

set_option autoImplicit false

/-! # States without stray characters

A state is compared with the one that has no stray characters left to read (`Cleared`). Where no sign
behind a name is hidden the two find the same token and make the same decisions. They stay related
through all that a parser does to its state: both move on to the same token, and both recover from a
failure at the same place.

The first state passes the stray characters one by one, reports them and falls into panic, while the
second one has none to pass. So the relation leaves out findings, counters and panic. What decides
how reading goes on is the current token and, behind a name, the token after it; the rest of the
relation is there to say that these agree later on, too.
-/

namespace FrontEnd.Grammar

open FrontEnd.Grammar.Parser

theorem startsBinding_of_hidden {s : State} (h : Spot.statement.looksFor s.lookahead.kind = false) :
    startsBinding s = false := by
  rw [startsBinding, Bool.and_eq_false_iff]
  right
  generalize s.lookahead.kind = kind at h
  split
  · cases h
  · cases h
  · cases h
  · rfl

/-- The second state has no stray characters left to read, and is equal to the first one otherwise,
apart from what was found. In the first one no sign is hidden; the spot is that of its current
token. -/
structure Cleared (spot : Spot) (s t : State) : Prop where
  frame : SameFrame s t
  finish : t.finish = s.finish
  unread : t.unread = withoutStrays s.unread
  head : ∀ x ∈ s.unread.head?, x.kind ≠ .invalid
  shown : hidesSign spot s.unread = false
  left : s.HasEnd

namespace Cleared

variable {spot : Spot} {s t s' t' : State}

theorem right (h : Cleared spot s t) : t.HasEnd := by
  rw [State.HasEnd, h.finish]
  exact h.left

theorem length_le (h : Cleared spot s t) : t.unread.length ≤ s.unread.length := by
  rw [h.unread]
  exact List.length_filter_le _ _

/-! ## Spots

A spot says which names may come up, and so which signs are looked for. The signs behind the name
itself are seen at the spot behind it. -/

/-- Where a statement may start everything is looked for. -/
theorem of_statement (h : Cleared .statement s t) : Cleared spot s t :=
  { h with shown := hidesSign_statement h.shown }

theorem neither (h : Cleared spot s t) : Cleared .neither s t :=
  { h with shown := hidesSign_neither h.shown }

/-- A token that is no name starts nothing that is looked ahead for. -/
theorem of_ne {spot' : Spot} (h : Cleared spot s t) (hname : s.current.kind ≠ .identifier) :
    Cleared spot' s t where
  frame := h.frame
  finish := h.finish
  unread := h.unread
  head := h.head
  shown := by
    cases hs : s.unread with
    | nil => rfl
    | cons x rest =>
        have hshown := h.shown
        rw [hs] at hshown
        rw [State.current, hs, List.headD_cons] at hname
        exact hidesSign_of_ne hshown (h.head x (by rw [hs]; rfl)) hname
  left := h.left

/-! ## Decisions

The parsers look at the current token and, behind a name, at the next one. Both decisions are the
same in the two states. -/

/-- The current token is kept. -/
theorem unread_cons (h : Cleared spot s t) {x : Token} {rest : List Token}
    (hs : s.unread = x :: rest) : t.unread = x :: withoutStrays rest := by
  have hvalid := h.head x (by rw [hs]; rfl)
  rw [h.unread, hs, withoutStrays_cons_other (Token.not_isStray_of_valid hvalid)]

theorem current (h : Cleared spot s t) : t.current = s.current := by
  rw [State.current, State.current]
  cases hs : s.unread with
  | nil => rw [h.unread, hs, h.finish]; rfl
  | cons x rest => rw [h.unread_cons hs]; rfl

/-- Behind a name stands the same token in both states, or none that is looked for in either. In the
second case a stray character stands behind the name in the first state. -/
theorem lookahead (h : Cleared spot s t) (hname : s.current.kind = .identifier) :
    t.lookahead = s.lookahead ∨
      spot.looksFor t.lookahead.kind = false ∧ spot.looksFor s.lookahead.kind = false := by
  obtain ⟨x, rest, hs⟩ := List.exists_cons_of_ne_nil
    (h.left.unread_ne_nil (by rw [hname]; simp))
  rw [State.lookahead, State.lookahead, h.unread_cons hs, hs, h.finish, List.tail_cons,
    List.tail_cons]
  cases rest with
  | nil => exact .inl rfl
  | cons y rest =>
      cases hstray : y.isStray with
      | false =>
        exact .inl (by rw [withoutStrays_cons_other hstray, List.headD_cons, List.headD_cons])
      | true =>
          refine .inr ⟨?_, ?_⟩
          · -- the sign behind the stray character is none that is looked for, since nothing is
            -- hidden
            have hshown := h.shown
            rw [State.current, hs, List.headD_cons] at hname
            rw [hs, hidesSign, hname, List.head?_cons, Option.any_some, hstray] at hshown
            have hhidden := (Bool.or_eq_false_iff.mp hshown).1
            cases hhead : withoutStrays (y :: rest) with
            | nil => rw [List.headD_nil, h.left, Spot.looksFor_endOfFile]
            | cons z zs => rwa [hhead] at hhidden
          · rw [List.headD_cons, Token.kind_of_isStray hstray, Spot.looksFor_invalid]

theorem lookahead_iff (h : Cleared spot s t) (hname : s.current.kind = .identifier) {sign : Kind}
    (hsign : spot.looksFor sign = true) : t.lookahead.kind = sign ↔ s.lookahead.kind = sign := by
  rcases h.lookahead hname with heq | ⟨ht, hs⟩
  · rw [heq]
  · have hne {kind : Kind} (hkind : spot.looksFor kind = false) : kind ≠ sign := by
      rintro rfl
      rw [hsign] at hkind
      cases hkind
    exact iff_of_false (hne ht) (hne hs)

theorem startsBinding_eq (h : Cleared .statement s t) : startsBinding t = startsBinding s := by
  by_cases hname : s.current.kind = .identifier
  · rcases h.lookahead hname with heq | ⟨ht, hs⟩
    · rw [startsBinding, startsBinding, h.current, heq]
    · rw [startsBinding_of_hidden ht, startsBinding_of_hidden hs]
  · rw [startsBinding, startsBinding, h.current, decide_eq_false hname, Bool.false_and,
      Bool.false_and]

/-! ## Changes -/

/-- A change that does not look at the tokens. -/
theorem update (h : Cleared spot s t) (hframe : SameFrame s' t') (hs : s'.unread = s.unread)
    (ht : t'.unread = t.unread) (hs' : s'.finish = s.finish) (ht' : t'.finish = t.finish) :
    Cleared spot s' t' where
  frame := hframe
  finish := by rw [ht', hs', h.finish]
  unread := by rw [ht, hs, h.unread]
  head := by rw [hs]; exact h.head
  shown := by rw [hs]; exact h.shown
  left := by rw [State.HasEnd, hs']; exact h.left

theorem quiet (h : Cleared spot s t) {f : State → State} (hf : Quiet f)
    (hframe : SameFrame (f s) (f t)) : Cleared spot (f s) (f t) :=
  h.update hframe (hf.unread_eq s) (hf.unread_eq t) (hf.finish_eq s) (hf.finish_eq t)

theorem report (h : Cleared spot s t) (f g : Finding) : Cleared spot (s.report f) (t.report g) :=
  h.update (h.frame.reports f g) (s.report_unread f) (t.report_unread g) (s.report_finish f)
    (t.report_finish g)

theorem enterPanic (h : Cleared spot s t) : Cleared spot s.enterPanic t.enterPanic :=
  h.update ⟨h.frame.file, h.frame.scopes, h.frame.namespaceLine, h.frame.inFunction,
    h.frame.entryPoint⟩ rfl rfl rfl rfl

theorem exitPanic (h : Cleared spot s t) : Cleared spot s.exitPanic t.exitPanic :=
  h.update ⟨h.frame.file, h.frame.scopes, h.frame.namespaceLine, h.frame.inFunction,
    h.frame.entryPoint⟩ rfl rfl rfl rfl

theorem settle (hframe : SameFrame s t) (hfinish : t.finish = s.finish) (hend : s.HasEnd)
    {tokens : List Token} (hshown : hidesSign spot tokens = false) :
    Cleared spot (s.settle tokens) (t.settle (withoutStrays tokens)) where
  frame := ((SameFrame.settle s tokens).symm.trans hframe).trans (.settle t _)
  finish := by rw [State.settle_finish, State.settle_finish, hfinish]
  unread := by rw [State.settle_unread, State.settle_unread, dropInvalid_withoutStrays]
  head := by rw [State.settle_unread]; exact dropInvalid_head tokens
  shown := by rw [State.settle_unread]; exact hidesSign_dropInvalid hshown
  left := by rw [State.HasEnd, State.settle_finish]; exact hend

/-- Moving on, to what may start behind the current token. -/
theorem advance (h : Cleared spot s t) :
    Cleared (.behind s.current.kind) s.advance t.advance := by
  rw [State.advance, State.advance]
  cases hs : s.unread with
  | nil => rw [h.unread, hs]; exact settle h.frame h.finish h.left rfl
  | cons x rest =>
      have hshown := h.shown
      rw [hs] at hshown
      rw [h.unread_cons hs, State.current, hs]
      have hx := h.head x (by rw [hs]; rfl)
      exact settle h.frame h.finish h.left (hidesSign_behind hshown hx)

theorem advance_of_kind (h : Cleared spot s t) {kind : Kind} (hk : s.current.kind = kind) :
    Cleared (.behind kind) s.advance t.advance := hk ▸ h.advance

theorem closeBlock (h : Cleared .statement s t) : Cleared .statement s.closeBlock t.closeBlock := by
  have hcurrent : t.exitPanic.current = s.exitPanic.current := h.exitPanic.current
  rw [State.closeBlock, State.closeBlock]
  dsimp only
  rw [hcurrent]
  split
  · next hk => exact h.exitPanic.advance_of_kind hk
  · exact (h.exitPanic.report _ _).enterPanic

/-! ## Recovery

Stray characters are passed over by recovery, as all invalid tokens are. So it stops at the same
token with them and without them. -/

/-- A parser that has read nothing from one state has read nothing from the other one. -/
theorem length_iff {spot' : Spot} {start start' : State} (hstart : Cleared spot start start')
    (hmoves : Moves start s) (h : Cleared spot' s t) :
    t.unread.length = start'.unread.length ↔ s.unread.length = start.unread.length := by
  have hsuffix := hmoves.unread_suffix
  constructor
  · intro hlength
    cases hu : start.unread with
    | nil => rw [hu] at hsuffix; rw [List.suffix_nil.mp hsuffix]
    | cons x rest =>
        rw [hu] at hsuffix
        rcases List.suffix_cons_iff.mp hsuffix with heq | hsuffix
        · rw [heq]
        · -- the first token was read, and it is one that both states have
          have hle := (hsuffix.filter (!·.isStray)).length_le
          rw [h.unread, hstart.unread_cons hu, List.length_cons, withoutStrays, withoutStrays]
            at hlength
          omega
  · intro hlength
    rw [h.unread, hstart.unread, hsuffix.eq_of_length hlength]

theorem skipTo (h : Cleared spot s t) {tokens : List Token}
    (hhead : ∀ x ∈ tokens.head?, x.kind ≠ .invalid) (hshown : hidesSign .statement tokens = false) :
    Cleared .statement { s with unread := tokens } { t with unread := withoutStrays tokens } where
  frame := ⟨h.frame.file, h.frame.scopes, h.frame.namespaceLine, h.frame.inFunction,
    h.frame.entryPoint⟩
  finish := h.finish
  unread := rfl
  head := hhead
  shown := hshown
  left := h.left

/-- Recovery goes on at the same place, where a statement may start. Whether a token was taken before
the failure decides where the search begins, and is the same for both. -/
theorem recover {spot' : Spot} {start start' : State} (hstart : Cleared spot start start')
    (hmoves : Moves start s) (h : Cleared spot' s t) (f g : Finding) :
    Cleared .statement (s.recover f start.unread.length) (t.recover g start'.unread.length) := by
  have hlength := length_iff hstart hmoves h
  have hreported := (h.report f g).enterPanic
  rw [State.recover, State.recover]
  by_cases hread : s.unread.length = start.unread.length
  · rw [if_pos hread, if_pos (hlength.mpr hread), h.unread, skipStatement_withoutStrays h.head]
    exact hreported.skipTo (skipStatement_head _) (hidesSign_skipStatement h.shown)
  · rw [if_neg hread, if_neg (mt hlength.mp hread), h.unread, synchronize_withoutStrays]
    exact hreported.skipTo (synchronize_head _ _) (hidesSign_synchronize h.shown nofun)

end Cleared

end FrontEnd.Grammar
