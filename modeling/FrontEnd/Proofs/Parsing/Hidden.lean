import FrontEnd.Proofs.Parsing.Recovery
import FrontEnd.Proofs.Token.Blanked

set_option autoImplicit false

/-! # Signs hidden by stray characters

A token that stands for a stray character is dropped when it comes up, so no parser ever finds it as
the current token. But it may stand behind the current one, and two decisions look there: whether a
name at the start of a statement is bound, and whether a name at the start of an operand is called. A
stray character between such a name and the sign behind it hides the sign (`hidesSign`). What was read
before tells whether a statement or an operand may start (`Spot.behind`), and a search for the next
statement boundary ends where a statement may start.

Whether signs are hidden is thus decided by the tokens alone, in one pass from the front, without
running a parser. The price is that a spot is taken to allow more than the grammar does: a statement
may start behind every token behind which none is excluded.
-/

namespace FrontEnd

theorem Token.not_isStray_of_valid {t : Token} (h : t.kind ≠ .invalid) : t.isStray = false := by
  cases hstray : t.isStray with
  | true => exact absurd (Token.kind_of_isStray hstray) h
  | false => rfl

namespace Grammar

open FrontEnd.Grammar.Parser

/-! ## Signs behind names

The tokens are read from left to right. What may come up behind a token depends on the token, and
for a name on what stands there. -/

/-- What may start with a name at a place in the text. It decides which signs are looked for behind
the name. -/
inductive Spot where
  /-- A statement, and so an operand too. -/
  | statement
  /-- An operand and no statement. -/
  | operand
  /-- Neither. -/
  | neither

namespace Spot

/-- What may start behind a token. Where nothing is known a statement may start, which asks for the
most signs. -/
def behind : Kind → Spot
  | .word .fnWord | .word .mdWord | .word .externWord | .word .namespaceWord | .word .letWord
  | .word .valWord | .word .constWord | .mark .colon => neither
  | .word .returnWord | .mark .leftParen | .mark .comma | .mark .define | .mark .defineConst
  | .mark .bang | .mark .tilde | .operator _ => operand
  | _ => statement

/-- The signs that are looked for behind a name: those that bind it, if it may start a statement, and
the one that calls it, if it may start an operand. -/
def looksFor : Spot → Kind → Bool
  | statement, .mark .define | statement, .mark .defineConst | statement, .mark .colon
  | statement, .mark .leftParen | operand, .mark .leftParen => true
  | _, _ => false

/-- What is not looked for at the start of a statement is looked for nowhere. -/
theorem looksFor_statement {spot : Spot} {kind : Kind} (h : statement.looksFor kind = false) :
    spot.looksFor kind = false := by
  cases hspot : spot.looksFor kind with
  | false => rfl
  | true =>
      unfold looksFor at hspot
      split at hspot
      · cases h
      · cases h
      · cases h
      · cases h
      · cases h
      · cases hspot

theorem looksFor_invalid (spot : Spot) : spot.looksFor .invalid = false := by
  cases spot <;> rfl

theorem looksFor_endOfFile (spot : Spot) : spot.looksFor .endOfFile = false := by
  cases spot <;> rfl

theorem behind_of_unaryOp? {kind : Kind} {op : UnaryOp} (h : unaryOp? kind = some op) :
    behind kind = operand := by
  unfold unaryOp? at h
  split at h
  · rfl
  · rfl
  · rfl
  · cases h

end Spot

/-- Somewhere nothing but stray characters stands between a name and a sign that is looked for behind
it. The spot is that of the first token; invalid tokens do not change it. -/
def hidesSign : Spot → List Token → Bool
  | _, [] => false
  | spot, t :: rest =>
    t.kind == .identifier && rest.head?.any (·.isStray) &&
        (withoutStrays rest).head?.any (spot.looksFor ·.kind) ||
      hidesSign (if t.kind = .invalid then spot else .behind t.kind) rest

variable {spot : Spot} {tokens : List Token}

theorem hidesSign_invalid {t : Token} (hk : t.kind = .invalid) (rest : List Token) :
    hidesSign spot (t :: rest) = hidesSign spot rest := by
  rw [hidesSign, hk, if_pos rfl]
  rfl

/-- What is hidden behind the first token does not depend on what may start with it. -/
theorem hidesSign_behind {t : Token} {rest : List Token} (h : hidesSign spot (t :: rest) = false)
    (hk : t.kind ≠ .invalid) : hidesSign (.behind t.kind) rest = false := by
  rw [hidesSign, if_neg hk, Bool.or_eq_false_iff] at h
  exact h.2

/-- Nothing is looked for behind a token that is no name. -/
theorem hidesSign_of_ne {spot' : Spot} {t : Token} {rest : List Token}
    (h : hidesSign spot (t :: rest) = false) (hk : t.kind ≠ .invalid) (hname : t.kind ≠ .identifier) :
    hidesSign spot' (t :: rest) = false := by
  rw [hidesSign, if_neg hk, beq_false_of_ne hname, Bool.false_and, Bool.false_and, Bool.false_or]
  exact hidesSign_behind h hk

theorem hidesSign_statement (h : hidesSign .statement tokens = false) :
    hidesSign spot tokens = false := by
  induction tokens generalizing spot with
  | nil => rfl
  | cons t rest ih =>
      by_cases hk : t.kind = .invalid
      · rw [hidesSign_invalid hk] at h ⊢
        exact ih h
      · rw [hidesSign, if_neg hk, Bool.or_eq_false_iff] at h ⊢
        refine ⟨?_, h.2⟩
        rw [Bool.and_eq_false_iff] at h ⊢
        refine h.1.imp_right fun hsign => ?_
        cases hnext : (withoutStrays rest).head? with
        | none => rfl
        | some next =>
            rw [hnext] at hsign
            exact Spot.looksFor_statement hsign

theorem hidesSign_neither (h : hidesSign spot tokens = false) :
    hidesSign .neither tokens = false := by
  induction tokens generalizing spot with
  | nil => rfl
  | cons t rest ih =>
      by_cases hk : t.kind = .invalid
      · rw [hidesSign_invalid hk] at h ⊢
        exact ih h
      · rw [hidesSign, if_neg hk, Bool.or_eq_false_iff]
        refine ⟨Bool.and_eq_false_iff.mpr (.inr ?_), hidesSign_behind h hk⟩
        cases (withoutStrays rest).head? with
        | none => rfl
        | some next => rfl

theorem hidesSign_dropInvalid (h : hidesSign spot tokens = false) :
    hidesSign spot (dropInvalid tokens) = false := by
  induction tokens with
  | nil => rfl
  | cons t rest ih =>
      rw [dropInvalid_cons]
      split
      · next hk => exact ih (by rwa [hidesSign_invalid hk] at h)
      · exact h

/-- Behind a group a statement may start. -/
theorem hidesSign_skipGroups (depth : Nat) (h : hidesSign spot tokens = false) :
    hidesSign .statement (skipGroups depth tokens) = false := by
  induction tokens generalizing depth spot with
  | nil => rfl
  | cons t rest ih =>
      have hrest := h
      rw [hidesSign, Bool.or_eq_false_iff] at hrest
      rw [skipGroups]
      split
      · exact ih _ hrest.2
      · next hk =>
        split
        · have hbehind := hidesSign_behind h (by rw [hk]; simp)
          rw [hk] at hbehind
          exact hidesSign_dropInvalid hbehind
        · exact ih _ hrest.2
      · exact ih _ hrest.2

/-- The search ends where a statement may start, or at a token that is no name. In both cases
nothing is hidden from the statement that is read there. -/
theorem hidesSign_synchronize {behindSemicolon : Bool} (h : hidesSign spot tokens = false)
    (hspot : behindSemicolon = true → spot = .statement) :
    hidesSign .statement (synchronize behindSemicolon tokens) = false := by
  induction tokens generalizing behindSemicolon spot with
  | nil => rfl
  | cons t rest ih =>
      rw [synchronize]
      split
      · next hk =>
        rw [hidesSign_invalid hk] at h
        exact ih h hspot
      · next hk =>
        split
        · next hsemicolon => rwa [hspot hsemicolon] at h
        · split
          · next hright => exact hidesSign_of_ne h hk (by rw [hright]; simp)
          · exact hidesSign_skipGroups _ h
          · split
            · next hstarts =>
              -- the token that starts a declaration is a word, and no sign is looked for behind a
              -- word
              refine hidesSign_of_ne h hk fun hname => ?_
              rw [hname] at hstarts
              cases hstarts
            · refine ih (hidesSign_behind h hk) fun hsemicolon => ?_
              rw [of_decide_eq_true hsemicolon]
              rfl

theorem hidesSign_skipStatement (h : hidesSign spot tokens = false) :
    hidesSign .statement (skipStatement tokens) = false := by
  cases tokens with
  | nil => rfl
  | cons t rest =>
      rw [skipStatement]
      split
      · exact hidesSign_skipGroups _ h
      · rw [hidesSign, Bool.or_eq_false_iff] at h
        refine hidesSign_synchronize h.2 fun hsemicolon => ?_
        rw [of_decide_eq_true hsemicolon]
        rfl

/-! ## Skipping tokens

Invalid tokens are passed over wherever tokens are skipped, so it makes no difference whether the
stray ones are left out before or after. What is skipped to is never an invalid token. -/

theorem skipGroups_head (depth : Nat) (tokens : List Token) :
    ∀ t ∈ (skipGroups depth tokens).head?, t.kind ≠ .invalid := by
  induction tokens generalizing depth with
  | nil => exact nofun
  | cons t rest ih =>
      rw [skipGroups]
      split
      · exact ih _
      · split
        · exact dropInvalid_head rest
        · exact ih _
      · exact ih _

theorem synchronize_head (behindSemicolon : Bool) (tokens : List Token) :
    ∀ t ∈ (synchronize behindSemicolon tokens).head?, t.kind ≠ .invalid := by
  induction tokens generalizing behindSemicolon with
  | nil => exact nofun
  | cons t rest ih =>
      rw [synchronize]
      split
      · exact ih _
      · next hk =>
        have hhead : ∀ t' ∈ (t :: rest).head?, t'.kind ≠ .invalid := by
          intro t' ht'
          cases ht'
          exact hk
        split
        · exact hhead
        · split
          · exact hhead
          · exact skipGroups_head _ _
          · split
            · exact hhead
            · exact ih _

theorem skipStatement_head (tokens : List Token) :
    ∀ t ∈ (skipStatement tokens).head?, t.kind ≠ .invalid := by
  cases tokens with
  | nil => exact nofun
  | cons t rest =>
      rw [skipStatement]
      split
      · exact skipGroups_head _ _
      · exact synchronize_head _ _

theorem dropInvalid_withoutStrays (tokens : List Token) :
    dropInvalid (withoutStrays tokens) = withoutStrays (dropInvalid tokens) := by
  induction tokens with
  | nil => rfl
  | cons t rest ih =>
      rw [dropInvalid_cons]
      cases hstray : t.isStray with
      | true => rw [withoutStrays_cons_stray hstray, if_pos (Token.kind_of_isStray hstray), ih]
      | false =>
          rw [withoutStrays_cons_other hstray, dropInvalid_cons]
          split
          · exact ih
          · rw [withoutStrays_cons_other hstray]

theorem skipGroups_withoutStrays (depth : Nat) (tokens : List Token) :
    skipGroups depth (withoutStrays tokens) = withoutStrays (skipGroups depth tokens) := by
  induction tokens generalizing depth with
  | nil => rfl
  | cons t rest ih =>
      cases hstray : t.isStray with
      | true => rw [withoutStrays_cons_stray hstray, skipGroups, Token.kind_of_isStray hstray, ih]
      | false =>
          rw [withoutStrays_cons_other hstray, skipGroups, skipGroups]
          generalize t.kind = kind
          split
          · exact ih _
          · split
            · exact dropInvalid_withoutStrays rest
            · exact ih _
          · exact ih _

theorem synchronize_withoutStrays (behindSemicolon : Bool) (tokens : List Token) :
    synchronize behindSemicolon (withoutStrays tokens) =
      withoutStrays (synchronize behindSemicolon tokens) := by
  induction tokens generalizing behindSemicolon with
  | nil => rfl
  | cons t rest ih =>
      cases hstray : t.isStray with
      | true =>
          rw [withoutStrays_cons_stray hstray, synchronize, if_pos (Token.kind_of_isStray hstray), ih]
      | false =>
          have hkeep := withoutStrays_cons_other hstray rest
          rw [hkeep, synchronize, synchronize]
          split
          · exact ih _
          · split
            · exact hkeep.symm
            · split
              · exact hkeep.symm
              · rw [← hkeep]
                exact skipGroups_withoutStrays _ _
              · split
                · exact hkeep.symm
                · exact ih _

theorem skipStatement_withoutStrays {tokens : List Token}
    (hhead : ∀ t ∈ tokens.head?, t.kind ≠ .invalid) :
    skipStatement (withoutStrays tokens) = withoutStrays (skipStatement tokens) := by
  cases tokens with
  | nil => rfl
  | cons t rest =>
      have hkeep := withoutStrays_cons_other (Token.not_isStray_of_valid (hhead t rfl)) rest
      rw [hkeep, skipStatement, skipStatement]
      split
      · rw [← hkeep]
        exact skipGroups_withoutStrays _ _
      · exact synchronize_withoutStrays _ _

end Grammar

end FrontEnd
