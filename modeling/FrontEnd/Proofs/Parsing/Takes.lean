import FrontEnd.Proofs.Checking.Tracks
import FrontEnd.Proofs.Syntax.Derives

set_option autoImplicit false

/-! # What a parser takes

`Takes s w c c' s'` says that on the way from `s` to `s'` the tokens `w` were read, and that a
checker that agreed with the parser before agrees with it afterwards if it has gone from `c` to
`c'`. Runs are put together by `Takes.trans`. The primitive parsers take one token or none.

Two results are shown at once in this way, since both follow the same runs: that the tokens have the
form which the grammar asks for, and that what was found is what a checker finds in the tree. The
second one needs legible tokens, the first one does not; so agreement is only ever carried on, and
never asked for (`Takes.tracks`).
-/

namespace FrontEnd.Grammar

open FrontEnd.Grammar.Parser

variable {α : Type} {s s' s'' : State} {c c' c'' : Checker} {u v w : List Token}

/-- The current token, if it is not the end of the file, is the first unread one. -/
theorem State.Lexed.unread_eq (h : s.Lexed) (hk : s.current.kind ≠ .endOfFile) :
    s.unread = s.current :: s.unread.tail := by
  unfold State.current at hk ⊢
  cases hu : s.unread with
  | nil => rw [hu] at hk; exact absurd h.finish hk
  | cons t rest => rfl

/-- The tokens `w` were read between two states, and the checker has gone from `c` to `c'`. Both
start and end in step with each other, which is what is proved of each parser. -/
structure Takes (s : State) (w : List Token) (c c' : Checker) (s' : State) : Prop where
  unread : s.unread = w ++ s'.unread
  lexed : s'.Lexed
  file : s'.file = s.file
  tracks : s.Tracks c → s'.Tracks c'

namespace Takes

theorem refl (hs : s.Lexed) : Takes s [] c c s := ⟨rfl, hs, rfl, id⟩

theorem trans (h : Takes s v c c' s') (h' : Takes s' w c' c'' s'') :
    Takes s (v ++ w) c c'' s'' :=
  ⟨by rw [h.unread, h'.unread, List.append_assoc], h'.lexed, h'.file.trans h.file,
    fun hc => h'.tracks (h.tracks hc)⟩

/-- The parser goes on without reading a token. What the checker does then may depend on the
tokens that were read before. -/
theorem goOn (h : Takes s w c c' s') (hm : Moves s' s'') (hu : s''.unread = s'.unread)
    (hc : s.Tracks c → s'.Tracks c' → s''.Tracks c'') : Takes s w c c'' s'' :=
  ⟨by rw [hu]; exact h.unread, hm.lexed h.lexed, hm.file_eq.trans h.file,
    fun ht => hc ht (h.tracks ht)⟩

/-- Nothing more was read. -/
theorem still (h : Takes s w c c' s') (h' : Takes s' [] c' c'' s'') : Takes s w c c'' s'' := by
  have h := h.trans h'
  rwa [List.append_nil] at h

/-- The first token that was read is legible. -/
theorem legible {t : Token} (h : Takes s (t :: w) c c' s') (hc : s.Tracks c) : t.Legible :=
  hc.legible t (by rw [h.unread]; exact List.mem_cons_self)

/-! ## Primitive parsers

Where the parser reports something, the checker has to report it at the same place and with the same
width. The parser takes both from a token that it has read, and the checker from the tree. -/

theorem ofAdvance (hs : s.Lexed) (hk : s.current.kind ≠ .endOfFile) :
    Takes s [s.current] c c s.advance := by
  refine ⟨?_, (Change.advance s).lexed hs, State.settle_file .., fun hc => hc.advance hs⟩
  rw [hs.unread_eq hk, hs.advance_eq]
  rfl

theorem ofExpect (hs : s.Lexed) {kind : Kind} {place : Place} {t : Token}
    (h : expect kind place s = .ok t s') (hk : kind ≠ .endOfFile) :
    t.kind = kind ∧ Takes s [t] c c s' := by
  obtain ⟨rfl, rfl, rfl⟩ := expect_eq_ok.mp h
  exact ⟨rfl, ofAdvance hs hk⟩

theorem ofAccept (hs : s.Lexed) {kind : Kind} {b : Bool} (h : accept kind s = .ok b s')
    (hk : kind ≠ .endOfFile) :
    (b = true ∧ ∃ t, t.kind = kind ∧ Takes s [t] c c s') ∨ (b = false ∧ Takes s [] c c s') := by
  rcases accept_eq_ok.mp h with ⟨rfl, rfl, rfl⟩ | ⟨rfl, -, rfl⟩
  · exact .inl ⟨rfl, s.current, rfl, ofAdvance hs hk⟩
  · exact .inr ⟨rfl, refl hs⟩

/-- Something is reported about the first token that was read. -/
theorem complain {t : Token} (h : Takes s (t :: w) c c' s') {issue : Issue}
    (soft : issue.isSemantic) {x : Unit} (hp : Parser.complain issue t s' = .ok x s'')
    (hc : t.Legible → s'.Tracks c' → (s'.report (s'.finding issue t)).Tracks c'') :
    Takes s (t :: w) c c'' s'' := by
  obtain rfl := complain_eq_ok.mp hp
  exact h.goOn (.of_change (.complain s' _ soft)) (State.report_unread ..)
    fun hs => hc (h.legible hs)

/-- Something may be reported about the first token that was read. -/
theorem complainIf {t : Token} (h : Takes s (t :: w) c c' s') {condition : Bool} {issue : Issue}
    (soft : issue.isSemantic) {x : Unit}
    (hp : Parser.onlyIf condition (Parser.complain issue t) s' = .ok x s'')
    {loc : Location} {length : Nat} (hloc : loc = s'.locate t)
    (hwidth : t.Legible → t.width = length) :
    Takes s (t :: w) c (if condition then c'.report issue loc length else c') s'' := by
  unfold Parser.onlyIf at hp
  cases condition with
  | false =>
      obtain ⟨-, rfl⟩ := pure_eq_ok.mp hp
      exact h
  | true =>
      refine h.complain soft hp fun ht hc => ?_
      rw [State.finding, hwidth ht, ← hloc]
      exact hc.report issue loc length

/-- An expression is written to. -/
theorem checkTarget (h : Takes s w c c' s') {target : Expr} {x : Unit}
    (hp : Parser.checkTarget target s' = .ok x s'') : Takes s w c (c'.write target) s'' := by
  refine h.goOn ((Regular.checkTarget target).ok hp) ?_ fun _ hc => hc.checkTarget hp
  rw [Parser.checkTarget, update_eq_ok] at hp
  subst hp
  split
  · split
    · rfl
    · split
      · exact State.report_unread ..
      · rfl
  · exact State.report_unread ..

end Takes

/-- Every success of the parser takes tokens of the given form, where the form may depend on the
kind of the token behind them, and moves a checker as `check` does. -/
def Sound (form : Kind → List Token → Prop) (check : α → Checker → Checker) (p : Parser α) : Prop :=
  ∀ {s s' : State} {a : α} (c : Checker), s.Lexed → p s = .ok a s' →
    ∃ w, form s'.current.kind w ∧ Takes s w c (check a c) s'

end FrontEnd.Grammar
