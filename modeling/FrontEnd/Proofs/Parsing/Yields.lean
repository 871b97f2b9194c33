import FrontEnd.Proofs.Parsing.Outcome
import FrontEnd.Proofs.Parsing.Change
import FrontEnd.Proofs.Syntax.Reads

set_option autoImplicit false

/-! # What a parser yields

`Yields p s a rest` says that from the state `s` the parser `p` succeeds with the value `a`, leaves
the tokens `rest`, and finds nothing grammatical on the way. Together with the relations that say
how tokens read as trees this is the other half of the correctness of parsers: what can be read is
read.

A token can be taken only if the next one is no invalid token, since that one would be reported and
dropped.

A run that goes well changes the state in ways that do not matter here: it may open scopes, declare
names and find issues of meaning. What matters is kept in a few fields (`Goes`), and all that a later
parser has to know of the state is which tokens are before it (`State.At`).
-/

namespace FrontEnd.Grammar

variable {α β : Type} {s s' s'' : State} {mid rest : List Token}

/-- A run that leaves the tokens `rest`, and finds nothing grammatical. What it finds wrong with
names, or declares, is left open. -/
structure Goes (s : State) (rest : List Token) (s' : State) : Prop where
  unread : s'.unread = rest
  file : s'.file = s.file
  finish : s'.finish = s.finish
  namespaceLine : s'.namespaceLine = s.namespaceLine
  grammatical : s'.grammatical = s.grammatical

namespace Goes

theorem refl (s : State) : Goes s s.unread s := ⟨rfl, rfl, rfl, rfl, rfl⟩

theorem trans (h : Goes s mid s') (h' : Goes s' rest s'') : Goes s rest s'' :=
  ⟨h'.unread, h'.file.trans h.file, h'.finish.trans h.finish,
    h'.namespaceLine.trans h.namespaceLine, h'.grammatical.trans h.grammatical⟩

/-- A finding about the meaning of what was read. -/
theorem report (s : State) {f : Finding} (soft : f.issue.isSemantic) :
    Goes s s.unread (s.report f) where
  unread := State.report_unread ..
  file := State.report_file ..
  finish := State.report_finish ..
  namespaceLine := State.report_namespaceLine ..
  grammatical := s.report_grammatical (Issue.isSemantic_iff.mp soft).1

theorem clean (h : Goes s rest s') (hc : s.Clean) : s'.Clean := by
  rw [State.clean_iff, h.grammatical]
  exact State.clean_iff.mp hc

end Goes

/-! ## States and their tokens -/

/-- The parser has the tokens `input` of a file before it, and the token `finish` behind them. -/
structure State.At (s : State) (file : String) (finish : Token) (input : List Token) : Prop where
  file_eq : s.file = file
  finish_eq : s.finish = finish
  unread_eq : s.unread = input

namespace State.At

variable {file : String} {finish t : Token} {input : List Token}

theorem goes (h : s.At file finish input) (hg : Goes s rest s') : s'.At file finish rest :=
  ⟨hg.file.trans h.file_eq, hg.finish.trans h.finish_eq, hg.unread⟩

theorem current_eq_headD (h : s.At file finish input) : s.current = input.headD finish := by
  rw [current, h.unread_eq, h.finish_eq]

theorem current_eq (h : s.At file finish (t :: rest)) : s.current = t := h.current_eq_headD

theorem current_kind (h : s.At file finish input) : s.current.kind = nextKind finish.kind input := by
  rw [h.current_eq_headD]
  cases input <;> rfl

theorem lookahead_kind (h : s.At file finish (t :: rest)) :
    s.lookahead.kind = nextKind finish.kind rest := by
  rw [lookahead, h.unread_eq, h.finish_eq]
  cases rest <;> rfl

theorem locate_eq (h : s.At file finish input) (t : Token) :
    s.locate t = ⟨file, t.position⟩ := by
  rw [locate, h.file_eq]

/-- One token is taken. -/
theorem advance (h : s.At file finish (t :: rest))
    (hnext : nextKind finish.kind rest ≠ .invalid) : Goes s rest s.advance := by
  have hadvance : s.advance = { s with unread := rest } := by
    rw [State.advance, h.unread_eq, List.tail_cons]
    refine State.settle_valid (fun t' ht' => ?_) s
    cases rest with
    | nil => cases ht'
    | cons t'' rest' => cases ht'; exact hnext
  rw [hadvance]
  exact ⟨rfl, rfl, rfl, rfl, rfl⟩

end State.At

/-- All tokens up to the end of the file are valid, so the next token can always be taken. -/
structure Valid (finish : Token) (input : List Token) : Prop where
  tokens : ∀ t ∈ input, t.kind ≠ .invalid
  finish : finish.kind = .endOfFile

namespace Valid

variable {finish : Token} {input : List Token}

theorem of_suffix (h : Valid finish input) (hs : rest <:+ input) : Valid finish rest :=
  ⟨fun t ht => h.tokens t (hs.subset ht), h.finish⟩

theorem tail {t : Token} (h : Valid finish (t :: rest)) : Valid finish rest :=
  h.of_suffix (List.suffix_cons t rest)

theorem next (h : Valid finish input) : nextKind finish.kind input ≠ .invalid := by
  cases input with
  | nil => rw [nextKind_nil, h.finish]; simp
  | cons t rest => exact h.tokens t List.mem_cons_self

end Valid

/-! ## Parsers

For each primitive parser, what it needs before it to succeed; and for sequences, that the tokens
which the first part leaves are those that the second part finds. -/

/-- The parser succeeds with `a` and leaves the tokens `rest`. Completeness is stated in this form
for each parser of the grammar. -/
def Yields (p : Parser α) (s : State) (a : α) (rest : List Token) : Prop :=
  ∃ s', p s = .ok a s' ∧ Goes s rest s'

namespace Yields

open FrontEnd.Grammar.Parser

variable {p : Parser α} {q : α → Parser β} {a : α} {b : β}
variable {file : String} {finish t : Token} {input : List Token}

theorem pure (hs : s.At file finish input) (a : α) : Yields (Pure.pure a) s a input :=
  ⟨s, rfl, hs.unread_eq ▸ .refl s⟩

theorem after (h : p s = .ok a s') (hs : Goes s mid s') (hq : Yields (q a) s' b rest) :
    Yields (p >>= q) s b rest := by
  obtain ⟨s'', h', hs'⟩ := hq
  exact ⟨s'', bind_eq_ok.mpr ⟨a, s', h, h'⟩, hs.trans hs'⟩

theorem bind (hs : s.At file finish input) (hp : Yields p s a mid)
    (hq : ∀ {s'}, s'.At file finish mid → Yields (q a) s' b rest) : Yields (p >>= q) s b rest := by
  obtain ⟨s', h, hs'⟩ := hp
  exact after h hs' (hq (hs.goes hs'))

theorem advance (hs : s.At file finish (t :: rest))
    (hnext : nextKind finish.kind rest ≠ .invalid) : Yields Parser.advance s () rest :=
  ⟨s.advance, rfl, hs.advance hnext⟩

theorem take (hs : s.At file finish (t :: rest)) (hnext : nextKind finish.kind rest ≠ .invalid) :
    Yields Parser.take s t rest :=
  ⟨s.advance, by rw [← hs.current_eq]; rfl, hs.advance hnext⟩

/-! Parsers that only look at the state, in front of others. -/

theorem get {q : State → Parser β} (h : Yields (q s) s b rest) : Yields (get >>= q) s b rest := h

theorem current {q : Token → Parser β} (h : Yields (q s.current) s b rest) :
    Yields (Parser.current >>= q) s b rest := h

theorem lookahead {q : Token → Parser β} (h : Yields (q s.lookahead) s b rest) :
    Yields (Parser.lookahead >>= q) s b rest := h

theorem locate (hs : s.At file finish input) {t : Token} {q : Location → Parser β}
    (h : Yields (q ⟨file, t.position⟩) s b rest) : Yields (Parser.locate t >>= q) s b rest := by
  rw [← hs.locate_eq t] at h
  exact h

/-! Reading a given token. -/

theorem expect (hs : s.At file finish (t :: rest)) {kind : Kind} (hk : t.kind = kind)
    (place : Place) (hnext : nextKind finish.kind rest ≠ .invalid) :
    Yields (Parser.expect kind place) s t rest := by
  refine ⟨s.advance, ?_, hs.advance hnext⟩
  rw [expect_eq, hs.current_eq, if_pos hk]

theorem accept (hs : s.At file finish (t :: rest)) {kind : Kind} (hk : t.kind = kind)
    (hnext : nextKind finish.kind rest ≠ .invalid) : Yields (Parser.accept kind) s true rest := by
  refine ⟨s.advance, ?_, hs.advance hnext⟩
  rw [accept_eq, hs.current_eq, if_pos hk]

theorem decline (hs : s.At file finish input) {kind : Kind}
    (hnext : nextKind finish.kind input ≠ kind) :
    Yields (Parser.accept kind) s false input := by
  refine ⟨s, ?_, hs.unread_eq ▸ .refl s⟩
  rw [accept_eq, if_neg]
  rwa [hs.current_kind]

theorem complain (hs : s.At file finish input) {issue : Issue}
    (soft : issue.isSemantic) (t : Token) :
    Yields (Parser.complain issue t) s () input :=
  ⟨_, rfl, hs.unread_eq ▸ .report s soft⟩

theorem onlyIf (hs : s.At file finish input) {condition : Bool} {p : Parser Unit}
    (hp : Yields p s () input) : Yields (Parser.onlyIf condition p) s () input := by
  unfold Parser.onlyIf
  split
  · exact hp
  · exact pure hs ()

/-- A change of the state. -/
theorem update {f : State → State} (hf : Goes s rest (f s)) :
    Yields (Parser.update f) s () rest := ⟨f s, rfl, hf⟩

end Yields

end FrontEnd.Grammar
