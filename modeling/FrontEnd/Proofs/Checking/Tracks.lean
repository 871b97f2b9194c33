import FrontEnd.Proofs.Checking.Checker
import FrontEnd.Proofs.Parsing.Regular

set_option autoImplicit false

/-! # A parser and a checker side by side

While a parser reads a text, a `Checker` may walk through the trees that the parser has built so
far. `State.Tracks` relates the two: both see the same names, and have found the same. Each
change that a parser makes to its scopes or findings is a step of the checker.

A checker knows no tokens. What a parser reports about a token only (a number out of range, a
character literal without a value) it never reports, and it takes the widths of words from
the trees. Tokens for which both agree are `Legible`. Nor does it see a namespace line that was
left out, so there may be one such line only.

There is one lemma for each change of a state that touches scopes or findings, and the corresponding
step of the checker stands in its conclusion. The tables of scopes differ: the parser keeps an arena
in which closed scopes stay, and the checker a stack. That the two show the same names is a theorem
about tables (`ScopeTable.Valid`), which is used here as it is.
-/

namespace FrontEnd

/-- The token has the value that its kind promises, and is as wide as its tree says. A number that
is too great and an unknown escape are found while reading, by the parsers and not by the checker.
-/
structure Token.Legible (t : Token) : Prop where
  number : t.kind = .number → ∃ n, t.numeral? = some n
  char : t.kind = .charLiteral → ∃ c, Grammar.unescape? (Grammar.withoutDelimiters t.lexeme) = some c
  name : t.kind = .identifier → t.width = t.lexeme.length
  ret : t.kind = .word .returnWord → t.width = 6

namespace Grammar

/-- The number of namespace lines in a file: the one that was read, and those still to be read. -/
def State.namespaces (s : State) : Nat :=
  s.unread.countP (·.kind == .word .namespaceWord) + if s.namespaceLine.isSome then 1 else 0

/-- The checker `c` sees the same names as the parser, and has found the same. The parser is not in
panic, since it would then leave out what the checker reports. -/
structure State.Tracks (s : State) (c : Checker) : Prop where
  loud : s.panic = false
  legible : ∀ t ∈ s.unread, t.Legible
  single : s.namespaces ≤ 1
  valid : s.scopes.Valid
  frames : s.scopes.frames = c.frames
  inFunction : s.inFunction = c.inFunction
  findings : s.findings = c.findings

namespace State.Tracks

variable {s : State} {c : Checker}

/-- The names that the parser sees. -/
theorem lookup?_eq (h : s.Tracks c) (name : String) :
    s.scopes.lookup? name = c.frames.lookup? name := by
  rw [ScopeTable.lookup?_eq, h.frames]

theorem report (h : s.Tracks c) (issue : Issue) (loc : Location) (length : Nat) :
    (s.report ⟨issue, loc, length⟩).Tracks (c.report issue loc length) where
  loud := by rw [report_panic, h.loud]
  legible t ht := h.legible t (by rwa [report_unread] at ht)
  single := by simpa [namespaces] using h.single
  valid := by rw [report_scopes]; exact h.valid
  frames := by rw [report_scopes]; exact h.frames
  inFunction := by rw [report_inFunction]; exact h.inFunction
  findings := by rw [report_findings, h.loud, h.findings]; rfl

theorem advance (h : s.Tracks c) (hs : s.Lexed) : s.advance.Tracks c := by
  have hcount := s.unread.tail_sublist.countP_le (p := fun t => t.kind == .word .namespaceWord)
  have hsingle := h.single
  rw [hs.advance_eq]
  refine ⟨h.loud, fun t ht => h.legible t (List.mem_of_mem_tail ht), ?_, h.valid, h.frames,
    h.inFunction, h.findings⟩
  unfold namespaces at hsingle ⊢
  exact Nat.le_trans (Nat.add_le_add_right hcount _) hsingle

theorem exitPanic (h : s.Tracks c) : s.exitPanic.Tracks c :=
  ⟨rfl, h.legible, h.single, h.valid, h.frames, h.inFunction, h.findings⟩

theorem pushScope (h : s.Tracks c) (kind : ScopeKind) : (s.pushScope kind).Tracks c.enter where
  loud := h.loud
  legible := h.legible
  single := h.single
  valid := h.valid.push kind
  frames := (h.valid.frames_push kind).trans (congrArg _ h.frames)
  inFunction := h.inFunction
  findings := h.findings

theorem popScope (h : s.Tracks c) : s.popScope.Tracks c.leave where
  loud := h.loud
  legible := h.legible
  single := h.single
  valid := h.valid.pop
  frames := h.valid.frames_pop.trans (congrArg _ h.frames)
  inFunction := h.inFunction
  findings := h.findings

theorem setInFunction (h : s.Tracks c) (b : Bool) :
    State.Tracks { s with inFunction := b } { c with inFunction := b } :=
  ⟨h.loud, h.legible, h.single, h.valid, h.frames, rfl, h.findings⟩

/-- A name that was read in an expression. -/
theorem use (h : s.Tracks c) (name : String) (loc : Location) :
    (if (!s.scopes.isVisible name) = true then s.report ⟨.undeclared name, loc, name.length⟩
      else s).Tracks (c.use name loc) := by
  unfold ScopeTable.isVisible Checker.use
  rw [h.lookup?_eq]
  cases (c.frames.lookup? name).isSome with
  | false => exact h.report (.undeclared name) loc name.length
  | true => exact h

/-- A symbol that was declared behind its name. A finding about it takes as many columns as the token
has, and in the tree as many as the name has. -/
theorem declare {u : Unit} {s' : State} {symbol : Symbol} {t : Token} (h : s.Tracks c)
    (hloc : symbol.loc = s.locate t) (hwidth : t.width = symbol.name.length)
    (hp : Parser.declare symbol t s = .ok u s') : s'.Tracks (c.declare symbol) := by
  rw [Parser.declare, Parser.update_eq_ok] at hp
  obtain ⟨hfst, hsnd⟩ := h.valid.declare_eq symbol
  have hvalid := h.valid.declare symbol
  rw [h.frames] at hfst hsnd
  -- the parser declares first and reports by the answer, the checker asks first
  rcases hd : s.scopes.declare symbol with ⟨b, scopes⟩
  rw [hd] at hfst hsnd hvalid hp
  unfold Checker.declare
  cases hl : c.frames.isLocal symbol.name with
  | true =>
      rw [hl] at hfst
      cases hfst
      subst hp
      rw [if_pos rfl, hloc, ← hwidth]
      exact h.report _ _ _
  | false =>
      rw [hl] at hfst hsnd
      cases hfst
      subst hp
      exact ⟨h.loud, h.legible, h.single, hvalid, hsnd, h.inFunction, h.findings⟩

/-- An expression that was written to. -/
theorem checkTarget {u : Unit} {s' : State} {target : Expr} (h : s.Tracks c)
    (hp : Parser.checkTarget target s = .ok u s') : s'.Tracks (c.write target) := by
  rw [Parser.checkTarget, Parser.update_eq_ok] at hp
  cases target with
  | ident name loc =>
      simp only [h.lookup?_eq] at hp
      simp only [Checker.write]
      -- an unknown name was reported when it was read as a value
      cases hl : c.frames.lookup? name with
      | none => rw [hl] at hp; subst hp; exact h
      | some symbol =>
          simp only [hl] at hp ⊢
          split at hp
          · next hset =>
            subst hp
            rw [if_pos hset]
            exact h.report _ _ _
          · next hset =>
            subst hp
            rw [if_neg hset]
            -- the assignment is allowed, and the symbol is marked
            obtain ⟨hvalid, hframes⟩ := h.valid.markAssigned name
            exact ⟨h.loud, h.legible, h.single, hvalid, hframes.trans (by rw [h.frames]),
              h.inFunction, h.findings⟩
  | int | float | bool | string | char | unary | binary | step | call =>
      subst hp
      exact h.report _ _ _

/-- A namespace line is the first one. -/
theorem namespaceLine_eq (h : s.Tracks c) {t : Token} (ht : t ∈ s.unread)
    (hk : t.kind = .word .namespaceWord) : s.namespaceLine = none := by
  have hpos : 0 < s.unread.countP (·.kind == .word .namespaceWord) :=
    List.countP_pos_iff.mpr ⟨t, ht, by rw [hk]; rfl⟩
  have hsingle := h.single
  unfold namespaces at hsingle
  cases hn : s.namespaceLine with
  | none => rfl
  | some line =>
      -- there would be two, the one that was read and the one ahead
      rw [hn, Option.isSome_some, if_pos rfl] at hsingle
      omega

end State.Tracks

/-! ## Functions -/

/-- The arguments of a function are declared in the innermost scope. -/
theorem declareParams_eq (params : List Param) {t : ScopeTable} (h : t.Valid) :
    (declareParams params t).Valid ∧
      (declareParams params t).frames = Frames.addParams params t.frames := by
  induction params generalizing t with
  | nil => exact ⟨h, rfl⟩
  | cons p rest ih =>
      have hdeclare := (h.declare_eq ⟨p.name, .value, .mutable, true, p.loc⟩).2
      have hrest := ih (h.declare ⟨p.name, .value, .mutable, true, p.loc⟩)
      rw [hdeclare] at hrest
      exact hrest

namespace State.Tracks

variable {s : State} {c : Checker}

theorem enterFunction (h : s.Tracks c) (params : List Param) :
    (s.enterFunction params).Tracks
      { c with frames := Frames.addParams params ([] :: c.frames), inFunction := true } := by
  obtain ⟨hvalid, hframes⟩ := declareParams_eq params (h.valid.push .function)
  rw [h.valid.frames_push, h.frames] at hframes
  exact ⟨h.loud, h.legible, h.single, hvalid, hframes, rfl, h.findings⟩

theorem leaveFunction (h : s.Tracks c) (wasInFunction : Bool) :
    (s.leaveFunction wasInFunction).Tracks { c.leave with inFunction := wasInFunction } :=
  h.popScope.setInFunction wasInFunction

end State.Tracks

end Grammar

end FrontEnd
