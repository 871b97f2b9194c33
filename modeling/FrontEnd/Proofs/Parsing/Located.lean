import FrontEnd.Proofs.Parsing.Balanced
import FrontEnd.Proofs.Token.Fixed
import FrontEnd.Proofs.Tree.Nodes

set_option autoImplicit false

/-! # Every node carries the place it came from

A parser looks at the current token, moves on, and puts the place of that token into its node,
often long after it has moved on. `Gives b p s Q` says that what `p` yields from the state `s`,
reached while the buffer `b` is read, has the property `Q`; there is one lemma a parser, which says
that all nodes it yields are known by the tokens at their places (`Buffer.Places`). Since what fails
yields no node, nothing is said about failures, and it does not matter where reading goes on behind
them.

A return type that is not written is known by the token behind the argument list. To find it from
the name of the function one has to know that no closing parenthesis stands within the list
(`Over`).

That a token belongs to the buffer is never carried along. It follows from the state: a state that
is reached has a part of the tokens of the buffer before it (`Buffer.Reaches.unread`), and its
current token is one of them.
-/

namespace FrontEnd

open Grammar

variable {b : Buffer} {α β : Type}

/-! ## Nodes and their tokens

A parser yields trees, and what is said of a tree is said of the list of its nodes. The lists of
the parts of a node are appended, so the lemmas are those of a property of all elements. -/

/-- All nodes carry the places of their tokens. -/
def Buffer.Places (b : Buffer) (nodes : List Node) : Prop := ∀ n ∈ nodes, n.Placed b

namespace Buffer.Places

variable {n : Node} {nodes nodes' : List Node}

theorem nil : b.Places [] := fun _ h => absurd h List.not_mem_nil

theorem cons (hn : n.Placed b) (h : b.Places nodes) : b.Places (n :: nodes) :=
  List.forall_mem_cons.mpr ⟨hn, h⟩

theorem append (h : b.Places nodes) (h' : b.Places nodes') : b.Places (nodes ++ nodes') :=
  List.forall_mem_append.mpr ⟨h, h'⟩

theorem one (hn : n.Placed b) : b.Places [n] := cons hn nil

end Buffer.Places

/-- Tokens with a spelling of their own are spelled so. -/
theorem Buffer.lexeme_fixed {t : Token} (ht : t ∈ b.allTokens) (hk : t.kind.isFixed = true) :
    t.lexeme = t.kind.spelling := by
  rcases List.mem_append.mp ht with ht | ht
  · exact Stream.lexeme_fixed ht hk
  · have hend : (Stream.ofText b.chars).finish.kind = .endOfFile := Stream.upTo_finish _ _
    rw [List.mem_singleton.mp ht, hend] at hk
    cases hk

/-- A token of a kind with a spelling of its own. -/
theorem Buffer.lexeme_of_kind {t : Token} {kind : Kind} (ht : t ∈ b.allTokens) (hk : t.kind = kind)
    (hfixed : kind.isFixed = true) : t.lexeme = kind.spelling := by
  rw [← hk] at hfixed ⊢
  exact lexeme_fixed ht hfixed

/-! ## States

A state belongs to a buffer if its tokens do. Then the token before a parser is one of the buffer,
and so is each that it takes. -/

/-- The state is reached while the buffer is read, by any run of changes that parsers make. It need
not be a state that the parser of the file itself gets to. -/
def Buffer.Reaches (b : Buffer) (s : State) : Prop := Moves b.startState s

namespace Buffer.Reaches

variable {s s' : State}

theorem moves (h : b.Reaches s) (hm : Moves s s') : b.Reaches s' := Moves.trans h hm

theorem exitPanic (h : b.Reaches s) : b.Reaches s.exitPanic := h.moves (.of_change (.exitPanic s))

theorem advance (h : b.Reaches s) : b.Reaches s.advance := h.moves (.of_change (.advance s))

theorem locate (h : b.Reaches s) (t : Token) : s.locate t = ⟨b.name, t.position⟩ := by
  have hfile : s.file = b.name := h.file_eq.trans (State.settle_file _ _)
  rw [State.locate, hfile]

theorem finish (h : b.Reaches s) : s.finish = (Stream.ofText b.chars).finish :=
  h.finish_eq.trans (State.settle_finish _ _)

theorem unread (h : b.Reaches s) : s.unread <:+ b.tokens :=
  h.unread_suffix.trans (State.settle_suffix _ _)

/-- The unread tokens are the last ones of the buffer, the current one first. -/
theorem allTokens_eq (h : b.Reaches s) :
    ∃ before behind, b.allTokens = before ++ (s.unread ++ [s.finish]) ∧
      s.unread ++ [s.finish] = s.current :: behind := by
  obtain ⟨before, hbefore⟩ := h.unread
  have hall : b.allTokens = before ++ (s.unread ++ [s.finish]) := by
    rw [h.finish, ← List.append_assoc, hbefore]
    rfl
  rw [State.current]
  cases hunread : s.unread with
  | nil => exact ⟨before, [], by rw [hall, hunread], rfl⟩
  | cons t rest => exact ⟨before, rest ++ [s.finish], by rw [hall, hunread], rfl⟩

theorem current (h : b.Reaches s) : s.current ∈ b.allTokens := by
  obtain ⟨before, behind, hall, hcurrent⟩ := h.allTokens_eq
  rw [hall, hcurrent]
  exact List.mem_append_right _ List.mem_cons_self

end Buffer.Reaches

namespace Grammar

/-! ## Parsers

The rules for `Gives` run through a parser from the front to the end. The state that a parser
starts in is part of the statement, as the token whose place a node takes is the current token of
an earlier state. -/

/-- What the parser yields from the state `s` has the property `Q`, if the state is reached while
the buffer is read. -/
def Gives (b : Buffer) (p : Parser α) (s : State) (Q : α → Prop) : Prop :=
  b.Reaches s → ∀ a s', p s = .ok a s' → b.Reaches s' ∧ Q a

namespace Gives

variable {p : Parser α} {q : α → Parser β} {Q : α → Prop} {R : β → Prop} {s : State} {t : Token}

/-- Nothing may be said of the value. -/
theorem of_regular (h : Regular p) : Gives b p s fun _ => True :=
  fun hs _ _ hok => ⟨hs.moves (h.ok hok), trivial⟩

theorem pure {a : α} (h : Q a) : Gives b (Pure.pure a : Parser α) s Q := by
  intro hs a' s' hok
  obtain ⟨rfl, rfl⟩ := Parser.pure_eq_ok.mp hok
  exact ⟨hs, h⟩

theorem bind (hp : Gives b p s Q) (hq : ∀ a s', Q a → Gives b (q a) s' R) :
    Gives b (p >>= q) s R := by
  intro hs c s'' hok
  obtain ⟨a, s', hfirst, hsecond⟩ := Parser.bind_eq_ok.mp hok
  obtain ⟨hs', ha⟩ := hp hs a s' hfirst
  exact hq a s' ha hs' c s'' hsecond

/-- In front stands a parser whose value does not matter. -/
theorem after (hp : Regular p) (hq : ∀ a s', Gives b (q a) s' R) : Gives b (p >>= q) s R :=
  bind (of_regular hp) fun a s' _ => hq a s'

theorem ite {c : Prop} [Decidable c] {p' : Parser α} (hp : Gives b p s Q) (hp' : Gives b p' s Q) :
    Gives b (if c then p else p') s Q := by
  split
  · exact hp
  · exact hp'

theorem fail (issue : Issue) : Gives b (Parser.fail issue : Parser α) s Q :=
  fun _ _ _ hok => absurd hok Parser.fail_ne_ok

theorem failExpecting (what : Expectation) : Gives b (Parser.failExpecting what : Parser α) s Q :=
  fun _ _ _ hok => absurd hok Parser.failExpecting_ne_ok

theorem get {q : State → Parser β} (h : Gives b (q s) s R) : Gives b (get >>= q) s R := h

theorem current {q : Token → Parser β} (h : s.current ∈ b.allTokens → Gives b (q s.current) s R) :
    Gives b (Parser.current >>= q) s R := fun hs => h hs.current hs

theorem take {q : Token → Parser β}
    (h : s.current ∈ b.allTokens → Gives b (q s.current) s.advance R) :
    Gives b (Parser.take >>= q) s R := fun hs => h hs.current hs.advance

theorem locate {q : Location → Parser β} (h : Gives b (q ⟨b.name, t.position⟩) s R) :
    Gives b (Parser.locate t >>= q) s R := by
  intro hs
  rw [← hs.locate t] at h
  exact h hs

theorem expect (kind : Kind) (place : Place) :
    Gives b (Parser.expect kind place) s fun t => t ∈ b.allTokens ∧ t.kind = kind := by
  intro hs t s' hok
  obtain ⟨rfl, hk, rfl⟩ := Parser.expect_eq_ok.mp hok
  exact ⟨hs.advance, hs.current, hk⟩

/-- A value that is put at the place of a token. -/
theorem located (f : Location → α) (h : Q (f ⟨b.name, t.position⟩)) :
    Gives b (do return f (← Parser.locate t)) s Q := locate (pure h)

/-! ## Expressions

The node of an operator stands at the operator, and its left side was read before. What `climb`
yields is therefore placed only if the expression that it is given is. -/

/-- All nodes of an expression carry the places of their tokens. -/
abbrev PlacedExpr (b : Buffer) (e : Expr) : Prop := b.Places e.nodes

theorem numberLiteral (ht : t ∈ b.allTokens) (hk : t.kind = .number) :
    Gives b (Parser.numberLiteral t) s (PlacedExpr b) := by
  refine locate ?_
  split
  · next value hvalue => exact pure (.one ⟨t, ht, rfl, hk, .inl hvalue⟩)
  · next value hvalue => exact pure (.one ⟨t, ht, rfl, hk, hvalue⟩)
  · next hnone =>
    exact after (.complain rfl t) fun _ _ => pure (.one ⟨t, ht, rfl, hk, .inr ⟨hnone, rfl⟩⟩)

theorem charLiteral (ht : t ∈ b.allTokens) (hk : t.kind = .charLiteral) :
    Gives b (Parser.charLiteral t) s (PlacedExpr b) := by
  refine locate ?_
  split
  · next c hc => exact pure (.one ⟨t, ht, rfl, hk, by rw [hc]; rfl⟩)
  · next hnone =>
    exact after (.complain rfl t) fun _ _ => pure (.one ⟨t, ht, rfl, hk, by rw [hnone]; rfl⟩)

theorem stepNode (ht : t ∈ b.allTokens) {step : Step} {overflow : Overflow}
    (hk : t.kind = .step step overflow) (fixity : Fixity) {operand : Expr}
    (hoperand : PlacedExpr b operand) :
    Gives b (Parser.stepNode t step overflow fixity operand) s (PlacedExpr b) :=
  after (.checkTarget operand) fun _ _ =>
    located _ (.cons ⟨t, ht, rfl, Buffer.lexeme_of_kind ht hk rfl⟩ hoperand)

theorem extendOperand {climb : Nat → Expr → Parser Expr}
    (hclimb : ∀ least lhs s, PlacedExpr b lhs → Gives b (climb least lhs) s (PlacedExpr b))
    (op : BinaryOp) {operand : Expr} (hoperand : PlacedExpr b operand) :
    Gives b (Parser.extendOperand climb op operand) s (PlacedExpr b) := by
  refine current fun _ => ?_
  split
  · exact hclimb _ _ _ hoperand
  · exact pure hoperand

/-- What the parsers of expressions yield with some fuel: one field for each of those that call
each other, so that one induction on the fuel serves all of them. -/
structure Expressions (b : Buffer) (fuel : Nat) : Prop where
  expression : ∀ s, Gives b (Parser.expressionWithin fuel) s (PlacedExpr b)
  climb : ∀ least lhs s, PlacedExpr b lhs →
    Gives b (Parser.climbWithin fuel least lhs) s (PlacedExpr b)
  unary : ∀ s, Gives b (Parser.unaryWithin fuel) s (PlacedExpr b)
  primary : ∀ s, Gives b (Parser.primaryWithin fuel) s (PlacedExpr b)
  arguments : ∀ s, Gives b (Parser.argumentsWithin fuel) s fun es => b.Places (Expr.nodesEach es)
  expressions : ∀ s,
    Gives b (Parser.expressionsWithin fuel) s fun es => b.Places (Expr.nodesEach es)

namespace Expressions

variable {fuel : Nat}

theorem zero : Expressions b 0 where
  expression _ := failExpecting _
  climb _ _ _ _ := failExpecting _
  unary _ := failExpecting _
  primary _ := failExpecting _
  arguments _ := failExpecting _
  expressions _ := failExpecting _

variable (ih : Expressions b fuel)
include ih

theorem climb_succ (least : Nat) {lhs : Expr} (s : State) (hlhs : PlacedExpr b lhs) :
    Gives b (Parser.climbWithin (fuel + 1) least lhs) s (PlacedExpr b) := by
  rw [Parser.climbWithin]
  refine current fun ht => ?_
  split
  · next step overflow hk =>
    refine ite (pure hlhs) (after .advance fun _ _ => ?_)
    exact bind (stepNode ht hk _ hlhs) fun node s' hnode => ih.climb least node s' hnode
  · next op hk =>
    refine ite (pure hlhs) (after .advance fun _ s' => bind (ih.unary s') fun operand _ ho => ?_)
    refine bind (extendOperand ih.climb op ho) fun rhs _ hrhs => ?_
    refine after (.onlyIf _ (.checkTarget lhs)) fun _ s' => locate ?_
    refine ih.climb least _ s' (.cons ⟨s.current, ht, rfl, ?_⟩ (hlhs.append hrhs))
    exact Buffer.lexeme_of_kind ht hk rfl
  · exact pure hlhs

theorem unary_succ (s : State) :
    Gives b (Parser.unaryWithin (fuel + 1)) s (PlacedExpr b) := by
  rw [Parser.unaryWithin]
  refine current fun ht => ?_
  split
  · next op hop =>
    -- the lexeme of the token is the spelling of its kind, and so that of the operator
    have hlexeme : s.current.lexeme = op.symbol := by
      unfold Parser.unaryOp? at hop
      split at hop
      · next hk => cases hop; exact Buffer.lexeme_of_kind ht hk rfl
      · next hk => cases hop; exact Buffer.lexeme_of_kind ht hk rfl
      · next hk => cases hop; exact Buffer.lexeme_of_kind ht hk rfl
      · cases hop
    refine after .advance ?_
    intro _ s'
    apply bind (ih.unary s')
    intro operand _ hoperand
    exact located _ (.cons ⟨s.current, ht, rfl, hlexeme⟩ hoperand)
  · split
    · next hk =>
      refine after .advance ?_
      intro _ s'
      apply bind (ih.primary s')
      intro operand _ hoperand
      exact stepNode ht hk _ hoperand
    · exact ih.primary s

theorem primary_succ (s : State) :
    Gives b (Parser.primaryWithin (fuel + 1)) s (PlacedExpr b) := by
  rw [Parser.primaryWithin]
  refine current fun ht => ?_
  split
  · next hk => exact after .advance fun _ _ => numberLiteral ht hk
  · next hk =>
    exact after .advance fun _ _ =>
      located _ (.one ⟨s.current, ht, rfl, Buffer.lexeme_of_kind ht hk rfl⟩)
  · next hk =>
    exact after .advance fun _ _ =>
      located _ (.one ⟨s.current, ht, rfl, Buffer.lexeme_of_kind ht hk rfl⟩)
  · next hk => exact after .advance fun _ _ => located _ (.one ⟨s.current, ht, rfl, hk, rfl⟩)
  · next hk => exact after .advance fun _ _ => charLiteral ht hk
  · next hk =>
    refine after .lookahead fun next _ => ite ?_ ?_
    · refine after .advance ?_
      intro _ _
      refine after .advance ?_
      intro _ s'
      apply bind (ih.arguments s')
      intro args _ hargs
      refine after (.expect _ _) ?_
      intro _ _
      exact located _ (.cons ⟨s.current, ht, rfl, hk, rfl⟩ hargs)
    · refine after .advance fun _ _ => get ?_
      exact after (.onlyIf _ (.complain rfl _)) fun _ _ =>
        located _ (.one ⟨s.current, ht, rfl, hk, rfl⟩)
  · refine after .advance ?_
    intro _ s'
    apply bind (ih.expression s')
    intro e _ he
    refine after (.expect _ _) ?_
    intro _ _
    exact pure he
  · exact failExpecting _

theorem succ : Expressions b (fuel + 1) where
  expression s := by
    rw [Parser.expressionWithin]
    exact bind (ih.unary s) fun lhs s' hlhs => ih.climb 0 lhs s' hlhs
  climb least _ s hlhs := ih.climb_succ least s hlhs
  unary := ih.unary_succ
  primary := ih.primary_succ
  arguments s := by
    rw [Parser.argumentsWithin]
    exact current fun _ => ite (pure .nil) (ih.expressions s)
  expressions s := by
    rw [Parser.expressionsWithin]
    refine bind (ih.expression s) fun e _ he => after (.accept _) fun _ s' => ite ?_ ?_
    · exact bind (ih.expressions s') fun es _ hes => pure (he.append hes)
    · exact pure (he.append .nil)

end Expressions

theorem expressionParsers (b : Buffer) (fuel : Nat) : Expressions b fuel := by
  induction fuel with
  | zero => exact .zero
  | succ fuel ih => exact ih.succ

theorem expression (s : State) : Gives b Parser.expression s (PlacedExpr b) :=
  get ((expressionParsers b _).expression s)

theorem expressions (s : State) :
    Gives b Parser.expressions s fun es => b.Places (Expr.nodesEach es) :=
  get ((expressionParsers b _).expressions s)

/-! ## Types and arguments

A type that is written is known by its token. An argument has the place of its name, and its type
has a place of its own. -/

/-- A type carries the place of its word. This holds of the types that are written; a return type
that is left out has no word. -/
def PlacedType (b : Buffer) (e : TypeExpr) : Prop :=
  ∃ t ∈ b.allTokens, e.loc = ⟨b.name, t.position⟩ ∧ e.KnownBy t

theorem PlacedType.places {e : TypeExpr} (h : PlacedType b e) : b.Places [.type e] := .one h

theorem typeExpr (place : Place) (s : State) :
    Gives b (Parser.typeExpr place) s (PlacedType b) := by
  refine current fun ht => ?_
  split
  · next hk =>
    exact after .advance fun _ _ =>
      located _ ⟨s.current, ht, rfl, Buffer.lexeme_of_kind ht hk rfl⟩
  · exact after .advance fun _ _ => located _ ⟨s.current, ht, rfl, rfl⟩
  · exact after .advance fun _ _ => located _ ⟨s.current, ht, rfl, rfl⟩
  · exact failExpecting _

theorem furtherTypes (fuel : Nat) (s : State) :
    Gives b (Parser.furtherTypes fuel) s fun es => ∀ e ∈ es, PlacedType b e := by
  induction fuel generalizing s with
  | zero => exact pure (List.forall_mem_nil _)
  | succ fuel ih =>
      refine after (.accept _) fun _ s' => ite ?_ (pure (List.forall_mem_nil _))
      refine bind (typeExpr _ s') ?_
      intro e s' he
      apply bind (ih s')
      intro es _ hes
      exact pure (List.forall_mem_cons.mpr ⟨he, hes⟩)

/-- The nodes of some arguments. -/
abbrev paramNodes (params : List Param) : List Node :=
  params.flatMap fun p => [.param p, .type p.type]

theorem param (before : List Param) (s : State) :
    Gives b (Parser.param before) s fun p => b.Places [.param p, .type p.type] := by
  refine bind (expect _ _) fun name _ ⟨ht, hk⟩ => ?_
  refine after (.onlyIf _ (.complain rfl name)) ?_
  intro _ _
  refine after (.expect _ _) ?_
  intro _ s'
  refine bind (typeExpr _ s') fun type _ htype => ?_
  refine after (.onlyIf _ (.complain rfl name)) fun _ _ => located (Param.mk name.lexeme type) ?_
  exact .cons ⟨name, ht, rfl, hk, rfl⟩ htype.places

theorem paramsFrom (fuel : Nat) {before : List Param} (s : State)
    (hbefore : b.Places (paramNodes before)) :
    Gives b (Parser.paramsFrom fuel before) s fun ps => b.Places (paramNodes ps) := by
  induction fuel generalizing before s with
  | zero => exact pure hbefore
  | succ fuel ih =>
      apply bind (param before s)
      intro p _ hp
      refine after (.accept _) ?_
      intro _ s'
      have hall : b.Places (paramNodes (before ++ [p])) := by
        rw [paramNodes, List.flatMap_append]
        exact hbefore.append hp
      exact ite (ih s' hall) (pure hall)

theorem params (s : State) :
    Gives b Parser.params s fun ps => b.Places (paramNodes ps) :=
  get (ite (pure .nil) (paramsFrom _ s .nil))

end Gives

/-! ## Up to the end of an argument list

Between the name of a function and the end of its argument list stand names, words of types,
colons, commas and one opening parenthesis. Each of these parsers takes tokens of kinds of its own
only, and none of the kinds is the closing parenthesis; `Over` says so of the stretch from one
state to a later one. The first closing parenthesis behind the name is then the end of the list. -/

/-- From `s` to `s'` no closing parenthesis was passed. The next one to come is then the one that
ends the arguments. -/
def Over (s s' : State) : Prop :=
  ∃ inner, s.unread = inner ++ s'.unread ∧ ∀ x ∈ inner, x.kind ≠ .mark .rightParen

/-- Nothing is said. Of most parsers it does not matter over which tokens they go. -/
def Anything : State → State → Prop := fun _ _ => True

namespace Over

variable {s s' s'' : State} {p : Parser α} {q : α → Parser β}

theorem of_unread (h : s'.unread = s.unread) : Over s s' :=
  ⟨[], h.symm, fun _ hx => absurd hx List.not_mem_nil⟩

theorem trans (h : Over s s') (h' : Over s' s'') : Over s s'' := by
  obtain ⟨inner, hinner, hall⟩ := h
  obtain ⟨inner', hinner', hall'⟩ := h'
  exact ⟨inner ++ inner', by rw [hinner, hinner', List.append_assoc],
    List.forall_mem_append.mpr ⟨hall, hall'⟩⟩

theorem advance (hk : s.current.kind ≠ .mark .rightParen) : Over s s.advance := by
  rw [Over, State.advance, State.settle_unread]
  rw [State.current] at hk
  cases hunread : s.unread with
  | nil => exact ⟨[], rfl, fun _ hx => absurd hx List.not_mem_nil⟩
  | cons t rest =>
      rw [hunread] at hk
      obtain ⟨skipped, heq, hskipped⟩ := exists_append_dropInvalid rest
      refine ⟨t :: skipped, congrArg (t :: ·) heq, List.forall_mem_cons.mpr ⟨hk, fun x hx => ?_⟩⟩
      rw [hskipped x hx]
      simp

theorem bind (hp : Leads Over Anything p) (hq : ∀ a, Leads Over Anything (q a)) :
    Leads Over Anything (p >>= q) :=
  hp.bind hq trans (fun _ => trivial) fun _ _ => trivial

theorem pure (a : α) : Leads Over Anything (Pure.pure a : Parser α) where
  ok h := by cases h; exact of_unread rfl
  error _ := trivial

theorem complainIf (condition : Bool) (issue : Issue) (t : Token) :
    Leads Over Anything (Parser.onlyIf condition (Parser.complain issue t)) :=
  Compositional.ite (.update fun s => of_unread (s.report_unread _)) (pure ())

theorem expect {kind : Kind} (hk : kind ≠ .mark .rightParen) (place : Place) :
    Leads Over Anything (Parser.expect kind place) where
  ok h := by
    obtain ⟨-, hkind, rfl⟩ := Parser.expect_eq_ok.mp h
    exact advance (hkind ▸ hk)
  error _ := trivial

theorem accept {kind : Kind} (hk : kind ≠ .mark .rightParen) :
    Leads Over Anything (Parser.accept kind) where
  ok h := by
    rcases Parser.accept_eq_ok.mp h with ⟨-, hkind, rfl⟩ | ⟨-, -, rfl⟩
    · exact advance (hkind ▸ hk)
    · exact of_unread rfl
  error _ := trivial

theorem typeExpr (place : Place) : Leads Over Anything (Parser.typeExpr place) where
  ok {s e s'} h := by
    have hadvance (hk : s.current.kind ≠ .mark .rightParen) : Over s s.advance := advance hk
    rw [Parser.typeExpr, Parser.current_bind] at h
    generalize s.current.kind = k at h hadvance
    split at h
    · cases h; exact hadvance (by simp)
    · cases h; exact hadvance (by simp)
    · cases h; exact hadvance (by simp)
    · exact absurd h Parser.failExpecting_ne_ok
  error _ := trivial

theorem locate (t : Token) : Leads Over Anything (Parser.locate t) where
  ok h := by cases h; exact of_unread rfl
  error _ := trivial

theorem declareFunction (name : Token) (isExtern : Bool) :
    Leads Over Anything (Parser.declareFunction name isExtern) := by
  refine bind (.update fun s => of_unread ?_) fun _ => bind (locate name) fun _ =>
    .update fun s => of_unread ?_
  · dsimp only
    split <;> rfl
  · split
    · rfl
    · exact s.report_unread _

theorem param (before : List Param) : Leads Over Anything (Parser.param before) := by
  refine bind (expect (by simp) _) ?_
  intro name
  refine bind (complainIf ..) ?_
  intro _
  refine bind (expect (by simp) _) ?_
  intro _
  refine bind (typeExpr _) ?_
  intro _
  refine bind (complainIf ..) ?_
  intro _
  apply bind (locate name)
  intro _
  exact pure _

theorem paramsFrom (fuel : Nat) (before : List Param) :
    Leads Over Anything (Parser.paramsFrom fuel before) := by
  induction fuel generalizing before with
  | zero => exact pure _
  | succ fuel ih =>
      apply bind (param before)
      intro _
      apply bind (accept (by simp))
      intro _
      exact Compositional.ite (ih _) (pure _)

theorem params : Leads Over Anything Parser.params where
  ok {s ps s'} h := by
    rw [Parser.params, Parser.get_bind] at h
    split at h
    · cases h; exact of_unread rfl
    · exact (paramsFrom _ _).ok h
  error _ := trivial

end Over

/-- A current token that is not the end of the file is the first unread one. -/
theorem unread_eq_cons {s : State} (hend : s.HasEnd) (hk : s.current.kind ≠ .endOfFile) :
    ∃ rest, s.unread = s.current :: rest := by
  rw [State.current] at hk ⊢
  cases hunread : s.unread with
  | nil =>
      rw [hunread] at hk
      exact absurd hend hk
  | cons t rest => exact ⟨rest, rfl⟩

/-- Behind a token that was taken the current one is valid. -/
theorem advance_current_valid {s : State} (hend : s.HasEnd) :
    s.advance.current.kind ≠ .invalid := by
  have hfinish : s.advance.finish = s.finish := State.settle_finish _ _
  have hhead := dropInvalid_head s.unread.tail
  rw [← State.settle_unread s] at hhead
  rw [State.current]
  cases hunread : s.advance.unread with
  | nil =>
      show s.advance.finish.kind ≠ .invalid
      rw [hfinish, show s.finish.kind = .endOfFile from hend]
      simp
  | cons t rest => exact hhead t (by rw [State.advance] at hunread; rw [hunread]; rfl)

/-- Taking a token passes the invalid ones behind it. -/
theorem unread_advance {s : State} {t : Token} {rest : List Token} (h : s.unread = t :: rest) :
    ∃ skipped, rest = skipped ++ s.advance.unread ∧ ∀ x ∈ skipped, x.kind = .invalid := by
  rw [State.advance, State.settle_unread, h]
  exact exists_append_dropInvalid rest

/-- The token behind the closing parenthesis that comes next behind a name. In `s` the name is the
current token, in `s'` the parenthesis, and what is taken between them has none. -/
theorem endsHead {s s' : State} (hs : b.Reaches s) (hs' : b.Reaches s')
    (hname : s.current.kind = .identifier) (hover : Over s.advance s')
    (hright : s'.current.kind = .mark .rightParen) {head : Prototype}
    (hloc : head.loc = ⟨b.name, s.current.position⟩) : b.EndsHead head s'.advance.current := by
  have hend {t : State} (ht : b.Reaches t) : t.HasEnd := b.startState_hasEnd.moves ht
  obtain ⟨rest, hrest⟩ := unread_eq_cons (hend hs) (by rw [hname]; simp)
  obtain ⟨rest', hrest'⟩ := unread_eq_cons (hend hs') (by rw [hright]; simp)
  obtain ⟨skipped, hskipped, hinvalid⟩ := unread_advance hrest
  obtain ⟨skipped', hskipped', hinvalid'⟩ := unread_advance hrest'
  obtain ⟨inner, hinner, hparen⟩ := hover
  obtain ⟨before, -, hall, -⟩ := hs.allTokens_eq
  obtain ⟨-, behind, -, hcurrent⟩ := hs'.advance.allTokens_eq
  have hfinish : s.finish = s'.advance.finish := hs.finish.trans hs'.advance.finish.symm
  -- Between the two lie the tokens that were skipped behind the name and those that were taken.
  refine ⟨before, s.current, skipped ++ inner, s'.current, skipped', behind, ?_, hloc,
    List.forall_mem_append.mpr ⟨fun x hx => ?_, hparen⟩, hright, hinvalid',
    advance_current_valid (hend hs')⟩
  · rw [hall, hrest, hskipped, hinner, hrest', hskipped', hfinish, ← hcurrent]
    simp only [List.cons_append, List.append_assoc]
  · rw [hinvalid x hx]
    simp

/-! ## The heads of functions

Here the rules for `Gives` do not suffice. What a head yields depends on two states that lie far
apart, the one with the name and the one behind the arguments, so the run is taken apart into its
states. -/

namespace Gives

variable {s : State}

/-- Return types are written behind a colon. Without a colon there is one, at the current token. -/
theorem returnTypes (isExtern : Bool) :
    Gives b (Parser.returnTypes isExtern) s fun es =>
      s.current.kind = .mark .colon ∧ (∀ e ∈ es, PlacedType b e) ∨
        s.current.kind ≠ .mark .colon ∧ es = [TypeExpr.void ⟨b.name, s.current.position⟩] := by
  intro hs es s' hreturns
  obtain ⟨written, s1, haccept, hok⟩ := Parser.bind_eq_ok.mp hreturns
  rcases Parser.accept_eq_ok.mp haccept with ⟨rfl, hk, rfl⟩ | ⟨rfl, hk, rfl⟩
  · have hwritten : Gives b (do
        let first ← Parser.typeExpr (.behind (.mark .colon))
        return first :: (← Parser.furtherTypes (← getThe State).unread.length)) s.advance
        fun es => ∀ e ∈ es, PlacedType b e :=
      bind (typeExpr _ _) fun first s1 hfirst => get (bind (furtherTypes _ s1) fun es _ hes =>
        pure (List.forall_mem_cons.mpr ⟨hfirst, hes⟩))
    obtain ⟨hs', hes⟩ := hwritten hs.advance es s' hok
    exact ⟨hs', .inl ⟨hk, hes⟩⟩
  · -- without a colon the type is located at the token that follows, which stays unread
    have homitted : Gives b (do
        let t ← Parser.current
        if isExtern ∨ t.kind = .mark .leftBrace then return [TypeExpr.void (← Parser.locate t)]
        else Parser.failExpecting .returnTypeOrBody) s1
        fun es => es = [TypeExpr.void ⟨b.name, s1.current.position⟩] :=
      current fun _ => ite (located (fun loc => [TypeExpr.void loc]) rfl) (failExpecting _)
    obtain ⟨hs', hes⟩ := homitted hs es s' hok
    exact ⟨hs', .inr ⟨hk, hes⟩⟩

theorem prototype (isExtern : Bool) :
    Gives b (Parser.prototype isExtern) s fun head => b.Places head.nodes := by
  intro hs head s' hok
  -- The states in turn: at the name, behind it, behind its declaration, behind the opening
  -- parenthesis, at the closing one, behind it, and behind the return types.
  rw [Parser.prototype, Parser.take_bind] at hok
  obtain ⟨name, s1, hname, hok⟩ := Parser.bind_eq_ok.mp hok
  obtain ⟨rfl, hident, rfl⟩ := Parser.expect_eq_ok.mp hname
  obtain ⟨_, s2, hdeclare, hok⟩ := Parser.bind_eq_ok.mp hok
  obtain ⟨_, s3, hleft, hok⟩ := Parser.bind_eq_ok.mp hok
  obtain ⟨ps, s4, hparams, hok⟩ := Parser.bind_eq_ok.mp hok
  obtain ⟨_, s5, hright, hok⟩ := Parser.bind_eq_ok.mp hok
  obtain ⟨rfl, hparen, rfl⟩ := Parser.expect_eq_ok.mp hright
  obtain ⟨returns, s6, hreturns, hok⟩ := Parser.bind_eq_ok.mp hok
  have hs1 := hs.advance
  have hs2 := hs1.advance.moves ((Regular.grammar.declareFunction ..).ok hdeclare)
  have hs3 := hs2.moves ((Regular.expect ..).ok hleft)
  obtain ⟨hs4, hps⟩ := params s3 hs3 ps s4 hparams
  obtain ⟨hs6, hes⟩ := returnTypes isExtern hs4.advance returns s6 hreturns
  rw [Parser.locate_bind, hs6.locate] at hok
  obtain ⟨rfl, rfl⟩ := Parser.pure_eq_ok.mp hok
  have hover : Over s.advance.advance s4 :=
    (((Over.declareFunction ..).ok hdeclare).trans ((Over.expect (by simp) _).ok hleft)).trans
      (Over.params.ok hparams)
  refine ⟨hs6, .cons ⟨_, hs1.current, rfl, hident, rfl⟩ (hps.append fun n hn => ?_)⟩
  obtain ⟨e, he, rfl⟩ := List.mem_map.mp hn
  rcases hes with ⟨hcolon, hall⟩ | ⟨hcolon, rfl⟩
  · obtain ⟨t, ht, hloc, hknown⟩ := hall e he
    exact ⟨t, ht, hloc, .inl ⟨⟨_, endsHead hs1 hs4 hident hover hparen rfl, hcolon⟩, hknown⟩⟩
  · obtain rfl := List.mem_singleton.mp he
    exact ⟨_, hs4.advance.current, rfl,
      .inr ⟨endsHead hs1 hs4 hident hover hparen rfl, hcolon, rfl, rfl⟩⟩

/-! ## Statements

A binding stands at its name, which is taken before its type and its value are read. The parts of
a binding are therefore given to `finishBinding` together with what is known of them. -/

theorem finishBinding {name : Token} (ht : name ∈ b.allTokens) (hk : name.kind = .identifier)
    {type : Option TypeExpr} {init : Option Expr} (htype : ∀ e ∈ type, PlacedType b e)
    (hinit : ∀ e ∈ init, PlacedExpr b e) (mutability : Mutability) :
    Gives b (Parser.finishBinding name type init mutability) s fun node => b.Places node.nodes := by
  refine locate (after (.declare _ name) fun _ _ => pure (.cons ⟨name, ht, rfl, hk, rfl⟩ ?_))
  refine .append (fun n hn => ?_) ?_
  · obtain ⟨e, he, rfl⟩ := List.mem_map.mp hn
    exact htype e (Option.mem_toList.mp he)
  · cases init with
    | none => exact .nil
    | some e => exact (hinit e rfl).append .nil

theorem optionalType (s : State) :
    Gives b Parser.optionalType s fun type => ∀ e ∈ type, PlacedType b e := by
  refine after (.accept _) fun _ s' => ite ?_ (pure nofun)
  refine bind (typeExpr _ s') ?_
  intro e _ he
  apply pure
  intro e' he'
  cases he'
  exact he

theorem optionalInit (s : State) :
    Gives b Parser.optionalInit s fun init => ∀ e ∈ init, PlacedExpr b e := by
  refine after (.accept _) fun _ s' => ite ?_ (pure nofun)
  apply bind (expression s')
  intro e _ he
  apply pure
  intro e' he'
  cases he'
  exact he

/-- All nodes of a statement carry the places of their tokens. -/
abbrev PlacedStatement (b : Buffer) (node : Statement) : Prop := b.Places node.nodes

theorem keywordBinding : Gives b Parser.keywordBinding s (PlacedStatement b) := by
  apply take
  intro _
  refine bind (expect _ _) ?_
  rintro name s1 ⟨ht, hk⟩
  apply bind (optionalType s1)
  intro type s2 htype
  apply bind (optionalInit s2)
  intro init _ hinit
  refine after (.accept _) ?_
  intro _ _
  refine after (.onlyIf _ (.complain rfl name)) ?_
  intro _ _
  exact finishBinding ht hk htype hinit _

theorem returnStatement (hk : s.current.kind = .word .returnWord) :
    Gives b Parser.returnStatement s (PlacedStatement b) := by
  refine take fun ht => get (after (.onlyIf _ (.complain rfl _)) fun _ s' => ?_)
  have hvalues : Gives b Parser.returnValues s' fun es => b.Places (Expr.nodesEach es) :=
    current fun _ => ite (pure .nil) (expressions _)
  apply bind hvalues
  intro values _ hvalues
  refine after (.accept _) ?_
  intro _ _
  exact located (Statement.ret values)
    (.cons ⟨s.current, ht, rfl, Buffer.lexeme_of_kind ht hk rfl⟩ hvalues)

section

variable {inner : Parser (List Statement)}
  (hinner : ∀ s, Gives b inner s fun nodes => b.Places (Statement.nodesEach nodes))
include hinner

theorem block : Gives b (Parser.block inner) s fun result =>
    b.Places (.block result.2 :: Statement.nodesEach result.1) := by
  refine bind (expect _ _) ?_
  rintro opening _ ⟨ht, hk⟩
  refine after (.pushScope _) ?_
  intro _ s'
  apply bind (hinner s')
  intro statements _ hstatements
  refine after .popScope ?_
  intro _ _
  refine located (Prod.mk statements) (.cons ⟨opening, ht, rfl, ?_⟩ hstatements)
  exact Buffer.lexeme_of_kind ht hk rfl

theorem namedBlock {name : Token} (ht : name ∈ b.allTokens) (hk : name.kind = .identifier) :
    Gives b (Parser.namedBlock inner name) s (PlacedStatement b) := by
  refine get (after (.onlyIf _ (.complain rfl name)) fun _ _ => ?_)
  refine bind (block hinner) fun result _ hblock => ?_
  obtain ⟨statements, loc⟩ := result
  exact locate (pure (.cons ⟨name, ht, rfl, hk, rfl⟩ hblock))

theorem nameBinding (hk : s.current.kind = .identifier) :
    Gives b (Parser.nameBinding inner) s (PlacedStatement b) := by
  have hsigned (ht : s.current ∈ b.allTokens) (mutability : Mutability) (s' : State) :
      Gives b (do
        let node ← Parser.finishBinding s.current none (some (← Parser.expression)) mutability
        let _ ← Parser.accept (.mark .semicolon)
        return node) s' (PlacedStatement b) := by
    have hnone : ∀ e ∈ (none : Option TypeExpr), PlacedType b e := nofun
    refine bind (expression s') fun e _ he => ?_
    refine bind (finishBinding ht hk hnone ?_ _) fun node _ hnode =>
      after (.accept _) fun _ _ => pure hnode
    rintro e' ⟨⟩
    exact he
  apply take
  intro ht
  apply take
  intro _
  split
  · exact hsigned ht .mutable _
  · exact hsigned ht .constant _
  · refine current fun _ => ite (namedBlock hinner ht hk) ?_
    refine bind (typeExpr _ _) ?_
    intro type s1 htype
    apply bind (optionalInit s1)
    intro init _ hinit
    refine bind (finishBinding ht hk ?_ hinit _) fun node _ hnode =>
      after (.accept _) fun _ _ => pure hnode
    rintro e ⟨⟩
    exact htype

theorem statement (s : State) :
    Gives b (Parser.statement inner) s fun node => ∀ x ∈ node, PlacedStatement b x := by
  have hsome {p : Parser Statement} {s' : State} (hp : Gives b p s' (PlacedStatement b)) :
      Gives b (do return some (← p)) s' fun node => ∀ x ∈ node, PlacedStatement b x := by
    refine bind hp fun x _ hx => pure ?_
    rintro x' ⟨⟩
    exact hx
  refine get ?_
  split
  · exact hsome keywordBinding
  · exact hsome keywordBinding
  · exact hsome keywordBinding
  · next hk => exact hsome (returnStatement hk)
  · refine bind (block hinner) fun result _ hblock => ?_
    obtain ⟨statements, loc⟩ := result
    refine pure ?_
    rintro x ⟨⟩
    exact hblock
  · exact after .advance fun _ _ => pure nofun
  · exact fail _
  · exact fail _
  · exact fail _
  · exact fail _
  · split
    · next hstarts => exact hsome (nameBinding hinner (State.current_of_startsBinding hstarts))
    · refine bind (expression s) fun e _ he => after (.expect _ _) fun _ _ => pure ?_
      rintro x ⟨⟩
      exact he

end

/-- All nodes of some statements carry the places of their tokens. -/
abbrev PlacedStatements (b : Buffer) (nodes : List Statement) : Prop :=
  b.Places (Statement.nodesEach nodes)

/-- What holds of all nodes that a statement yields holds of those that a sequence of them yields.
The property is any, since another one is followed through the same loop elsewhere. -/
theorem statementsWithin_forall {N : Node → Prop}
    (h : ∀ {inner : Parser (List Statement)},
      (∀ s, Gives b inner s fun nodes => ∀ n ∈ Statement.nodesEach nodes, N n) →
        ∀ s, Gives b (Parser.statement inner) s fun node => ∀ x ∈ node, ∀ n ∈ x.nodes, N n)
    (fuel : Nat) (s : State) :
    Gives b (Parser.statementsWithin fuel) s fun nodes => ∀ n ∈ Statement.nodesEach nodes, N n := by
  induction fuel generalizing s with
  | zero =>
      intro hs nodes s' hok
      cases hok
      exact ⟨hs.moves (Regular.closeBlock s), List.forall_mem_nil _⟩
  | succ fuel ih =>
      intro hs nodes s'' hok
      rcases Parser.statementsWithin_cases hok with
        ⟨-, rfl, rfl⟩ | ⟨-, node, rest, next, hnode, hrest, rfl⟩ | ⟨-, failure, next, hnode, hrest⟩
      · exact ⟨hs.moves (Regular.closeBlock s), List.forall_mem_nil _⟩
      · obtain ⟨hnext, hfirst⟩ := h ih _ hs.exitPanic node next hnode
        obtain ⟨hlast, hothers⟩ := ih next hnext rest s'' hrest
        cases node with
        | none => exact ⟨hlast, hothers⟩
        | some x => exact ⟨hlast, List.forall_mem_append.mpr ⟨hfirst x rfl, hothers⟩⟩
      · -- a statement that fails leaves no node, wherever reading goes on
        obtain ⟨hm, hard⟩ := (Regular.statement (Regular.statementsWithin fuel)).error hnode
        exact ih _ ((hs.exitPanic.moves hm).moves (Regular.recover hard next _)) nodes s'' hrest

theorem statementsWithin (fuel : Nat) (s : State) :
    Gives b (Parser.statementsWithin fuel) s (PlacedStatements b) :=
  statementsWithin_forall statement fuel s

theorem statements (s : State) : Gives b Parser.statements s (PlacedStatements b) :=
  get (statementsWithin _ s)

/-! ## Files -/

/-- All nodes of a declaration carry the places of their tokens. -/
abbrev PlacedDeclaration (b : Buffer) (node : Declaration) : Prop := b.Places node.nodes

theorem functionBody : Gives b Parser.functionBody s fun result =>
    b.Places (.block result.2 :: Statement.nodesEach result.1) := by
  refine bind (expect _ _) ?_
  rintro opening s1 ⟨ht, hk⟩
  apply bind (statements s1)
  intro body _ hbody
  exact located (Prod.mk body) (.cons ⟨opening, ht, rfl, Buffer.lexeme_of_kind ht hk rfl⟩ hbody)

theorem withinFunction {body : Parser α} {Q : α → Prop} (params : List Param)
    (hbody : ∀ s, Gives b body s Q) : Gives b (Parser.withinFunction params body) s Q := by
  intro hs a s' hok
  rw [Parser.withinFunction] at hok
  split at hok
  · next next hrun =>
    cases hok
    obtain ⟨hnext, ha⟩ := hbody _ (hs.moves (Regular.enterFunction s params)) _ next hrun
    exact ⟨hnext.moves (Regular.leaveFunction next _), ha⟩
  · cases hok

theorem function : Gives b Parser.function s (PlacedDeclaration b) := by
  refine bind (prototype false) fun head _ hhead => ?_
  refine bind (withinFunction _ fun _ => functionBody) fun result _ hbody => ?_
  obtain ⟨body, loc⟩ := result
  exact pure (.cons (hhead (.prototype head) List.mem_cons_self) (hhead.append hbody))

theorem externFunction : Gives b Parser.externFunction s (PlacedDeclaration b) := by
  apply take
  intro _
  apply current
  intro _
  refine ite ?_ (failExpecting _)
  apply bind (prototype true)
  intro _ _ hhead
  refine after (.accept _) ?_
  intro _ _
  exact pure hhead

theorem namespaceLine (hk : s.current.kind = .word .namespaceWord) :
    Gives b Parser.namespaceLine s fun node => ∀ x ∈ node, PlacedDeclaration b x := by
  refine take fun ht => bind (expect _ _) fun name _ _ => after (.accept _) fun _ _ => get ?_
  split
  · exact after (.complain rfl name) fun _ _ => pure nofun
  · refine after (.update fun s => ?_) fun _ _ => locate (pure ?_)
    · exact (Moves.of_change (.setNamespace s _)).tail (.setScopes _ _)
    · rintro x ⟨⟩
      exact .one ⟨s.current, ht, rfl, Buffer.lexeme_of_kind ht hk rfl⟩

theorem declaration (s : State) :
    Gives b Parser.declaration s fun node => ∀ x ∈ node, PlacedDeclaration b x := by
  have hsome {p : Parser Declaration} (hp : Gives b p s (PlacedDeclaration b)) :
      Gives b (do return some (← p)) s fun node => ∀ x ∈ node, PlacedDeclaration b x := by
    refine bind hp fun x _ hx => pure ?_
    rintro x' ⟨⟩
    exact hx
  have hstatement {p : Parser Statement} (hp : Gives b p s (PlacedStatement b)) :
      Gives b (do return some (.statement (← p))) s fun node =>
        ∀ x ∈ node, PlacedDeclaration b x := by
    refine bind hp fun x _ hx => pure ?_
    rintro x' ⟨⟩
    exact hx
  refine get ?_
  split
  · next hk => exact namespaceLine hk
  · exact hsome function
  · exact hsome function
  · exact hsome externFunction
  · exact hstatement keywordBinding
  · exact hstatement keywordBinding
  · exact hstatement keywordBinding
  · next hk => exact hstatement (returnStatement hk)
  · split
    · next hstarts =>
      exact hstatement (nameBinding statements (State.current_of_startsBinding hstarts))
    · exact failExpecting _

end Gives

section

variable {P : Declaration → Prop}
  (h : ∀ s, Gives b Parser.declaration s fun node => ∀ x ∈ node, P x)
include h

theorem fileRound_forall {s : State} (hs : b.Reaches s) : ∀ d ∈ s.fileRound.1, P d := by
  cases hround : Parser.declaration s.exitPanic with
  | ok node next =>
      rw [State.fileRound_ok hround]
      exact (h _ hs.exitPanic node next hround).2
  | error failure next =>
      rw [State.fileRound_error hround]
      exact nofun

/-- What holds of every declaration that is read holds of all that a file yields. The induction is
on the number of unread tokens, which every round makes smaller. -/
theorem run_forall {s : State} (hs : b.Reaches s) : ∀ d ∈ s.run.1, P d := by
  have hend : s.HasEnd := b.startState_hasEnd.moves hs
  induction hn : s.unread.length using Nat.strongRecOn generalizing s with
  | _ n ih =>
      rw [hend.run_eq]
      split
      · exact List.forall_mem_nil _
      · next hk =>
        refine List.forall_mem_append.mpr ⟨fun d hd => ?_, ?_⟩
        · exact fileRound_forall h hs d (Option.mem_toList.mp hd)
        · exact ih _ (hn ▸ hend.fileRound_lt hk) (hs.moves (moves_fileRound s))
            (hend.moves (moves_fileRound s)) rfl

end

theorem run_placed {s : State} (hs : b.Reaches s) : ∀ d ∈ s.run.1, b.Places d.nodes :=
  run_forall Gives.declaration hs

end Grammar

/-- Every node at any depth of the tree of a file carries the place of the token that it is known
by, with and without errors in the file. -/
theorem parse_nodes_placed (b : Buffer) :
    ∀ d ∈ b.parse.declarations, ∀ n ∈ d.nodes, n.Placed b :=
  run_placed (Moves.refl _)

/-- A file with an error: in the statement behind it stands an operator with its mark. -/
theorem parse_nodes_placed_recovered :
    let b := Buffer.ofText "main.tp" "fn f() \x7b ); x := a %+ -c; \x7d"
    b.parse.errors = 1 ∧ ∃ d ∈ b.parse.declarations, ∃ n ∈ d.nodes,
      n.loc = ⟨"main.tp", ⟨1, 20⟩⟩ ∧ n.Placed b := by
  intro b
  have herrors : b.parse.errors = 1 := by decide +kernel
  obtain ⟨d, hd, n, hn, hloc⟩ :
      ∃ d ∈ b.parse.declarations, ∃ n ∈ d.nodes, n.loc = ⟨"main.tp", ⟨1, 20⟩⟩ := by
    decide +kernel
  exact ⟨herrors, d, hd, n, hn, hloc, parse_nodes_placed b d hd n hn⟩

end FrontEnd
