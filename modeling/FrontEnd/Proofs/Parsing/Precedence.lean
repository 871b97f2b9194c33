import FrontEnd.Proofs.Parsing.Complete.Expression
import FrontEnd.Proofs.Syntax.Longest
import Mathlib.Data.List.Forall2

set_option autoImplicit false

/-! # Precedence climbing

A `Chain` is written as operands with operators between them, where each operand may have steps
behind it. It is parsed as the tree of a proper grouping of these operands and operators, of which
there is only one: the levels of the operators decide which of two stands below the other, steps
belong to the operand in front of them, and what an operand holds in parentheses plays no part.

The climbing itself is not looked at here. That the parser follows any reading of its input is known,
and so is that links read one after another extend a grouping and keep it proper. What is left is to
read the tokens of a chain as such links, and to see that these add just its operands and operators.
-/

namespace FrontEnd.Grammar

/-- An operand in front of steps that apply to it. The base is any operand of the grammar: a
literal, a name, a call, a phrase in parentheses, or one of these with signs in front. -/
structure SteppedOperand where
  base : List Token
  steps : List Token
  derives : Derives .unary base
  isStep : ∀ t ∈ steps, t.kind.isStep

/-- An operator and the operand to its right. -/
structure ChainLink where
  sign : Token
  op : BinaryOp
  operand : SteppedOperand
  sign_kind : sign.kind = .operator op

/-- Operands with operators between them, of any levels and in any order. A chain may be a single
operand. -/
structure Chain where
  first : SteppedOperand
  links : List ChainLink

/-- The tree of a step behind an operand. Steps bind more tightly than all operators, so they belong
to the operand. -/
def stepTree (file : String) (operand : Expr) (t : Token) : Expr :=
  match t.kind with
  | .step step overflow => .step step overflow .after operand ⟨file, t.position⟩
  | _ => operand

namespace SteppedOperand

def tokens (u : SteppedOperand) : List Token := u.base ++ u.steps

/-- The tree of an operand is that of its base, with the steps from left to right around it. -/
def ReadsAs (file : String) (u : SteppedOperand) (e : Expr) : Prop :=
  ∃ base, Reads file .endOfFile .unary u.base base [] ∧ e = u.steps.foldl (stepTree file) base

end SteppedOperand

namespace Chain

def tokens (c : Chain) : List Token :=
  c.first.tokens ++ c.links.flatMap fun link => link.sign :: link.operand.tokens

/-- The operands from left to right. -/
def operands (c : Chain) : List SteppedOperand := c.first :: c.links.map (·.operand)

/-- The operators from left to right, with their places. -/
def operators (file : String) (c : Chain) : List (BinaryOp × Location) :=
  c.links.map fun link => (link.op, ⟨file, link.sign.position⟩)

end Chain

variable {file : String} {behind : Kind} {input rest : List Token}

/-! ## The links of a chain

A step is a link too, which changes the last operand of a grouping and adds none. So the links of a
chain are more than its operators, and are told apart by what they do to a grouping. -/

theorem Reads.links_next {xs : List Link} (h : Reads file behind .links input xs rest)
    (hnext : nextKind behind rest ≠ .mark .leftParen) :
    nextKind behind input ≠ .mark .leftParen := by
  cases h with
  | noLink => exact hnext
  | stepAfter ht | operator ht => rw [nextKind_cons, ht]; simp

/-- Steps read as links that change the last operand of a grouping and nothing else. -/
theorem reads_steps (file : String) (behind : Kind) {steps : List Token}
    (h : ∀ t ∈ steps, t.kind.isStep) :
    ∃ xs : List Link,
      (∀ {input rest ys}, Reads file behind .links input ys rest →
        Reads file behind .links (steps ++ input) (xs ++ ys) rest) ∧
      ∀ {g : Grouping} {before : List Expr} {last : Expr}, g.operands = before ++ [last] →
        (g.extendAll xs).operands = before ++ [steps.foldl (stepTree file) last] ∧
          (g.extendAll xs).operators = g.operators := by
  induction steps with
  | nil => exact ⟨[], id, fun hg => ⟨hg, rfl⟩⟩
  | cons t steps ih =>
      obtain ⟨xs, hxs, hgroup⟩ := ih fun t ht => h t (List.mem_cons_of_mem _ ht)
      obtain ⟨step, overflow, hk⟩ := exists_step (h t List.mem_cons_self)
      refine ⟨.step step overflow ⟨file, t.position⟩ :: xs, fun hys => .stepAfter hk (hxs hys), ?_⟩
      intro g before last hg
      obtain ⟨before', last', hg', hstep⟩ :=
        g.operands_extend_step step overflow ⟨file, t.position⟩
      obtain ⟨rfl, hlast⟩ := List.append_inj' (hg.symm.trans hg') rfl
      obtain rfl := List.singleton_inj.mp hlast
      have htree : stepTree file last t = .step step overflow .after last ⟨file, t.position⟩ := by
        rw [stepTree, hk]
      -- the remaining steps find the first one applied to the last operand
      obtain ⟨hoperands, hoperators⟩ := hgroup hstep
      rw [Grouping.extendAll_cons, hoperands, hoperators, Grouping.operators_extend_step,
        List.foldl_cons, htree]
      exact ⟨rfl, rfl⟩

/-- An operand reads as its base in front of its steps, and these as links. -/
theorem SteppedOperand.reads (u : SteppedOperand) {ys : List Link}
    (hys : Reads file behind .links input ys rest)
    (hnext : nextKind behind rest ≠ .mark .leftParen) :
    ∃ base xs, Reads file behind .unary (u.base ++ (u.steps ++ input)) base (u.steps ++ input) ∧
      Reads file behind .links (u.steps ++ input) (xs ++ ys) rest ∧
      u.ReadsAs file (u.steps.foldl (stepTree file) base) ∧
      ∀ {g : Grouping} {before : List Expr}, g.operands = before ++ [base] →
        (g.extendAll xs).operands = before ++ [u.steps.foldl (stepTree file) base] ∧
          (g.extendAll xs).operators = g.operators := by
  obtain ⟨base, hbase⟩ := u.derives.exists_value file
  obtain ⟨xs, hxs, hgroup⟩ := reads_steps file behind u.isStep
  have halone := hbase .endOfFile [] trivial (.of_next (by simp))
  rw [List.append_nil] at halone
  exact ⟨base, xs, hbase behind _ trivial (.of_next ((hxs hys).links_next hnext)), hxs hys,
    ⟨base, halone, rfl⟩, hgroup⟩

/-- The operators of a chain, with the operands behind them, read as links that add just these to
a grouping. -/
theorem reads_chainLinks (file : String) (links : List ChainLink)
    (hnext : nextKind behind rest ≠ .mark .leftParen) :
    ∃ xs es, Reads file behind .links
        ((links.flatMap fun link => link.sign :: link.operand.tokens) ++ rest) xs rest ∧
      List.Forall₂ (SteppedOperand.ReadsAs file) (links.map (·.operand)) es ∧
      ∀ g : Grouping, (g.extendAll xs).operands = g.operands ++ es ∧
        (g.extendAll xs).operators = g.operators ++
          links.map fun link => (link.op, ⟨file, link.sign.position⟩) := by
  induction links with
  | nil => exact ⟨[], [], .noLink, .nil, fun g => ⟨by simp, by simp⟩⟩
  | cons link links ih =>
      obtain ⟨ys, es, hys, hes, hgroups⟩ := ih
      -- the steps behind the operand are links of their own, and come in front of the next operator
      obtain ⟨base, xs, hbase, hxs, hreads, hgroup⟩ := link.operand.reads hys hnext
      refine ⟨.operator link.op ⟨file, link.sign.position⟩ base :: (xs ++ ys),
        link.operand.steps.foldl (stepTree file) base :: es, ?_, .cons hreads hes, fun g => ?_⟩
      · rw [List.flatMap_cons, SteppedOperand.tokens, List.cons_append, List.cons_append,
          List.append_assoc, List.append_assoc]
        exact .operator link.sign_kind hbase hxs
      · obtain ⟨hoperands, hoperators⟩ := hgroup
          (g.operands_extend_operator link.op ⟨file, link.sign.position⟩ base)
        rw [Grouping.extendAll_cons, Grouping.extendAll_append, (hgroups _).1, (hgroups _).2,
          hoperands, hoperators, Grouping.operators_extend_operator]
        simp

/-! ## The tree of a chain -/

/-- A chain is parsed up to its end, as the tree of its one proper grouping. What stands behind it is
no operator, no step and no opening parenthesis, which would all belong to the expression. -/
theorem expression_eq_grouping (s : State) (chain : Chain) (rest : List Token)
    (hunread : s.unread = chain.tokens ++ rest)
    (hvalid : nextKind s.finish.kind rest ≠ .invalid)
    (hlevel : (nextKind s.finish.kind rest).level? = none)
    (hparen : nextKind s.finish.kind rest ≠ .mark .leftParen) :
    ∃ (g : Grouping) (s' : State), Parser.expression s = .ok g.tree s' ∧ s'.unread = rest ∧
      g.operators = chain.operators s.file ∧
      List.Forall₂ (SteppedOperand.ReadsAs s.file) chain.operands g.operands ∧
      g.Proper ∧
      ∀ g' : Grouping, g'.Proper → g'.operands = g.operands → g'.operators = g.operators →
        g' = g := by
  obtain ⟨ys, es, hys, hes, hgroups⟩ := reads_chainLinks s.file chain.links hparen
  obtain ⟨base, xs, hbase, hxs, hreads, hgroup⟩ := chain.first.reads hys hparen
  -- the parser follows the reading, and what it builds is proper
  have hexpression := Reads.expression hbase hxs hlevel
  have hinput : chain.first.base ++ (chain.first.steps ++
      ((chain.links.flatMap fun link => link.sign :: link.operand.tokens) ++ rest)) = s.unread := by
    rw [hunread, Chain.tokens, SteppedOperand.tokens, List.append_assoc, List.append_assoc]
  rw [hinput] at hexpression
  obtain ⟨s', hok, hgoes⟩ := yields_expression hexpression ⟨rfl, rfl, rfl⟩ hvalid
  have hbase' : (Grouping.operand base).Proper := trivial
  have hproper := hbase'.extendAll (xs ++ ys)
  have hfirst : (Grouping.operand base).operands = [] ++ [base] := rfl
  obtain ⟨hoperands, hoperators⟩ := hgroup hfirst
  refine ⟨_, s', hok, hgoes.unread, ?_, ?_, hproper, fun g' hg' => hg'.unique hproper⟩
  · rw [Grouping.extendAll_append, (hgroups _).2, hoperators]
    rfl
  · rw [Grouping.extendAll_append, (hgroups _).1, hoperands]
    exact .cons hreads hes

/-- `a - b++ * c` has two operators, and the step belongs to `b`. -/
theorem expression_eq_grouping_step :
    let name (lexeme : String) (column : Nat) : Token := ⟨.identifier, lexeme, ⟨1, column⟩⟩
    let minus : Token := ⟨.operator (.sub .plain), "-", ⟨1, 3⟩⟩
    let step : Token := ⟨.step .increment .plain, "++", ⟨1, 6⟩⟩
    let star : Token := ⟨.operator (.mul .plain), "*", ⟨1, 9⟩⟩
    let s := State.start "chain.tp"
      ⟨[name "a" 1, minus, name "b" 5, step, star, name "c" 11], .endOfFile ⟨1, 12⟩⟩
    ∃ (g : Grouping) (s' : State), Parser.expression s = .ok g.tree s' ∧ s'.unread = [] ∧
      g.operators.map (·.1) = [.sub .plain, .mul .plain] ∧ g.operands.length = 3 ∧ g.Proper := by
  intro name minus step star s
  let chain : Chain :=
    { first := ⟨[name "a" 1], [], .unary (.name rfl), by simp⟩
      links := [
        ⟨minus, .sub .plain, ⟨[name "b" 5], [step], .unary (.name rfl), by simp [step, Kind.isStep]⟩,
          rfl⟩,
        ⟨star, .mul .plain, ⟨[name "c" 11], [], .unary (.name rfl), by simp⟩, rfl⟩] }
  obtain ⟨g, s', hok, hrest, hoperators, hoperands, hproper, -⟩ :=
    expression_eq_grouping s chain [] rfl (by decide) rfl (by decide)
  refine ⟨g, s', hok, hrest, ?_, hoperands.length_eq.symm, hproper⟩
  rw [hoperators]
  rfl

end FrontEnd.Grammar
