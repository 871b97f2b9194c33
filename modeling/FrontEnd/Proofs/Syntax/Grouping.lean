import FrontEnd.Tree.Basic

set_option autoImplicit false

/-! # Chains of operands and their grouping

An expression is written as an operand and a chain of `Link`s behind it: steps, and operators with
a further operand each. A `Grouping` says which operator of the chain takes which part of it as
its operands. It keeps apart the operators of the chain and those inside an operand, which a tree
does not.

A grouping is `Proper` if every operator has operators of higher levels below it, and of two
operators of one level the left one is below the right one, or above it if it is an assignment.
`Grouping.extend` adds one link to a grouping, and keeps it proper. A chain has one proper
grouping only (`Proper.unique`), so any proper grouping of a chain is the one that `extendAll`
arrives at from left to right (`Proper.eq_extendAll`).
-/

namespace FrontEnd

/-- What may stand behind an operand. -/
inductive Link where
  | step (step : Step) (overflow : Overflow) (loc : Location)
  | operator (op : BinaryOp) (loc : Location) (operand : Expr)

/-- How tightly a link binds. -/
def Link.level : Link → Nat
  | step _ _ _ => Step.level
  | operator op _ _ => op.level

/-- The operators of a chain, each with one of them below another. -/
inductive Grouping where
  | operand (e : Expr)
  | node (op : BinaryOp) (loc : Location) (lhs rhs : Grouping)

/-! ## Levels -/

namespace BinaryOp

theorem assignmentLevel_le (op : BinaryOp) : assignmentLevel ≤ op.level := by
  cases op <;> simp [level, assignmentLevel]

theorem level_le_rightLevel (op : BinaryOp) : op.level ≤ op.rightLevel := by
  unfold rightLevel
  split <;> omega

/-- Every right operand takes the steps behind it for itself. -/
theorem rightLevel_le_step (op : BinaryOp) : op.rightLevel ≤ Step.level := by
  cases op <;> simp [rightLevel, groupsRight, level, assignmentLevel, Step.level]

theorem rightLevel_le_iff (op : BinaryOp) (n : Nat) :
    op.rightLevel ≤ n ↔ if op.level = assignmentLevel then op.level ≤ n else op.level < n := by
  unfold rightLevel groupsRight
  by_cases h : op.level = assignmentLevel
  · rw [if_pos (beq_iff_eq.mpr h), if_pos h]
  · rw [if_neg (by simpa using h), if_neg h]
    exact Nat.succ_le_iff

end BinaryOp

namespace Grouping

/-! ## The parts of a grouping -/

/-- The tree of a grouping. -/
def tree : Grouping → Expr
  | operand e => e
  | node op loc lhs rhs => .binary op lhs.tree rhs.tree loc

/-- The operands from left to right. -/
def operands : Grouping → List Expr
  | operand e => [e]
  | node _ _ lhs rhs => lhs.operands ++ rhs.operands

/-- The operators from left to right, with their places. -/
def operators : Grouping → List (BinaryOp × Location)
  | operand _ => []
  | node op loc lhs rhs => lhs.operators ++ (op, loc) :: rhs.operators

/-- The operator above all others. -/
def top? : Grouping → Option BinaryOp
  | operand _ => none
  | node op _ _ _ => some op

/-- Operators bind less tightly than those directly below them. An operator of the same level may
stand on the left, below an assignment on the right. -/
def Proper : Grouping → Prop
  | operand _ => True
  | node op _ lhs rhs =>
    lhs.Proper ∧ rhs.Proper ∧
    (∀ q ∈ lhs.top?,
      if op.level = BinaryOp.assignmentLevel then op.level < q.level else op.level ≤ q.level) ∧
    (∀ q ∈ rhs.top?,
      if op.level = BinaryOp.assignmentLevel then op.level ≤ q.level else op.level < q.level)

/-! ## Adding a link

A link is put as far down on the right side of a grouping as it binds more tightly than the
operators there. -/

/-- A grouping with a link that applies to all of it. -/
def close (g : Grouping) : Link → Grouping
  | .step step overflow loc => operand (.step step overflow .after g.tree loc)
  | .operator op loc e => node op loc g (operand e)

/-- A grouping with one more link. The right operand of an operator takes the link if it binds
tightly enough. -/
def extend : Grouping → Link → Grouping
  | operand e, link => (operand e).close link
  | node op loc lhs rhs, link =>
    if op.rightLevel ≤ link.level then node op loc lhs (rhs.extend link)
    else (node op loc lhs rhs).close link

/-- A grouping with a chain of links. -/
def extendAll (g : Grouping) (links : List Link) : Grouping := links.foldl extend g

@[simp] theorem extendAll_nil (g : Grouping) : g.extendAll [] = g := rfl

@[simp] theorem extendAll_cons (g : Grouping) (link : Link) (links : List Link) :
    g.extendAll (link :: links) = (g.extend link).extendAll links := rfl

theorem extendAll_append (g : Grouping) (xs ys : List Link) :
    g.extendAll (xs ++ ys) = (g.extendAll xs).extendAll ys := List.foldl_append

/-! ## Grouping keeps the order of the chain -/

theorem extend_node_step (op : BinaryOp) (l : Location) (lhs rhs : Grouping) (step : Step)
    (overflow : Overflow) (loc : Location) :
    (node op l lhs rhs).extend (.step step overflow loc) =
      node op l lhs (rhs.extend (.step step overflow loc)) := by
  rw [extend]
  exact if_pos op.rightLevel_le_step

/-- A step behind a chain belongs to its last operand alone. -/
theorem operands_extend_step (g : Grouping) (step : Step) (overflow : Overflow) (loc : Location) :
    ∃ before last, g.operands = before ++ [last] ∧
      (g.extend (.step step overflow loc)).operands =
        before ++ [.step step overflow .after last loc] := by
  induction g with
  | operand e => exact ⟨[], e, rfl, rfl⟩
  | node op l lhs rhs _ ih =>
      obtain ⟨before, last, hg, he⟩ := ih
      refine ⟨lhs.operands ++ before, last, by simp [operands, hg], ?_⟩
      rw [extend_node_step, operands, he, List.append_assoc]

theorem operands_extend_operator (g : Grouping) (op : BinaryOp) (loc : Location) (e : Expr) :
    (g.extend (.operator op loc e)).operands = g.operands ++ [e] := by
  induction g with
  | operand _ => rfl
  | node q l lhs rhs _ ih =>
      rw [extend]
      split
      · rw [operands, ih, operands, List.append_assoc]
      · rfl

theorem operators_extend_step (g : Grouping) (step : Step) (overflow : Overflow)
    (loc : Location) : (g.extend (.step step overflow loc)).operators = g.operators := by
  induction g with
  | operand _ => rfl
  | node op l lhs rhs _ ih =>
      rw [extend_node_step, operators, ih, operators]

theorem operators_extend_operator (g : Grouping) (op : BinaryOp) (loc : Location) (e : Expr) :
    (g.extend (.operator op loc e)).operators = g.operators ++ [(op, loc)] := by
  induction g with
  | operand _ => rfl
  | node q l lhs rhs _ ih =>
      rw [extend]
      split
      · rw [operators, ih, operators, List.append_assoc, List.cons_append]
      · rfl

/-! ## Grouping is proper -/

/-- The operator that a link adds. -/
theorem top?_extend (g : Grouping) (link : Link) :
    (g.extend link).top? = g.top? ∨ ∀ q ∈ (g.extend link).top?, q.level = link.level := by
  cases g with
  | operand e =>
      refine .inr fun q hq => ?_
      cases link with
      | step => cases hq
      | operator op loc e' => cases hq; rfl
  | node op loc lhs rhs =>
      rw [extend]
      split
      · exact .inl rfl
      · refine .inr fun q hq => ?_
        cases link with
        | step => cases hq
        | operator op' loc' e' => cases hq; rfl

theorem Proper.extend {g : Grouping} (hg : g.Proper) (link : Link) : (g.extend link).Proper := by
  induction g with
  | operand e =>
      cases link with
      | step => trivial
      | operator op loc e' => exact ⟨trivial, trivial, by simp [top?], by simp [top?]⟩
  | node op loc lhs rhs _ ih =>
      obtain ⟨hl, hr, hlt, hrt⟩ := hg
      rw [Grouping.extend]
      split
      · next habs =>
        -- the right operand takes the link: its top operator is the old one or that of the link
        refine ⟨hl, ih hr, hlt, ?_⟩
        rcases rhs.top?_extend link with htop | htop
        · rwa [htop]
        · intro q hq
          rw [← op.rightLevel_le_iff, htop q hq]
          exact habs
      · next habs =>
        cases link with
        | step => trivial
        | operator op' loc' e' =>
            -- the link binds less tightly, or as tightly as an operator that groups to the left
            refine ⟨⟨hl, hr, hlt, hrt⟩, trivial, ?_, by simp [top?]⟩
            intro q hq
            cases hq
            have h := op.assignmentLevel_le
            have h' := op'.assignmentLevel_le
            rw [op.rightLevel_le_iff] at habs
            simp only [Link.level] at habs
            split at habs
            · split <;> omega
            · split <;> omega

theorem Proper.extendAll {g : Grouping} (hg : g.Proper) (links : List Link) :
    (g.extendAll links).Proper := by
  induction links generalizing g with
  | nil => exact hg
  | cons link links ih => exact ih (hg.extend link)

/-! ## Climbing

An operand that has been grouped may be taken as a whole from the first looser link on. This is
why a parser can build the tree of a chain from left to right without looking back. -/

/-- A right operand takes a whole chain of links that bind tightly enough. -/
theorem extendAll_node {op : BinaryOp} {xs : List Link} (h : ∀ x ∈ xs, op.rightLevel ≤ x.level)
    (loc : Location) (lhs rhs : Grouping) :
    (node op loc lhs rhs).extendAll xs = node op loc lhs (rhs.extendAll xs) := by
  induction xs generalizing rhs with
  | nil => rfl
  | cons x xs ih =>
      rw [extendAll_cons, extend, if_pos (h x List.mem_cons_self)]
      exact ih (fun y hy => h y (List.mem_cons_of_mem x hy)) (rhs.extend x)

/-- Links never reach into a left operand. -/
theorem tree_extendAll_congr {lhs lhs' : Grouping} (h : lhs.tree = lhs'.tree) (op : BinaryOp)
    (loc : Location) (rhs : Grouping) (xs : List Link) :
    ((node op loc lhs rhs).extendAll xs).tree = ((node op loc lhs' rhs).extendAll xs).tree := by
  induction xs generalizing op loc lhs lhs' rhs with
  | nil => simp [tree, h]
  | cons x xs ih =>
      rw [extendAll_cons, extendAll_cons, extend, extend]
      split
      · exact ih h op loc (rhs.extend x)
      · have htree : (node op loc lhs rhs).tree = (node op loc lhs' rhs).tree := by
          simp [tree, h]
        cases x with
        | step => simp only [close, htree]
        | operator op' loc' e => exact ih htree op' loc' (operand e)

/-- A looser link takes all that stands before it as one operand. -/
theorem tree_extendAll_operand {op : BinaryOp} {xs : List Link}
    (h : ∀ x ∈ xs.head?, x.level < op.rightLevel) (loc : Location) (lhs rhs : Grouping) :
    ((node op loc lhs rhs).extendAll xs).tree =
      ((operand (node op loc lhs rhs).tree).extendAll xs).tree := by
  cases xs with
  | nil => rfl
  | cons x xs =>
      have hclose : (node op loc lhs rhs).extend x = (node op loc lhs rhs).close x :=
        if_neg (Nat.not_le.mpr (h x rfl))
      rw [extendAll_cons, extendAll_cons, hclose]
      cases x with
      | step => rfl
      | operator op' loc' e =>
          have htree : (node op loc lhs rhs).tree = (operand (node op loc lhs rhs).tree).tree := rfl
          exact tree_extendAll_congr htree op' loc' (operand e) xs

/-- The tree of an operator between two operands, the right one extended by the links `xs` that
bind tightly enough, is one operand for the links `ys` behind them. -/
theorem tree_climb {op : BinaryOp} {xs ys : List Link} (hxs : ∀ x ∈ xs, op.rightLevel ≤ x.level)
    (hys : ∀ y ∈ ys.head?, y.level < op.rightLevel) (loc : Location) (lhs e : Expr) :
    ((operand lhs).extendAll (.operator op loc e :: (xs ++ ys))).tree =
      ((operand (.binary op lhs ((operand e).extendAll xs).tree loc)).extendAll ys).tree := by
  calc ((operand lhs).extendAll (.operator op loc e :: (xs ++ ys))).tree
      = ((node op loc (operand lhs) ((operand e).extendAll xs)).extendAll ys).tree := by
        rw [extendAll_cons, extendAll_append]
        exact congrArg (fun g => (extendAll g ys).tree) (extendAll_node hxs loc _ _)
    _ = _ := tree_extendAll_operand hys loc _ _

/-! ## A chain has one proper grouping

The operator at the top of a proper grouping is the one that binds least, the first or the last of
them by its associativity. This decides the two sides, and by induction all of it. -/

/-- The operators of a proper grouping bind at least as tightly as the one above them all. -/
theorem Proper.level_le {g : Grouping} (hg : g.Proper) {op : BinaryOp} (htop : op ∈ g.top?) :
    ∀ x ∈ g.operators, op.level ≤ x.1.level := by
  induction g generalizing op with
  | operand e => cases htop
  | node q loc lhs rhs ihl ihr =>
      cases htop
      obtain ⟨hl, hr, hlt, hrt⟩ := hg
      intro x hx
      simp only [operators, List.mem_append, List.mem_cons] at hx
      -- an operator on one side is bounded by the top of that side, and this by the top of all
      rcases hx with hx | rfl | hx
      · cases hlq : lhs.top? with
        | none => cases lhs with
          | operand => cases hx
          | node => cases hlq
        | some p =>
            have h := hlt p hlq
            have h' := ihl hl hlq x hx
            split at h <;> omega
      · exact Nat.le_refl _
      · cases hrq : rhs.top? with
        | none => cases rhs with
          | operand => cases hx
          | node => cases hrq
        | some p =>
            have h := hrt p hrq
            have h' := ihr hr hrq x hx
            split at h <;> omega

/-- The first operand. -/
def first : Grouping → Expr
  | operand e => e
  | node _ _ lhs _ => lhs.first

/-- The operators behind the first operand, each with its place and the operand behind it. -/
def links : Grouping → List (BinaryOp × Location × Expr)
  | operand _ => []
  | node op loc lhs rhs => lhs.links ++ (op, loc, rhs.first) :: rhs.links

theorem operands_eq (g : Grouping) : g.operands = g.first :: g.links.map (·.2.2) := by
  induction g with
  | operand e => rfl
  | node op loc lhs rhs ihl ihr => simp [operands, first, links, ihl, ihr]

theorem operators_eq (g : Grouping) : g.operators = g.links.map fun x => (x.1, x.2.1) := by
  induction g with
  | operand e => rfl
  | node op loc lhs rhs ihl ihr => simp [operators, links, ihl, ihr]

/-- The operators of a right operand bind tightly enough to belong to it. -/
theorem Proper.rightLevel_le {op : BinaryOp} {loc : Location} {lhs rhs : Grouping}
    (h : (node op loc lhs rhs).Proper) : ∀ x ∈ rhs.operators, op.rightLevel ≤ x.1.level := by
  obtain ⟨-, hr, -, hrt⟩ := h
  intro x hx
  cases rhs with
  | operand => cases hx
  | node p l a b =>
      exact Nat.le_trans ((op.rightLevel_le_iff _).mpr (hrt p rfl)) (hr.level_le rfl x hx)

/-- The operator of a left operand leaves the operator behind it to the one above. -/
theorem Proper.extend_left {op : BinaryOp} {loc : Location} {lhs rhs : Grouping}
    (h : (node op loc lhs rhs).Proper) (e : Expr) :
    lhs.extend (.operator op loc e) = node op loc lhs (operand e) := by
  obtain ⟨-, -, hlt, -⟩ := h
  cases lhs with
  | operand => rfl
  | node q l a b =>
      have htop := hlt q rfl
      have hop := op.assignmentLevel_le
      refine if_neg ?_
      rw [q.rightLevel_le_iff]
      simp only [Link.level]
      split at htop <;> split <;> omega

/-- A proper grouping is what its links make of its first operand. -/
theorem Proper.eq_extendAll {g : Grouping} (hg : g.Proper) :
    g = (operand g.first).extendAll (g.links.map fun x => .operator x.1 x.2.1 x.2.2) := by
  induction g with
  | operand e => rfl
  | node op loc lhs rhs ihl ihr =>
      have habs : ∀ x ∈ rhs.links.map (fun x => Link.operator x.1 x.2.1 x.2.2),
          op.rightLevel ≤ x.level := by
        intro x hx
        obtain ⟨y, hy, rfl⟩ := List.mem_map.mp hx
        refine hg.rightLevel_le (y.1, y.2.1) ?_
        rw [operators_eq]
        exact List.mem_map_of_mem hy
      -- the left operand closes in front of the operator, and the right one takes all behind it
      have hleft := hg.extend_left rhs.first
      obtain ⟨hl, hr, -, -⟩ := hg
      rw [links, List.map_append, List.map_cons, extendAll_append, extendAll_cons, first,
        ← ihl hl, hleft, extendAll_node habs, ← ihr hr]

/-- A chain of operands and operators has one proper grouping only. -/
theorem Proper.unique {g g' : Grouping} (hg : g.Proper) (hg' : g'.Proper)
    (hoperands : g.operands = g'.operands) (hoperators : g.operators = g'.operators) :
    g = g' := by
  rw [operands_eq, operands_eq, List.cons.injEq] at hoperands
  rw [operators_eq, operators_eq] at hoperators
  -- a link is an operator with its place and the operand behind it
  have hlinks : g.links = g'.links := by
    have hzip := congrArg (List.map fun p => (p.1.1, p.1.2, p.2))
      (congr (congrArg List.zip hoperators) hoperands.2)
    simpa [List.zip_map', Function.comp_def] using hzip
  rw [hg.eq_extendAll, hg'.eq_extendAll, hoperands.1, hlinks]

end Grouping

end FrontEnd
