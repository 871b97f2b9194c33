import FrontEnd.Proofs.Parsing.Yields
import FrontEnd.Proofs.Syntax.ReadsFile

set_option autoImplicit false

/-! # Types and the heads of functions that can be read are read

The parsers of types and of heads yield what the relations on them say. Lists are read up to the first
place where no comma follows, with the number of unread tokens as fuel: each entry of a list takes a
token at least, so this is enough.

What is declared on the way does not matter here. A name that was declared before and a seventeenth
argument are reported, but the head is read all the same.
-/

namespace FrontEnd.Grammar

open FrontEnd.Grammar.Parser

variable {s : State} {file : String} {finish t : Token} {input rest : List Token}

/-! ## Types

A type is one token. Behind the colon of a function there may be several, and an extern function may
have none and no colon. -/

theorem yields_typeExpr (ht : isType t.kind) (hs : s.At file finish (t :: rest))
    (hv : Valid finish (t :: rest)) (place : Place) :
    Yields (typeExpr place) s (typeTree file t) rest := by
  unfold typeExpr typeTree
  refine .current ?_
  rw [hs.current_eq]
  generalize hk : t.kind = k at ht
  unfold isType at ht
  split at ht
  · next type =>
    have hadvance := Yields.advance hs hv.tail.next
    cases type with
    | void => exact .bind hs hadvance fun hs => .locate hs (.pure hs _)
    | _ => exact .bind hs hadvance fun hs => .locate hs (.pure hs _)
  · exact .bind hs (.advance hs hv.tail.next) fun hs => .locate hs (.pure hs _)
  · cases ht

theorem ReadsTypes.head {types : List TypeExpr} (h : ReadsTypes file finish input types rest) :
    ∃ t more, input = t :: more ∧ isType t.kind ∧ types = typeTree file t :: types.tail := by
  cases h with
  | @last t _ ht => exact ⟨t, rest, rfl, ht, rfl⟩
  | @more t comma more _ types ht => exact ⟨t, comma :: more, rfl, ht, rfl⟩

/-- The types behind the first one. -/
theorem yields_furtherTypes {types : List TypeExpr}
    (h : ReadsTypes file finish (t :: input) types rest) {fuel : Nat}
    (hfuel : input.length ≤ fuel) (hs : s.At file finish input) (hv : Valid finish input) :
    Yields (furtherTypes fuel) s types.tail rest := by
  induction fuel generalizing s t input types with
  | zero =>
      cases h with
      | last => exact .pure hs []
      | more => simp at hfuel
  | succ fuel ih =>
      unfold furtherTypes
      cases h with
      | last ht hnext => exact .bind hs (.decline hs hnext) fun hs => .pure hs []
      | more ht hcomma htypes =>
          obtain ⟨t', more, rfl, ht', hcons⟩ := htypes.head
          simp only [List.length_cons] at hfuel
          rw [List.tail_cons, hcons]
          refine .bind hs (.accept hs hcomma hv.tail.next) fun hs => ?_
          refine .bind hs (yields_typeExpr ht' hs hv.tail _) fun hs => ?_
          exact .bind hs (ih htypes (by omega) hs hv.tail.tail) fun hs => .pure hs _

theorem yields_returnTypes {isExtern : Bool} {types : List TypeExpr}
    (h : ReadsReturns file finish isExtern input types rest) (hs : s.At file finish input)
    (hv : Valid finish input) : Yields (returnTypes isExtern) s types rest := by
  unfold returnTypes
  cases h with
  | written hcolon htypes =>
      obtain ⟨t, more, rfl, ht, hcons⟩ := htypes.head
      rw [hcons]
      refine .bind hs (.accept hs hcolon hv.tail.next) fun hs => ?_
      refine .bind hs (yields_typeExpr ht hs hv.tail _) fun hs => .get ?_
      exact .bind hs (yields_furtherTypes htypes (Nat.le_of_eq (by rw [hs.unread_eq])) hs
        hv.tail.tail) fun hs => .pure hs _
  | none hcolon hnext =>
      refine .bind hs (.decline hs hcolon) fun hs => .current ?_
      rw [if_pos (by rwa [hs.current_kind]), hs.current_eq_headD]
      exact .locate hs (.pure hs _)

/-! ## Arguments -/

theorem yields_param {n colon : Token} (hn : n.kind = .identifier)
    (hcolon : colon.kind = .mark .colon) (ht : isType t.kind)
    (hs : s.At file finish (n :: colon :: t :: rest))
    (hv : Valid finish (n :: colon :: t :: rest)) (before : List Param) :
    Yields (param before) s (paramTree file n t) rest := by
  unfold param
  refine .bind hs (.expect hs hn _ hv.tail.next) fun hs => ?_
  refine .bind hs (.onlyIf hs (.complain hs rfl n)) fun hs => ?_
  refine .bind hs (.expect hs hcolon _ hv.tail.tail.next) fun hs => ?_
  refine .bind hs (yields_typeExpr ht hs hv.tail.tail _) fun hs => ?_
  exact .bind hs (.onlyIf hs (.complain hs rfl n)) fun hs => .locate hs (.pure hs _)

theorem yields_paramsFrom {params : List Param} (h : ReadsParams file finish input params rest)
    {fuel : Nat} (hfuel : input.length ≤ fuel) (hs : s.At file finish input)
    (hv : Valid finish input) (before : List Param) :
    Yields (paramsFrom fuel before) s (before ++ params) rest := by
  induction h generalizing s fuel before with
  | @last n colon t rest hn hcolon ht hnext =>
      obtain ⟨fuel, rfl⟩ : ∃ m, fuel = m + 1 := ⟨fuel - 1, by simp at hfuel; omega⟩
      unfold paramsFrom
      refine .bind hs (yields_param hn hcolon ht hs hv before) fun hs => ?_
      exact .bind hs (.decline hs hnext) fun hs => .pure hs _
  | @more n colon t comma input rest params hn hcolon ht hcomma _ ih =>
      simp only [List.length_cons] at hfuel
      obtain ⟨fuel, rfl⟩ : ∃ m, fuel = m + 1 := ⟨fuel - 1, by omega⟩
      unfold paramsFrom
      have hv' := hv.tail.tail.tail
      refine .bind hs (yields_param hn hcolon ht hs hv before) fun hs => ?_
      refine .bind hs (.accept hs hcomma hv'.tail.next) fun hs => ?_
      have hread := ih (by omega : _ ≤ fuel) hs hv'.tail (before ++ [paramTree file n t])
      rw [List.append_assoc, List.singleton_append] at hread
      exact hread

/-- The arguments are followed by the closing parenthesis. -/
theorem yields_params {params : List Param} (h : ReadsParamList file finish input params rest)
    (hs : s.At file finish input) (hv : Valid finish input) :
    ∃ r, r.kind = .mark .rightParen ∧ Yields Parser.params s params (r :: rest) := by
  unfold Parser.params
  cases h with
  | @none r _ hr =>
      refine ⟨r, hr, .get ?_⟩
      rw [if_pos (by rwa [hs.current_eq])]
      exact .pure hs []
  | @some r _ _ _ hparams hr =>
      refine ⟨r, hr, .get ?_⟩
      have hname : s.current.kind = .identifier := by
        rw [hs.current_kind]
        cases hparams with
        | last hn | more hn => exact hn
      rw [if_neg (by rw [hname]; simp), hs.unread_eq]
      exact yields_paramsFrom hparams (Nat.le_succ _) hs hv []

/-! ## Heads

The parts of a head come in a fixed order, so the proof follows the parser step by step. -/

theorem yields_declare (hs : s.At file finish input) (symbol : Symbol) (t : Token) :
    Yields (declare symbol t) s () input := by
  refine .update ?_
  split
  · exact ⟨hs.unread_eq, rfl, rfl, rfl, rfl⟩
  · exact hs.unread_eq ▸ .report s rfl

theorem yields_declareFunction (hs : s.At file finish input) (name : Token) (isExtern : Bool) :
    Yields (declareFunction name isExtern) s () input := by
  unfold declareFunction
  refine .bind hs (.update ?_) fun hs => .locate hs (yields_declare hs _ name)
  dsimp only
  split
  · exact ⟨hs.unread_eq, rfl, rfl, rfl, rfl⟩
  · exact hs.unread_eq ▸ .refl s

theorem yields_prototype {isExtern : Bool} {head : Prototype}
    (h : ReadsHead file finish isExtern input head rest) (hs : s.At file finish input)
    (hv : Valid finish input) : Yields (prototype isExtern) s head rest := by
  unfold prototype
  cases h with
  | @head k n l input mid _ params returns hn hl hparams hreturns =>
      have hv' := hv.tail.tail
      refine .bind hs (.take hs hv.tail.next) fun hs => ?_
      refine .bind hs (.expect hs hn _ hv'.next) fun hs => ?_
      refine .bind hs (yields_declareFunction hs n isExtern) fun hs => ?_
      refine .bind hs (.expect hs hl _ hv'.tail.next) fun hs => ?_
      obtain ⟨r, hr, s1, h1, hg1⟩ := yields_params hparams hs hv'.tail
      have hs1 := hs.goes hg1
      have hmid := hv'.tail.of_suffix hparams.suffix
      refine .after h1 hg1 (.bind hs1 (.expect hs1 hr _ hmid.next) fun hs => ?_)
      exact .bind hs (yields_returnTypes hreturns hs hmid) fun hs => .locate hs (.pure hs _)

end FrontEnd.Grammar
