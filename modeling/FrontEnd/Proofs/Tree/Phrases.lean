import FrontEnd.Proofs.Tree.Nodes
import FrontEnd.Proofs.Tree.Sexp
import FrontEnd.Proofs.Tree.Source
import FrontEnd.Tree.Printer

set_option autoImplicit false

/-! # Expressions and statements in their parts

Expressions and statements are written as nested texts (`Expr.toList_render`). The first word of a
part, the number of its parts and the class of a lone word say what phrase it is (`Sexp.phrase`), so
the parts of a phrase determine it up to locations, if its names are identifiers and no
floating-point number stands in it.

The proofs go in two steps. That the phrase can be told from its parts is shown once for each kind
of tree (`Expr.phrase_sexp`), so two trees with the same parts are of the same kind. Then only trees
of one kind are compared, and their parts are equal one by one. Names matter twice: an identifier is
not a number or a truth value, and it is not one of the words that phrases start with.
-/

namespace FrontEnd

/-! ## Names and types

Names must be identifiers. Another name might be written like a number or like the first word of
some phrase, and then two trees could have one text. -/

/-- The names of the node are identifiers, and its type is a builtin one or an identifier. For nodes
without names there is nothing to ask. -/
def Node.Named : Node → Prop
  | .expr (.ident name _) | .expr (.call name _ _) => isName name
  | .expr _ | .ret _ | .block _ => True
  | .type e | .returnType _ e => e.Printable
  | .param p => isName p.name
  | .prototype head | .function head => isName head.name
  | .binding x => isName x.name
  | .namedBlock name _ | .namespaceLine name _ => isName name

/-- The node is a floating-point number. -/
def Node.isFloat : Node → Bool
  | .expr (.float _ _) => true
  | _ => false

/-- The nodes have identifiers as names, and none is a floating-point number. These are the trees
that can be told apart by their texts. -/
def Legible (nodes : List Node) : Prop := ∀ n ∈ nodes, n.Named ∧ n.isFloat = false

theorem legible_cons {n : Node} {nodes : List Node} :
    Legible (n :: nodes) ↔ (n.Named ∧ n.isFloat = false) ∧ Legible nodes := List.forall_mem_cons

theorem legible_append {nodes nodes' : List Node} :
    Legible (nodes ++ nodes') ↔ Legible nodes ∧ Legible nodes' := List.forall_mem_append

/-- The characters of words are solid. -/
theorem isSolid_of_isWordChar {c : Char} (hc : isWordChar c = true) : Sexp.isSolid c = true := by
  have hnone : " ()\x7b\x7d\"'".toList.all (fun d => !isWordChar d) = true := by decide
  rw [Sexp.isSolid, Bool.not_eq_true', ← Bool.not_eq_true, List.contains_iff_mem]
  intro hmem
  have hnot := List.all_eq_true.mp hnone c hmem
  rw [hc] at hnot
  cases hnot

theorem isWord_of_isWordText {text : List Char} (h : isWordText text = true) : Sexp.IsWord text := by
  rw [isWordText, Bool.and_eq_true, List.all_eq_true] at h
  refine ⟨?_, fun c hc => isSolid_of_isWordChar (h.2 c hc)⟩
  rintro rfl
  cases h.1

theorem isWordText_of_isName {name : String} (h : isName name = true) :
    isWordText name.toList = true := (Bool.and_eq_true_iff.mp h).1

theorem wordKind_of_isName {name : String} (h : isName name = true) :
    wordKind name.toList = .identifier := beq_iff_eq.mp (Bool.and_eq_true_iff.mp h).2

theorem TypeExpr.Printable.isWordText {e : TypeExpr} (h : e.Printable) :
    FrontEnd.isWordText e.render.toList = true := by
  cases e with
  | void => exact (wordKind_builtin .void).1
  | named name =>
      rcases h with h | ⟨b, -, rfl⟩
      · exact isWordText_of_isName h
      · exact (wordKind_builtin b).1

/-- No name of a type is written like the type `void`. -/
theorem TypeExpr.Printable.ne_void {name : String} {loc : Location}
    (h : (TypeExpr.named name loc).Printable) : name ≠ "void" := by
  have hvoid : wordKind "void".toList = .builtin .void := (wordKind_builtin .void).2
  rintro rfl
  rcases h with h | ⟨b, hb, hname⟩
  · rw [wordKind_of_isName h] at hvoid
    cases hvoid
  · rw [hname, (wordKind_builtin b).2] at hvoid
    exact hb (Kind.builtin.inj hvoid)

theorem TypeExpr.bare_eq {e e' : TypeExpr} (h : e.Printable) (h' : e'.Printable)
    (heq : e.render = e'.render) : e.bare = e'.bare := by
  cases e with
  | void =>
      cases e' with
      | void => rfl
      | named => exact absurd heq.symm h'.ne_void
  | named name =>
      cases e' with
      | void => exact absurd heq h.ne_void
      | named name' => exact congrArg (TypeExpr.named · .nowhere) heq

/-! ## The parts of a phrase

The printer writes text. The same text is put together here from parts, so that what is in
parentheses or in braces can be found again without counting them. -/

mutual

/-- An expression in its parts. -/
def Expr.sexp : Expr → Sexp
  | .int value _ => .word (toString value.toNat).toList
  | .float value _ => .word (renderFloat value).toList
  | .bool value _ => .word (if value then "true" else "false").toList
  | .string value _ => .quoted '"' value.toList
  | .char value _ => .quoted '\'' [value]
  | .ident name _ => .word name.toList
  | .unary op operand _ => .node op.symbol.toList [operand.sexp]
  | .binary op lhs rhs _ => .node op.symbol.toList [lhs.sexp, rhs.sexp]
  | .step s overflow fixity operand _ =>
    .node (fixity.word ++ overflow.mark ++ s.symbol).toList [operand.sexp]
  | .call callee args _ => .node "call".toList (.word callee.toList :: Expr.sexps args)

/-- Expressions in their parts. -/
def Expr.sexps : List Expr → List Sexp
  | [] => []
  | e :: rest => e.sexp :: Expr.sexps rest

end

/-- A binding in its parts. -/
def Binding.sexp (b : Binding) : Sexp :=
  .node b.mutability.word.toList
    (.word b.name.toList :: ((b.type.elim [] fun t => [.word [':'], .word t.render.toList]) ++
      Expr.sexps b.init.toList))

mutual

/-- A statement in its parts. -/
def Statement.sexp : Statement → Sexp
  | .expr e => e.sexp
  | .bind b => b.sexp
  | .ret values _ => .node "return".toList (Expr.sexps values)
  | .block statements _ => .braces (Statement.sexps statements)
  | .namedBlock name _ statements _ =>
    .node "label".toList [.word name.toList, .braces (Statement.sexps statements)]

/-- Statements in their parts. -/
def Statement.sexps : List Statement → List Sexp
  | [] => []
  | s :: rest => s.sexp :: Statement.sexps rest

end

open Sexp

mutual

/-- An expression is written as its parts. -/
theorem Expr.toList_render : ∀ e : Expr, e.render.toList = e.sexp.text
  | .int _ _ | .float _ _ | .bool _ _ | .ident _ _ => rfl
  | .string value _ => by rw [render, quoteString, String.toList_ofList]; rfl
  | .char value _ => by rw [render, quoteChar, String.toList_ofList]; rfl
  | .unary op operand _ => by
      simp [render, sexp, text, textEach, String.toList_append, toList_render operand]
  | .binary op lhs rhs _ => by
      simp [render, sexp, text, textEach, String.toList_append, toList_render lhs, toList_render rhs]
  | .step s overflow fixity operand _ => by
      simp [render, sexp, text, textEach, String.toList_append, toList_render operand]
  | .call callee args _ => by
      simp [render, sexp, text, textEach, String.toList_append, toList_renderEach args]

theorem Expr.toList_renderEach : ∀ es : List Expr, (renderEach es).toList = textEach (sexps es)
  | [] => rfl
  | e :: rest => by
      simp [renderEach, sexps, textEach, String.toList_append, toList_render e,
        toList_renderEach rest]

end

theorem Binding.toList_render (b : Binding) : b.render.toList = b.sexp.text := by
  obtain ⟨name, type, init, mutability, loc⟩ := b
  cases type <;> cases init <;>
    simp [render, sexp, text, textEach, String.toList_append, Expr.sexps, Expr.toList_render]

mutual

/-- A statement is written as its parts. -/
theorem Statement.toList_render : ∀ s : Statement, s.render.toList = s.sexp.text
  | .expr e => e.toList_render
  | .bind b => b.toList_render
  | .ret values _ => by
      simp [render, sexp, text, String.toList_append, Expr.toList_renderEach]
  | .block statements _ => by
      simp [render, sexp, text, String.toList_append, toList_renderEach statements]
  | .namedBlock name _ statements _ => by
      simp [render, sexp, text, textEach, String.toList_append, toList_renderEach statements]

theorem Statement.toList_renderEach :
    ∀ ss : List Statement, (renderEach ss).toList = textEach (sexps ss)
  | [] => rfl
  | s :: rest => by
      simp [renderEach, sexps, textEach, String.toList_append, toList_render s,
        toList_renderEach rest]

end

/-! ## Parts are legible

Words have no character in them that ends a word, and quoted texts are quoted as the printer does
it. This is what reading the parts back from a text depends on. -/

theorem isWord_symbol (op : BinaryOp) : IsWord op.symbol.toList := by
  cases op with
  | add o | sub o | mul o | shl o | addAssign o | subAssign o | mulAssign o | shlAssign o =>
      cases o <;> decide
  | _ => decide

theorem isWord_unarySymbol (op : UnaryOp) : IsWord op.symbol.toList := by
  cases op <;> decide

theorem isWord_step (s : Step) (overflow : Overflow) (fixity : Fixity) :
    IsWord (fixity.word ++ overflow.mark ++ s.symbol).toList := by
  cases s <;> cases overflow <;> cases fixity <;> decide

theorem isWord_toString (n : Nat) : IsWord (toString n).toList := by
  refine ⟨?_, fun c hc => isSolid_of_isWordChar ?_⟩
  · rw [toList_toString]
    exact Nat.toDigits_ne_nil
  · simp [isWordChar, Char.isAlphanum, isDigit_toString n c hc]

theorem isWord_name {name : String} (h : isName name) : IsWord name.toList :=
  isWord_of_isWordText (isWordText_of_isName h)

mutual

theorem Expr.legible_sexp : ∀ {e : Expr}, Legible e.nodes → e.sexp.Legible
  | .int value _, _ => isWord_toString value.toNat
  | .float _ _, h => absurd (h _ List.mem_cons_self).2 (by simp [Node.isFloat])
  | .bool true _, _ | .bool false _, _ => (by decide : IsWord _)
  | .string _ _, _ => .inl rfl
  | .char _ _, _ => .inr rfl
  | .ident _ _, h => isWord_name (h _ List.mem_cons_self).1
  | .unary op _ _, h => ⟨isWord_unarySymbol op, legible_sexp (legible_cons.mp h).2, trivial⟩
  | .binary op _ _ _, h =>
    have hnodes := legible_append.mp (legible_cons.mp h).2
    ⟨isWord_symbol op, legible_sexp hnodes.1, legible_sexp hnodes.2, trivial⟩
  | .step s overflow fixity _ _, h =>
    ⟨isWord_step s overflow fixity, legible_sexp (legible_cons.mp h).2, trivial⟩
  | .call _ _ _, h =>
    ⟨by decide, isWord_name (h _ List.mem_cons_self).1,
      legible_sexps (legible_cons.mp h).2⟩

theorem Expr.legible_sexps : ∀ {es : List Expr}, Legible (nodesEach es) → AllLegible (sexps es)
  | [], _ => trivial
  | _ :: _, h =>
    have hnodes := legible_append.mp h
    ⟨legible_sexp hnodes.1, legible_sexps hnodes.2⟩

end

theorem Binding.legible_sexp {b : Binding} (h : Legible b.nodes) : b.sexp.Legible := by
  obtain ⟨⟨hname, -⟩, hnodes⟩ := legible_cons.mp h
  obtain ⟨htype, hinit⟩ := legible_append.mp hnodes
  have hword : IsWord b.mutability.word.toList := by
    cases b.mutability <;> decide
  refine ⟨hword, isWord_name hname, ?_⟩
  cases hb : b.type with
  | none => exact Expr.legible_sexps hinit
  | some t =>
      have ht : t.Printable := (htype (.type t) (by rw [hb]; exact List.mem_cons_self)).1
      exact ⟨(by decide : IsWord [':']), isWord_of_isWordText ht.isWordText,
        Expr.legible_sexps hinit⟩

mutual

theorem Statement.legible_sexp : ∀ {s : Statement}, Legible s.nodes → s.sexp.Legible
  | .expr _, h => Expr.legible_sexp h
  | .bind _, h => Binding.legible_sexp h
  | .ret _ _, h => ⟨by decide, Expr.legible_sexps (legible_cons.mp h).2⟩
  | .block _ _, h => legible_sexps (legible_cons.mp h).2
  | .namedBlock _ _ _ _, h =>
    ⟨by decide, isWord_name (h _ List.mem_cons_self).1,
      legible_sexps (legible_cons.mp (legible_cons.mp h).2).2, trivial⟩

theorem Statement.legible_sexps :
    ∀ {ss : List Statement}, Legible (nodesEach ss) → AllLegible (sexps ss)
  | [], _ => trivial
  | _ :: _, h =>
    have hnodes := legible_append.mp h
    ⟨legible_sexp hnodes.1, legible_sexps hnodes.2⟩

end

/-! ## What phrase it is

A part in parentheses is told by its first word. Most of these words are listed; what is left are the
words of steps, which start with a letter, and operators, which are told apart by the number of their
operands: `-` stands in front of one or between two. -/

/-- The kinds of phrases. The parts of a tree tell which of them it is (`Sexp.phrase`). -/
inductive Phrase where
  | number
  | truth
  | name
  | string
  | char
  | unary
  | binary
  | step
  | call
  | binding
  | ret
  | block
  | namedBlock
  | namespaceLine
  | function
deriving DecidableEq

/-- The words that phrases start with, except for operators and steps. -/
def headWords : List (List Char × Phrase) :=
  [("call".toList, .call), ("let".toList, .binding), ("val".toList, .binding),
    ("const".toList, .binding), ("return".toList, .ret), ("label".toList, .namedBlock),
    ("namespace".toList, .namespaceLine), ("fn".toList, .function)]

/-- What phrase has the parts. -/
def Sexp.phrase : Sexp → Phrase
  | word text =>
    if text.head?.any Char.isDigit then .number
    else if wordKind text = .identifier then .name
    else .truth
  | quoted delimiter _ => if delimiter = '"' then .string else .char
  | node head parts =>
    match headWords.lookup head with
    | some phrase => phrase
    | none =>
      if head.head?.any isWordStart then .step
      else if parts.length = 1 then .unary
      else .binary
  | braces _ => .block

/-- What phrase an expression is. -/
def Expr.phrase : Expr → Phrase
  | int _ _ | float _ _ => .number
  | bool _ _ => .truth
  | string _ _ => .string
  | char _ _ => .char
  | ident _ _ => .name
  | unary _ _ _ => .unary
  | binary _ _ _ _ => .binary
  | step _ _ _ _ _ => .step
  | call _ _ _ => .call

/-- What phrase a statement is. -/
def Statement.phrase : Statement → Phrase
  | expr e => e.phrase
  | bind _ => .binding
  | ret _ _ => .ret
  | block _ _ => .block
  | namedBlock _ _ _ _ => .namedBlock

theorem isDigit_head_toString (n : Nat) : (toString n).toList.head?.any Char.isDigit = true := by
  obtain ⟨c, rest, htext⟩ := List.exists_cons_of_ne_nil (isWord_toString n).1
  have hc := isDigit_toString n c (by rw [htext]; exact List.mem_cons_self)
  rw [htext]
  exact hc

/-- A name does not start with a digit. -/
theorem not_isDigit_head_name {name : String} (h : isName name) :
    name.toList.head?.any Char.isDigit = false := by
  have htext := isWordText_of_isName h
  rw [isWordText, Bool.and_eq_true] at htext
  cases hname : name.toList with
  | nil => rfl
  | cons c rest =>
      rw [hname] at htext
      have hstart : isWordStart c = true := htext.1
      refine eq_false_of_ne_true fun hc => ?_
      rw [not_isWordStart_of_isDigit hc] at hstart
      cases hstart

theorem Expr.phrase_sexp {e : Expr} (h : Legible e.nodes) : e.sexp.phrase = e.phrase := by
  cases e with
  | int value => exact if_pos (isDigit_head_toString value.toNat)
  | float => exact absurd (h _ List.mem_cons_self).2 (by simp [Node.isFloat])
  | bool value => cases value <;> rfl
  | string | char => rfl
  | ident name =>
      have hname : isName name := (h _ List.mem_cons_self).1
      rw [sexp, Sexp.phrase, not_isDigit_head_name hname, if_neg Bool.false_ne_true,
        if_pos (wordKind_of_isName hname)]
      rfl
  | unary op => cases op <;> rfl
  | binary op =>
      cases op with
      | add o | sub o | mul o | shl o | addAssign o | subAssign o | mulAssign o | shlAssign o =>
          cases o <;> rfl
      | _ => rfl
  | step s overflow fixity => cases s <;> cases overflow <;> cases fixity <;> rfl
  | call => rfl

theorem Statement.phrase_sexp {s : Statement} (h : Legible s.nodes) :
    s.sexp.phrase = s.phrase := by
  cases s with
  | expr e => exact Expr.phrase_sexp h
  | bind b =>
      have hword : headWords.lookup b.mutability.word.toList = some .binding := by
        cases b.mutability <;> rfl
      rw [sexp, Binding.sexp, Sexp.phrase, hword]
      rfl
  | ret | block | namedBlock => rfl

/-! ## Phrases from their parts

The parts tell what phrase it is, so both trees have the same constructor, and their parts are
compared one by one. Two phrases are equal up to their locations. -/

theorem UnaryOp.symbol_injective : Function.Injective UnaryOp.symbol := by
  intro op op' h
  cases op <;> cases op' <;> first | rfl | exact absurd h (by decide)

theorem BinaryOp.mem_all (op : BinaryOp) : op ∈ BinaryOp.all := by
  cases op with
  | add o | sub o | mul o | shl o | addAssign o | subAssign o | mulAssign o | shlAssign o =>
      cases o <;> decide
  | _ => decide

theorem BinaryOp.symbol_injective : Function.Injective BinaryOp.symbol := by
  have hall : ∀ op ∈ BinaryOp.all, ∀ op' ∈ BinaryOp.all, op.symbol = op'.symbol → op = op' := by
    decide +kernel
  exact fun op op' => hall op op.mem_all op' op'.mem_all

/-- The word of a step says which step it is. -/
theorem step_word_inj {s s' : Step} {overflow overflow' : Overflow} {fixity fixity' : Fixity}
    (h : fixity.word ++ overflow.mark ++ s.symbol = fixity'.word ++ overflow'.mark ++ s'.symbol) :
    s = s' ∧ overflow = overflow' ∧ fixity = fixity' := by
  have hall : ∀ s ∈ Step.all, ∀ s' ∈ Step.all, ∀ o ∈ Overflow.all, ∀ o' ∈ Overflow.all,
      ∀ f ∈ [Fixity.before, .after], ∀ f' ∈ [Fixity.before, .after],
      f.word ++ o.mark ++ s.symbol = f'.word ++ o'.mark ++ s'.symbol →
        s = s' ∧ o = o' ∧ f = f' := by decide +kernel
  have hs (s : Step) : s ∈ Step.all := by cases s <;> decide
  have ho (o : Overflow) : o ∈ Overflow.all := by cases o <;> decide
  have hf (f : Fixity) : f ∈ [Fixity.before, .after] := by cases f <;> decide
  exact hall s (hs s) s' (hs s') overflow (ho _) overflow' (ho _) fixity (hf _) fixity' (hf _) h

theorem toString_toNat_inj {v v' : UInt64}
    (h : (toString v.toNat).toList = (toString v'.toNat).toList) : v = v' := by
  rw [toList_toString, toList_toString] at h
  have hvalue (n : Nat) : Nat.ofDigitChars 10 (Nat.toDigits 10 n) 0 = n :=
    Nat.ofDigitChars_toDigits (by decide) (by decide)
  exact UInt64.toNat_inj.mp (by rw [← hvalue v.toNat, h, hvalue])

theorem Expr.phrase_eq {e e' : Expr} (h : Legible e.nodes) (h' : Legible e'.nodes)
    (heq : e.sexp = e'.sexp) : e.phrase = e'.phrase := by
  rw [← phrase_sexp h, heq, phrase_sexp h']

mutual

/-- Expressions that have the same parts are equal up to locations. -/
theorem Expr.bare_eq : ∀ {e e' : Expr}, Legible e.nodes → Legible e'.nodes → e.sexp = e'.sexp →
    e.bare = e'.bare
  | .float _ _, _, h, _, _ => absurd (h _ List.mem_cons_self).2 (by simp [Node.isFloat])
  | .int value loc, e', h, h', heq => by
      -- in every case the phrase rules out all trees of another form
      have hphrase := phrase_eq h h' heq
      cases e' with
      | int value' =>
          rw [bare, bare, toString_toNat_inj (Sexp.word.inj heq)]
      | float => exact absurd (h' _ List.mem_cons_self).2 (by simp [Node.isFloat])
      | _ => cases hphrase
  | .bool value loc, e', h, h', heq => by
      have hphrase := phrase_eq h h' heq
      cases e' with
      | bool value' =>
          have hword := String.toList_inj.mp (Sexp.word.inj heq)
          cases value <;> cases value' <;> first | rfl | exact absurd hword (by decide)
      | _ => cases hphrase
  | .string value loc, e', h, h', heq => by
      have hphrase := phrase_eq h h' heq
      cases e' with
      | string value' => rw [bare, bare, String.toList_inj.mp (Sexp.quoted.inj heq).2]
      | _ => cases hphrase
  | .char value loc, e', h, h', heq => by
      have hphrase := phrase_eq h h' heq
      cases e' with
      | char value' => rw [bare, bare, (List.cons.inj (Sexp.quoted.inj heq).2).1]
      | _ => cases hphrase
  | .ident name loc, e', h, h', heq => by
      have hphrase := phrase_eq h h' heq
      cases e' with
      | ident name' => rw [bare, bare, String.toList_inj.mp (Sexp.word.inj heq)]
      | _ => cases hphrase
  | .unary op operand loc, e', h, h', heq => by
      have hphrase := phrase_eq h h' heq
      cases e' with
      | unary op' operand' =>
          obtain ⟨hop, hparts⟩ := Sexp.node.inj heq
          rw [bare, bare, UnaryOp.symbol_injective (String.toList_inj.mp hop),
            bare_eq (legible_cons.mp h).2 (legible_cons.mp h').2 (List.cons.inj hparts).1]
      | _ => cases hphrase
  | .binary op lhs rhs loc, e', h, h', heq => by
      have hphrase := phrase_eq h h' heq
      cases e' with
      | binary op' lhs' rhs' =>
          obtain ⟨hop, hparts⟩ := Sexp.node.inj heq
          obtain ⟨hlhs, hrest⟩ := List.cons.inj hparts
          have hnodes := legible_append.mp (legible_cons.mp h).2
          have hnodes' := legible_append.mp (legible_cons.mp h').2
          rw [bare, bare, BinaryOp.symbol_injective (String.toList_inj.mp hop),
            bare_eq hnodes.1 hnodes'.1 hlhs, bare_eq hnodes.2 hnodes'.2 (List.cons.inj hrest).1]
      | _ => cases hphrase
  | .step s overflow fixity operand loc, e', h, h', heq => by
      have hphrase := phrase_eq h h' heq
      cases e' with
      | step s' overflow' fixity' operand' =>
          obtain ⟨hword, hparts⟩ := Sexp.node.inj heq
          obtain ⟨rfl, rfl, rfl⟩ := step_word_inj (String.toList_inj.mp hword)
          rw [bare, bare,
            bare_eq (legible_cons.mp h).2 (legible_cons.mp h').2 (List.cons.inj hparts).1]
      | _ => cases hphrase
  | .call callee args loc, e', h, h', heq => by
      have hphrase := phrase_eq h h' heq
      cases e' with
      | call callee' args' =>
          obtain ⟨hcallee, hargs⟩ := List.cons.inj (Sexp.node.inj heq).2
          rw [bare, bare, String.toList_inj.mp (Sexp.word.inj hcallee),
            bareAll_eq (legible_cons.mp h).2 (legible_cons.mp h').2 hargs]
      | _ => cases hphrase

theorem Expr.bareAll_eq : ∀ {es es' : List Expr}, Legible (nodesEach es) →
    Legible (nodesEach es') → sexps es = sexps es' → bareAll es = bareAll es'
  | [], [], _, _, _ => rfl
  | [], _ :: _, _, _, heq => by cases heq
  | _ :: _, [], _, _, heq => by cases heq
  | _ :: _, _ :: _, h, h', heq => by
      obtain ⟨hfirst, hrest⟩ := List.cons.inj heq
      have hnodes := legible_append.mp h
      have hnodes' := legible_append.mp h'
      rw [bareAll, bareAll, bare_eq hnodes.1 hnodes'.1 hfirst, bareAll_eq hnodes.2 hnodes'.2 hrest]

end

theorem Mutability.word_injective : Function.Injective Mutability.word := by
  intro m m' h
  cases m <;> cases m' <;> first | rfl | exact absurd h (by decide)

theorem Binding.bare_eq {b b' : Binding} (h : Legible b.nodes) (h' : Legible b'.nodes)
    (heq : b.sexp = b'.sexp) : b.bare = b'.bare := by
  obtain ⟨name, type, init, mutability, loc⟩ := b
  obtain ⟨name', type', init', mutability', loc'⟩ := b'
  obtain ⟨htype, hinit⟩ := legible_append.mp (legible_cons.mp h).2
  obtain ⟨htype', hinit'⟩ := legible_append.mp (legible_cons.mp h').2
  obtain ⟨hword, hparts⟩ := Sexp.node.inj heq
  obtain ⟨hname, hrest⟩ := List.cons.inj hparts
  obtain rfl := Mutability.word_injective (String.toList_inj.mp hword)
  obtain rfl := String.toList_inj.mp (Sexp.word.inj hname)
  have hinits (hsexps : Expr.sexps init.toList = Expr.sexps init'.toList) :
      init.map Expr.bare = init'.map Expr.bare := by
    have hbare := Expr.bareAll_eq hinit hinit' hsexps
    cases init <;> cases init' <;> simp_all
  -- a written type is two parts, and a first value is one
  cases type with
  | none =>
      cases type' with
      | none => rw [bare, bare, hinits hrest]
      | some t' => cases init <;> simp [Expr.sexps] at hrest
  | some t =>
      cases type' with
      | none => cases init' <;> simp [Expr.sexps] at hrest
      | some t' =>
          obtain ⟨htext, hsexps⟩ := List.cons.inj (List.cons.inj hrest).2
          have hbare := TypeExpr.bare_eq (htype _ List.mem_cons_self).1
            (htype' _ List.mem_cons_self).1 (String.toList_inj.mp (Sexp.word.inj htext))
          rw [bare, bare, hinits hsexps, Option.map_some, Option.map_some, hbare]

/-- The phrases that are expressions. -/
def Phrase.isExpr : Phrase → Bool
  | number | truth | name | string | char | unary | binary | step | call => true
  | _ => false

theorem Expr.phrase_ne {phrase : Phrase} (h : phrase.isExpr = false) (e : Expr) :
    e.phrase ≠ phrase := by
  rintro rfl
  cases e <;> cases h

theorem Statement.phrase_eq {s s' : Statement} (h : Legible s.nodes) (h' : Legible s'.nodes)
    (heq : s.sexp = s'.sexp) : s.phrase = s'.phrase := by
  rw [← phrase_sexp h, heq, phrase_sexp h']

mutual

/-- Statements that have the same parts are equal up to locations. -/
theorem Statement.bare_eq : ∀ {s s' : Statement}, Legible s.nodes → Legible s'.nodes →
    s.sexp = s'.sexp → s.bare = s'.bare
  | .expr e, s', h, h', heq => by
      -- an expression is a statement by itself; no other statement has the parts of one
      have hphrase := phrase_eq h h' heq
      cases s' with
      | expr e' => rw [bare, bare, Expr.bare_eq h h' heq]
      | _ => exact absurd hphrase (e.phrase_ne rfl)
  | .bind b, s', h, h', heq => by
      have hphrase := phrase_eq h h' heq
      cases s' with
      | bind b' => rw [bare, bare, Binding.bare_eq h h' heq]
      | expr e' => exact absurd hphrase.symm (e'.phrase_ne rfl)
      | _ => cases hphrase
  | .ret values loc, s', h, h', heq => by
      have hphrase := phrase_eq h h' heq
      cases s' with
      | ret values' =>
          rw [bare, bare, Expr.bareAll_eq (legible_cons.mp h).2 (legible_cons.mp h').2
            (Sexp.node.inj heq).2]
      | expr e' => exact absurd hphrase.symm (e'.phrase_ne rfl)
      | _ => cases hphrase
  | .block statements loc, s', h, h', heq => by
      have hphrase := phrase_eq h h' heq
      cases s' with
      | block statements' =>
          rw [bare, bare, bareAll_eq (legible_cons.mp h).2 (legible_cons.mp h').2
            (Sexp.braces.inj heq)]
      | expr e' => exact absurd hphrase.symm (e'.phrase_ne rfl)
      | _ => cases hphrase
  | .namedBlock name nameLoc statements loc, s', h, h', heq => by
      have hphrase := phrase_eq h h' heq
      cases s' with
      | namedBlock name' nameLoc' statements' =>
          obtain ⟨hname, hbody⟩ := List.cons.inj (Sexp.node.inj heq).2
          have hnodes := (legible_cons.mp (legible_cons.mp h).2).2
          have hnodes' := (legible_cons.mp (legible_cons.mp h').2).2
          rw [bare, bare, String.toList_inj.mp (Sexp.word.inj hname),
            bareAll_eq hnodes hnodes' (Sexp.braces.inj (List.cons.inj hbody).1)]
      | expr e' => exact absurd hphrase.symm (e'.phrase_ne rfl)
      | _ => cases hphrase

theorem Statement.bareAll_eq : ∀ {ss ss' : List Statement}, Legible (nodesEach ss) →
    Legible (nodesEach ss') → sexps ss = sexps ss' → bareAll ss = bareAll ss'
  | [], [], _, _, _ => rfl
  | [], _ :: _, _, _, heq => by cases heq
  | _ :: _, [], _, _, heq => by cases heq
  | _ :: _, _ :: _, h, h', heq => by
      obtain ⟨hfirst, hrest⟩ := List.cons.inj heq
      have hnodes := legible_append.mp h
      have hnodes' := legible_append.mp h'
      rw [bareAll, bareAll, bare_eq hnodes.1 hnodes'.1 hfirst, bareAll_eq hnodes.2 hnodes'.2 hrest]

end

end FrontEnd
