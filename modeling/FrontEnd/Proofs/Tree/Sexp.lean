import FrontEnd.Proofs.Text.Quoted

set_option autoImplicit false

/-! # Nested texts

Trees are written as words, quoted texts, and parts in parentheses or braces, with single spaces
between them. Such a text tells where it ends and which parts it is made of
(`Sexp.text_append_inj`), as long as no word holds a space, a bracket or a quote: then the first
character says what kind of part it is, a word ends at the first character that no word holds, and
brackets end where theirs is closed.

Nothing is parsed here. Two texts that start with parts and are equal have equal parts and equal
rests, and the induction is on the parts of the one while the other one is taken apart along with
it. Carrying a rest along is what makes the induction go through, as the rest of a part is the
beginning of the next one.
-/

namespace FrontEnd

/-- A text in its parts. What stands in parentheses starts with a word. It is read back from the
text without knowing what the words mean. -/
inductive Sexp where
  | word (text : List Char)
  | quoted (delimiter : Char) (text : List Char)
  | node (head : List Char) (parts : List Sexp)
  | braces (parts : List Sexp)

namespace Sexp

mutual

/-- The text itself. -/
def text : Sexp → List Char
  | word text => text
  | quoted delimiter text => quote delimiter text
  | node head parts => '(' :: (head ++ (textEach parts ++ [')']))
  | braces parts => '\x7b' :: (textEach parts ++ [' ', '\x7d'])

/-- The texts of some parts, a space before each. -/
def textEach : List Sexp → List Char
  | [] => []
  | part :: rest => ' ' :: (part.text ++ textEach rest)

end

/-- The characters that words may hold. -/
def isSolid (c : Char) : Bool := !" ()\x7b\x7d\"'".toList.contains c

/-- A word is not empty. -/
def IsWord (text : List Char) : Prop := text ≠ [] ∧ ∀ c ∈ text, isSolid c = true

instance (text : List Char) : Decidable (IsWord text) :=
  decidable_of_iff (text ≠ [] ∧ text.all isSolid = true) (by rw [IsWord, List.all_eq_true])

mutual

/-- All words in it are words: none of them is empty or holds a character that ends a word. Quoted
texts may hold anything, as they are written with their delimiters escaped. -/
def Legible : Sexp → Prop
  | word text => IsWord text
  | quoted delimiter _ => IsDelimiter delimiter
  | node head parts => IsWord head ∧ AllLegible parts
  | braces parts => AllLegible parts

def AllLegible : List Sexp → Prop
  | [] => True
  | part :: rest => part.Legible ∧ AllLegible rest

end

/-! ## What kind of part it is -/

/-- The kinds of parts. -/
inductive Shape where
  | word
  | quoted
  | node
  | braces

/-- The kind of a part. -/
def shape : Sexp → Shape
  | word _ => .word
  | quoted _ _ => .quoted
  | node _ _ => .node
  | braces _ => .braces

/-- The kind of the parts that start with a character. -/
def shapeAt? (c : Char) : Option Shape :=
  if isSolid c then some .word
  else if c = '"' ∨ c = '\'' then some .quoted
  else if c = '(' then some .node
  else if c = '\x7b' then some .braces
  else none

/-- The first character says which kind it is. -/
theorem Legible.exists_head {e : Sexp} (h : e.Legible) :
    ∃ c rest, e.text = c :: rest ∧ shapeAt? c = some e.shape := by
  cases e with
  | word text =>
      obtain ⟨c, rest, rfl⟩ := List.exists_cons_of_ne_nil h.1
      exact ⟨c, rest, rfl, if_pos (h.2 c List.mem_cons_self)⟩
  | quoted delimiter text =>
      refine ⟨delimiter, _, rfl, ?_⟩
      rcases h with rfl | rfl <;> rfl
  | node | braces => exact ⟨_, _, rfl, rfl⟩

theorem Legible.shape_eq {e e' : Sexp} {rest rest' : List Char} (h : e.Legible) (h' : e'.Legible)
    (heq : e.text ++ rest = e'.text ++ rest') : e.shape = e'.shape := by
  obtain ⟨c, own, htext, hshape⟩ := h.exists_head
  obtain ⟨c', own', htext', hshape'⟩ := h'.exists_head
  rw [htext, htext'] at heq
  obtain ⟨rfl, -⟩ := List.cons.inj heq
  exact Option.some.inj (hshape.symm.trans hshape')

/-- No part starts with a closing brace. -/
theorem Legible.text_append_ne {e : Sexp} (h : e.Legible) (rest rest' : List Char) :
    e.text ++ rest ≠ '\x7d' :: rest' := by
  obtain ⟨c, own, htext, hshape⟩ := h.exists_head
  rw [htext]
  rintro ⟨⟩
  cases hshape

/-! ## Where a part ends

A word ends at a space or a closing sign, a quoted text at its delimiter, and what stands in
parentheses or braces at the sign that closes it. -/

/-- The text ends some parts: a closing parenthesis, or a space and a closing brace. A further part
would begin with a space too, so the character behind the space has to be looked at. -/
def Closes (text : List Char) : Prop :=
  (∃ rest, text = ')' :: rest) ∨ ∃ rest, text = ' ' :: '\x7d' :: rest

/-- Behind a part stands no further character of a word. -/
theorem stopsAt_textEach {rest : List Char} (hrest : Closes rest) (parts : List Sexp) :
    StopsAt isSolid (textEach parts ++ rest) := by
  cases parts with
  | nil =>
      rcases hrest with ⟨rest, rfl⟩ | ⟨rest, rfl⟩
      · exact .cons (by decide) rest
      · exact .cons (by decide) _
  | cons part parts => exact .cons (by decide) _

theorem Closes.ne_part {text : List Char} (h : Closes text) {part : Sexp} (hpart : part.Legible)
    (rest : List Char) : text ≠ ' ' :: (part.text ++ rest) := by
  rcases h with ⟨rest', rfl⟩ | ⟨rest', rfl⟩
  · exact fun heq => by cases heq
  · exact fun heq => hpart.text_append_ne _ _ (List.cons.inj heq).2.symm

mutual

/-- A text tells where it ends and what its parts are. -/
theorem text_append_inj : ∀ {e e' : Sexp} {rest rest' : List Char}, e.Legible → e'.Legible →
    StopsAt isSolid rest → StopsAt isSolid rest' → e.text ++ rest = e'.text ++ rest' →
    e = e' ∧ rest = rest'
  | .word text, e', rest, rest', h, h', hrest, hrest', heq => by
      have hshape := h.shape_eq h' heq
      cases e' with
      | word text' =>
          obtain ⟨rfl, rfl⟩ := hrest.append_inj h.2 h'.2 hrest' heq
          exact ⟨rfl, rfl⟩
      | quoted | node | braces => cases hshape
  | .quoted delimiter text, e', rest, rest', h, h', _, _, heq => by
      have hshape := h.shape_eq h' heq
      cases e' with
      | quoted delimiter' text' =>
          obtain ⟨rfl, -⟩ := List.cons.inj heq
          obtain ⟨rfl, rfl⟩ := quote_append_inj h heq
          exact ⟨rfl, rfl⟩
      | word | node | braces => cases hshape
  | .node head parts, e', rest, rest', h, h', _, _, heq => by
      have hshape := h.shape_eq h' heq
      cases e' with
      | node head' parts' =>
          have hcloses (rest : List Char) : Closes (')' :: rest) := .inl ⟨rest, rfl⟩
          simp only [text, List.cons_append, List.append_assoc, List.cons.injEq, true_and] at heq
          -- the head ends at the first space or closing sign, and the parts at the closing
          -- parenthesis
          obtain ⟨rfl, hparts⟩ := (stopsAt_textEach (hcloses rest) parts).append_inj h.1.2 h'.1.2
            (stopsAt_textEach (hcloses rest') parts') heq
          obtain ⟨rfl, hrest⟩ :=
            textEach_append_inj h.2 h'.2 (hcloses rest) (hcloses rest') hparts
          exact ⟨rfl, (List.cons.inj hrest).2⟩
      | word | quoted | braces => cases hshape
  | .braces parts, e', rest, rest', h, h', _, _, heq => by
      have hshape := h.shape_eq h' heq
      cases e' with
      | braces parts' =>
          have hcloses (rest : List Char) : Closes (' ' :: '\x7d' :: rest) := .inr ⟨rest, rfl⟩
          simp only [text, List.cons_append, List.append_assoc, List.cons.injEq, true_and] at heq
          obtain ⟨rfl, hrest⟩ := textEach_append_inj h h' (hcloses rest) (hcloses rest') heq
          exact ⟨rfl, (List.cons.inj (List.cons.inj hrest).2).2⟩
      | word | quoted | node => cases hshape

/-- The texts of some parts tell where they end and what the parts are. -/
theorem textEach_append_inj : ∀ {parts parts' : List Sexp} {rest rest' : List Char},
    AllLegible parts → AllLegible parts' → Closes rest → Closes rest' →
    textEach parts ++ rest = textEach parts' ++ rest' → parts = parts' ∧ rest = rest'
  | [], [], _, _, _, _, _, _, heq => ⟨rfl, heq⟩
  | [], _ :: _, _, _, _, h', hrest, _, heq => by
      simp only [textEach, List.nil_append, List.cons_append, List.append_assoc] at heq
      exact absurd heq (hrest.ne_part h'.1 _)
  | _ :: _, [], _, _, h, _, _, hrest', heq => by
      simp only [textEach, List.nil_append, List.cons_append, List.append_assoc] at heq
      exact absurd heq.symm (hrest'.ne_part h.1 _)
  | _ :: parts, _ :: parts', _, _, h, h', hrest, hrest', heq => by
      simp only [textEach, List.cons_append, List.append_assoc, List.cons.injEq, true_and] at heq
      obtain ⟨rfl, hparts⟩ := text_append_inj h.1 h'.1 (stopsAt_textEach hrest parts)
        (stopsAt_textEach hrest' parts') heq
      obtain ⟨rfl, hrest⟩ := textEach_append_inj h.2 h'.2 hrest hrest' hparts
      exact ⟨rfl, hrest⟩

end

end Sexp

end FrontEnd
