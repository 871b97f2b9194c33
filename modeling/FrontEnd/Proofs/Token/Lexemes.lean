import FrontEnd.Proofs.Token.Stream
import FrontEnd.Source.Buffer
import Mathlib.Data.List.Chain

set_option autoImplicit false

/-! # Texts with spaces between the tokens

A `Lexeme` is a token without its place. A lexeme `Scans` if its text is found as one token of its
kind wherever a space or nothing follows. A buffer holds a text in which such lexemes are separated by
single spaces as it is.

That a lexeme scans is a property of its text alone, and does not depend on the lexemes around it.
It is asked that it holds no line end which a buffer would change, since a literal may go over
several lines.
-/

namespace FrontEnd

/-- A kind of tokens, and the text of one of them. It is what is left of a token when its place is
forgotten. -/
structure Lexeme where
  kind : Kind
  text : String
deriving DecidableEq, Repr

/-- A token without its place. -/
def Token.bare (t : Token) : Lexeme := ⟨t.kind, t.lexeme⟩

theorem Token.bare_kind {t : Token} {l : Lexeme} (h : t.bare = l) : t.kind = l.kind :=
  congrArg Lexeme.kind h

theorem Token.bare_text {t : Token} {l : Lexeme} (h : t.bare = l) : t.lexeme = l.text :=
  congrArg Lexeme.text h

/-- The text of some lexemes, with single spaces between them. -/
def spaced (lexemes : List Lexeme) : String := " ".intercalate (lexemes.map (·.text))

/-- The text is empty or starts with a space. -/
def Apart (rest : List Char) : Prop := ∀ c ∈ rest.head?, c = ' '

theorem Apart.nil : Apart [] := by simp [Apart]

/-- No carriage return stands directly before a line feed. Such a text is not changed when its line
ends are normalised. -/
def NoCrLf (text : List Char) : Prop := text.IsChain fun c d => c = '\r' → d ≠ '\n'

/-- The lexeme is found in front of a space, and at the end of a text. It is no blank and starts no
comment, it is scanned up to its end, and it has the kind that it should have. -/
structure Lexeme.Scans (l : Lexeme) : Prop where
  inner : l.kind ≠ .endOfFile
  valid : l.kind ≠ .invalid
  lines : NoCrLf l.text.toList
  gap : ∀ n rest, Apart rest → Gap.scan .blank n (l.text.toList ++ rest) = .closed n
  scan : ∃ c cs, l.text.toList = c :: cs ∧
    ∀ rest, Apart rest → scan c (cs ++ rest) = .token l.kind l.text.toList.length

/-! ## Spaced texts -/

/-- The text of some lexemes, with a space in front of each. -/
def spacedBehind (lexemes : List Lexeme) : List Char :=
  lexemes.flatMap fun l => ' ' :: l.text.toList

theorem toList_spaced (l : Lexeme) (lexemes : List Lexeme) :
    (spaced (l :: lexemes)).toList = l.text.toList ++ spacedBehind lexemes := by
  rw [spaced, String.toList_intercalate]
  induction lexemes generalizing l with
  | nil => simp [spacedBehind]
  | cons l' lexemes ih => simpa [spacedBehind] using ih l'

theorem Cursor.next_end {c : Cursor} (hc : c.rest = []) : c.next.1.kind = .endOfFile := by
  have hgap : gap c.rest = .closed 0 := by rw [hc]; rfl
  rw [Cursor.next, hgap]
  simp [Cursor.skip, hc, Token.endOfFile]

/-! ## Line ends -/

theorem noCrLf_of_not_mem {text : List Char} (h : '\r' ∉ text) : NoCrLf text := by
  induction text with
  | nil => exact .nil
  | cons c text ih =>
      rw [List.mem_cons, not_or] at h
      cases text with
      | nil => exact .singleton c
      | cons d text => exact .cons_cons (fun hc => absurd hc.symm h.1) (ih h.2)

/-- A text without such pairs is left as it is. -/
theorem normalizeNewlines_eq {text : List Char} (h : NoCrLf text) :
    normalizeNewlines text = text := by
  fun_induction normalizeNewlines text with
  | case1 => rfl
  | case2 rest ih => exact absurd rfl ((List.isChain_cons_cons.mp h).1 rfl)
  | case3 c rest hpair ih => rw [ih h.of_cons]

theorem noCrLf_spacedBehind {lexemes : List Lexeme} (h : ∀ l ∈ lexemes, l.Scans) {text : List Char}
    (htext : NoCrLf text) : NoCrLf (text ++ spacedBehind lexemes) := by
  induction lexemes generalizing text with
  | nil => rwa [spacedBehind, List.flatMap_nil, List.append_nil]
  | cons l lexemes ih =>
      have hl : NoCrLf (' ' :: l.text.toList) :=
        List.isChain_cons.mpr ⟨fun _ _ => by simp, (h l List.mem_cons_self).lines⟩
      have hboth : NoCrLf (text ++ ' ' :: l.text.toList) :=
        List.isChain_append.mpr ⟨htext, hl, fun c _ d hd _ => by cases hd; decide⟩
      have hrest := ih (fun l hl => h l (List.mem_cons_of_mem _ hl)) hboth
      rwa [List.append_assoc] at hrest

/-- A spaced text is not changed when it is put into a buffer. -/
theorem chars_ofText_spaced {lexemes : List Lexeme} (h : ∀ l ∈ lexemes, l.Scans) (name : String) :
    (Buffer.ofText name (spaced lexemes)).chars = (spaced lexemes).toList := by
  rw [Buffer.chars_ofText]
  refine normalizeNewlines_eq ?_
  cases lexemes with
  | nil => exact .nil
  | cons l lexemes =>
      rw [toList_spaced]
      exact noCrLf_spacedBehind (fun l hl => h l (List.mem_cons_of_mem _ hl))
        (h l List.mem_cons_self).lines

end FrontEnd
