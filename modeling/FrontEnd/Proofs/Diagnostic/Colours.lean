import FrontEnd.Proofs.Diagnostic.Excerpt
import FrontEnd.Proofs.Token.Spelled

set_option autoImplicit false

/-! # Colours leave the text as it is

A terminal takes an escape character and what follows it, up to the next `m`, as an instruction, and
shows the rest (`visibleText`). With colours a diagnostic shows what it is without them, if its own
texts hold no escape character (`Diagnostic.visibleText_render`).

The two forms are compared part by part: `ShownAs coloured plain` says what a terminal makes of a
part, whatever stands behind it, and is kept when parts are put together. Nothing more than this is
used of the escape sequences. A styling is `Invisible` if each of its styles shows a text as the
text itself; the two forms of a diagnostic agree for every such styling
(`Diagnostic.shownAs_renderWith`), and the sequences in use make one (`Styling.ansi_invisible`).
-/

namespace FrontEnd

/-! ## What is shown

An instruction goes from the escape character to the letter that ends it. All other characters are
shown. -/

/-- The character that starts an instruction. A terminal shows nothing of what follows it, up to the
end of the instruction. -/
def escapeChar : Char := '\x1b'

/-- What is left of a text without its instructions; `inside` says that one has begun. -/
def withoutInstructions : (inside : Bool) → List Char → List Char
  | _, [] => []
  | true, c :: rest => withoutInstructions (c != 'm') rest
  | false, c :: rest =>
    if c = escapeChar then withoutInstructions true rest else c :: withoutInstructions false rest

/-- What a terminal shows of a text. -/
def visibleText (text : String) : String :=
  String.ofList (withoutInstructions false text.toList)

/-- A part of a text is shown as `plain`, whatever stands behind it. So parts that are shown as
others can be put together one by one. -/
def ShownAs (coloured plain : String) : Prop :=
  ∀ rest, withoutInstructions false (coloured.toList ++ rest) =
    plain.toList ++ withoutInstructions false rest

/-- The text holds no escape character. -/
def NoEscape (text : String) : Prop := escapeChar ∉ text.toList

instance (text : String) : Decidable (NoEscape text) :=
  inferInstanceAs (Decidable (escapeChar ∉ text.toList))

@[simp] theorem noEscape_append {s t : String} :
    NoEscape (s ++ t) ↔ NoEscape s ∧ NoEscape t := by
  simp [NoEscape]

theorem noEscape_toString (n : Nat) : NoEscape (toString n) := by
  intro h
  have hdigit := isDigit_toString n escapeChar h
  cases hdigit

theorem noEscape_repeated {c : Char} (hc : c ≠ escapeChar) (n : Nat) : NoEscape (repeated c n) := by
  intro h
  rw [repeated, String.toList_ofList, List.mem_replicate] at h
  exact hc h.2.symm

namespace ShownAs

variable {a b p q : String}

theorem visibleText_eq (h : ShownAs a p) : visibleText a = p := by
  have hall := h []
  rw [List.append_nil, withoutInstructions, List.append_nil] at hall
  rw [visibleText, hall, String.ofList_toList]

theorem append (h : ShownAs a p) (h' : ShownAs b q) : ShownAs (a ++ b) (p ++ q) := by
  intro rest
  rw [String.toList_append, List.append_assoc, h, h', String.toList_append, List.append_assoc]

/-- What holds no escape character is shown as it is. -/
theorem text (h : NoEscape a) : ShownAs a a := by
  intro rest
  unfold NoEscape at h
  generalize a.toList = chars at h ⊢
  induction chars with
  | nil => rfl
  | cons c cs ih =>
      rw [List.mem_cons, not_or] at h
      rw [List.cons_append, withoutInstructions, if_neg (Ne.symm h.1), ih h.2, List.cons_append]

/-- An instruction is not shown. -/
theorem instruction (parameters : List Char) (h : 'm' ∉ parameters) :
    ShownAs (String.ofList (escapeChar :: (parameters ++ ['m']))) "" := by
  have hinside : ∀ rest, withoutInstructions true (parameters ++ 'm' :: rest) =
      withoutInstructions false rest := by
    intro rest
    induction parameters with
    | nil => rfl
    | cons c cs ih =>
        rw [List.mem_cons, not_or] at h
        have hc : (c != 'm') = true := bne_iff_ne.mpr (Ne.symm h.1)
        rw [List.cons_append, withoutInstructions, hc, ih h.2]
  intro rest
  rw [String.toList_ofList, List.cons_append, List.append_assoc, List.singleton_append,
    withoutInstructions, if_pos rfl, hinside]
  rfl

/-- A text between two instructions is shown as it is. -/
theorem between {start stop : String} (hstart : ShownAs start "") (h : NoEscape a)
    (hstop : ShownAs stop "") : ShownAs (start ++ a ++ stop) a := by
  have hall := (hstart.append (text h)).append hstop
  rwa [String.empty_append, String.append_empty] at hall

end ShownAs

/-! ## Styles -/

/-- Whatever a styling does to a text, the text is what a terminal shows of it. The text itself must
not contain instructions, since these would not be shown either. -/
structure Styling.Invisible (s : Styling) : Prop where
  boldRed {text : String} (h : NoEscape text) : ShownAs (s.boldRed text) text
  boldYellow {text : String} (h : NoEscape text) : ShownAs (s.boldYellow text) text
  green {text : String} (h : NoEscape text) : ShownAs (s.green text) text

theorem shownAs_escapeSequence {parameters : String} (h : 'm' ∉ parameters.toList) :
    ShownAs (escapeSequence parameters) "" := by
  have hsequence : escapeSequence parameters =
      String.ofList (escapeChar :: (('[' :: parameters.toList) ++ ['m'])) := by
    apply String.toList_inj.mp
    simp [escapeSequence, escapeChar]
  rw [hsequence]
  refine .instruction _ fun hm => ?_
  rcases List.mem_cons.mp hm with hm | hm
  · cases hm
  · exact h hm

theorem Styling.ansi_invisible : Styling.ansi.Invisible := by
  have hbold : ShownAs (escapeSequence "1") "" := shownAs_escapeSequence (by decide)
  have hreset : ShownAs (escapeSequence "0") "" := shownAs_escapeSequence (by decide)
  constructor
  · intro text h
    have hred : ShownAs (escapeSequence "38;5;9") "" := shownAs_escapeSequence (by decide)
    exact .between (hred.append hbold) h hreset
  · intro text h
    have hyellow : ShownAs (escapeSequence "38;5;11") "" := shownAs_escapeSequence (by decide)
    exact .between (hyellow.append hbold) h hreset
  · intro text h
    have hgreen : ShownAs (escapeSequence "38;5;10") "" := shownAs_escapeSequence (by decide)
    have hback : ShownAs (escapeSequence "39") "" := shownAs_escapeSequence (by decide)
    exact .between hgreen h hback

/-! ## The parts of a diagnostic

The text with colours and the one without are put together from the same parts. Each of them is
shown alike, so the whole texts are. -/

theorem Severity.noEscape_label (s : Severity) : NoEscape s.label := by
  cases s <;> decide

theorem Severity.shownAs_renderLabel {styling : Styling} (hstyling : styling.Invisible)
    (s : Severity) : ShownAs (s.renderLabel styling true) (s.renderLabel styling false) := by
  cases s with
  | error => exact hstyling.boldRed (noEscape_label .error)
  | warning => exact hstyling.boldYellow (noEscape_label .warning)

theorem Location.noEscape_render {l : Location} (h : NoEscape l.file) : NoEscape l.render := by
  rw [render]
  simp only [noEscape_append]
  exact ⟨⟨⟨⟨h, by decide⟩, noEscape_toString _⟩, by decide⟩, noEscape_toString _⟩

theorem noEscape_underline (column length : Nat) : NoEscape (underline column length) := by
  rw [underline, noEscape_append]
  exact ⟨noEscape_repeated (by decide) _, noEscape_repeated (by decide) _⟩

namespace Diagnostic

variable {styling : Styling} {d : Diagnostic}

theorem noEscape_gutter : NoEscape d.gutter := by
  rw [gutter, noEscape_append]
  exact ⟨noEscape_toString _, by decide⟩

theorem noEscape_blankGutter : NoEscape d.blankGutter := by
  rw [blankGutter, noEscape_append]
  exact ⟨noEscape_repeated (by decide) _, by decide⟩

/-- The line with the place, the label and the message. -/
theorem shownAs_headline (hstyling : styling.Invisible) (hfile : NoEscape d.location.file)
    (hmessage : NoEscape d.message) :
    ShownAs (d.location.render ++ ": " ++ d.severity.renderLabel styling true ++ ": " ++
        d.message ++ "\n")
      (d.location.render ++ ": " ++ d.severity.renderLabel styling false ++ ": " ++
        d.message ++ "\n") := by
  have hplace : ShownAs d.location.render d.location.render := .text (Location.noEscape_render hfile)
  have hcolon : ShownAs ": " ": " := .text (by decide)
  have hend : ShownAs "\n" "\n" := .text (by decide)
  have hhead := (hplace.append hcolon).append (d.severity.shownAs_renderLabel hstyling)
  exact ((hhead.append hcolon).append (.text hmessage)).append hend

/-- The line of the source behind its gutter, and the marks below it. -/
theorem shownAs_excerpt (hstyling : styling.Invisible) {line : String} (hline : NoEscape line) :
    ShownAs (styling.green d.gutter ++ line ++ "\n" ++
        (styling.green d.blankGutter ++ styling.green d.marks ++ "\n"))
      (d.gutter ++ line ++ "\n" ++ (d.blankGutter ++ d.marks ++ "\n")) := by
  have hgutter : ShownAs (styling.green d.gutter) d.gutter := hstyling.green noEscape_gutter
  have hblank := hstyling.green (noEscape_blankGutter (d := d))
  have hmarks : ShownAs (styling.green d.marks) d.marks := hstyling.green (noEscape_underline _ _)
  have hend : ShownAs "\n" "\n" := .text (by decide)
  have hsource := (hgutter.append (.text hline)).append hend
  exact hsource.append ((hblank.append hmarks).append hend)

/-- With any styling that is not shown, a diagnostic with colours is shown as the one without, as long
as the name of the file, the message and the line of the source hold no escape characters. -/
theorem shownAs_renderWith (hstyling : styling.Invisible) (hfile : NoEscape d.location.file)
    (hmessage : NoEscape d.message) (hline : ∀ line ∈ d.sourceLine, NoEscape line) :
    ShownAs (d.renderWith styling true) (d.renderWith styling false) := by
  have hheadline := shownAs_headline hstyling hfile hmessage
  rw [renderWith, renderWith]
  cases hsource : d.sourceLine with
  | none =>
      have hnothing : ShownAs "" "" := .text (by decide)
      exact hheadline.append hnothing
  | some line => exact hheadline.append (shownAs_excerpt hstyling (hline line hsource))

/-- What a terminal shows of a diagnostic with colours is the diagnostic without them, as long as the
name of the file, the message and the line of the source hold no escape characters. -/
theorem visibleText_render (d : Diagnostic) (hfile : NoEscape d.location.file)
    (hmessage : NoEscape d.message) (hline : ∀ line ∈ d.sourceLine, NoEscape line) :
    visibleText (d.render true) = d.render false := by
  apply ShownAs.visibleText_eq
  exact shownAs_renderWith Styling.ansi_invisible hfile hmessage hline

/-- A warning on a line of two digits, with letters and brackets that look like instructions. -/
theorem visibleText_render_brackets :
    let d : Diagnostic := ⟨.warning, "use of undeclared identifier 'm'", ⟨"[1m.tp", ⟨10, 3⟩⟩, 1,
      some "[m;m38"⟩
    NoEscape d.location.file ∧ NoEscape d.message ∧ (∀ line ∈ d.sourceLine, NoEscape line) ∧
      visibleText (d.render true) = d.render false ∧ d.render true ≠ d.render false := by
  intro d
  have hfile : NoEscape d.location.file := by decide
  have hmessage : NoEscape d.message := by decide
  have hline : ∀ line ∈ d.sourceLine, NoEscape line := by
    rintro line ⟨⟩
    decide
  exact ⟨hfile, hmessage, hline, visibleText_render d hfile hmessage hline, by decide⟩

end Diagnostic

end FrontEnd
