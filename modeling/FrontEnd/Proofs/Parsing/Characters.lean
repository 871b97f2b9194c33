import FrontEnd.Proofs.Checking.Agreement
import FrontEnd.Proofs.Parsing.Entered
import FrontEnd.Proofs.Parsing.RoundTrip
import FrontEnd.Proofs.Token.Listed

set_option autoImplicit false

/-! # Character literals as arguments

The literals of a list of characters are read back as these characters, whatever they are and however
many, and nothing is wrong with the file, as long as no backslash is among them. With a backslash
there is always an error.

In a literal the second of two backslashes is taken to escape the quotation mark behind it, so the
literal of a backslash does not end there. It goes on to a later quotation mark or to the end of the
file, and either way the text has a faulty token.
-/

namespace FrontEnd

open Grammar Lexeme

variable {x f : String} {cs : List Char}

/-! ## The lexemes

The text is a binding with a call, and its lexemes are found as long as each literal ends where it
should. -/

/-- What holds of the fixed lexemes, the names and the characters holds of all lexemes. -/
theorem forall_charactersLexemes {P : Lexeme → Prop} (hword : P (word .letWord)) (hx : P (.name x))
    (hassign : P (fixed (.operator .assign))) (hf : P (.name f)) (hmark : ∀ m, P (mark m))
    (hcs : ∀ c ∈ cs, P (character c)) : ∀ l ∈ charactersLexemes x f cs, P l := by
  have harguments : ∀ l ∈ commaSeparated (cs.map fun c => [character c]), P l := by
    induction cs with
    | nil => exact List.forall_mem_nil _
    | cons c cs ih =>
        have hc := hcs c List.mem_cons_self
        have hrest := ih fun d hd => hcs d (List.mem_cons_of_mem c hd)
        cases cs with
        | nil => exact List.forall_mem_singleton.mpr hc
        | cons d cs =>
            rw [List.map_cons, List.map_cons, commaSeparated_cons_cons]
            exact List.forall_mem_cons.mpr ⟨hc, List.forall_mem_cons.mpr ⟨hmark _, hrest⟩⟩
  simp only [charactersLexemes, parenthesized, List.forall_mem_cons, List.forall_mem_append]
  exact ⟨hword, hx, hassign, hf, ⟨hmark _, harguments, hmark _, List.forall_mem_nil _⟩, hmark _,
    List.forall_mem_nil _⟩

theorem allScan_charactersLexemes (hx : isName x) (hf : isName f) (hcs : '\\' ∉ cs) :
    AllScan (charactersLexemes x f cs) := by
  refine forall_charactersLexemes (scans_wordLexeme _) (scans_name hx) (scans_operator _)
    (scans_name hf) scans_mark fun c hc => scans_char ?_
  rintro rfl
  exact hcs hc

/-- Every literal among the lexemes has a value, and none of them starts a namespace. -/
theorem values_charactersLexemes (hcs : '\\' ∉ cs) :
    ∀ l ∈ charactersLexemes x f cs, l.kind ≠ .number ∧ l.kind ≠ .word .namespaceWord ∧
      (l.kind = .charLiteral → (unescape? (withoutDelimiters l.text)).isSome) := by
  have hname (name : String) : (Lexeme.name name).kind = .identifier := rfl
  have hmark (m : Mark) : (mark m).kind = .mark m := rfl
  refine forall_charactersLexemes ?_ ?_ ?_ ?_ ?_ ?_
  · simp [word, fixed]
  · simp [hname]
  · simp [fixed]
  · simp [hname]
  · intro m
    simp [hmark]
  · intro c hc
    rw [character]
    dsimp only
    rw [withoutDelimiters_quoted, unescape?_charText fun hslash => hcs (hslash ▸ hc)]
    simp

/-! ## The trees

Each literal reads back as its character. The call and the binding around it have no other parts. -/

/-- Literals of characters have no names that could be wrong. -/
theorem checkAll_characters {args : List Expr}
    (h : Expr.bareAll args = cs.map fun c => .char c .nowhere) (checker : Checker) :
    Expr.checkAll args checker = checker := by
  induction cs generalizing args with
  | nil =>
      cases args with
      | nil => simp [Expr.checkAll]
      | cons e args => cases h
  | cons c cs ih =>
      cases args with
      | nil => cases h
      | cons e args =>
          rw [Expr.bareAll_cons, List.map_cons] at h
          obtain ⟨he, hargs⟩ := List.cons.inj h
          have hcheck : e.check checker = checker := by
            cases e with
            | char => simp [Expr.check]
            | _ => simp at he
          rw [Expr.checkAll, hcheck, ih hargs]

theorem checkFile_characters {args : List Expr}
    (h : Expr.bareAll args = cs.map fun c => .char c .nowhere) (loc loc' : Location) :
    checkFile [.statement (.bind ⟨x, none, some (.call f args loc), .mutable, loc'⟩)] = [] := by
  simp only [checkFile, Declaration.checkAll, List.foldl_cons, List.foldl_nil, Declaration.check,
    Statement.check, Binding.check, Expr.checkInit, Expr.check, checkAll_characters h]
  rfl

/-- The arguments read back, up to the parenthesis behind them. -/
theorem reads_characters (file : String) {behind : Kind} {w : List Token} (hcs : '\\' ∉ cs)
    (hw : Spells w (commaSeparated (cs.map fun c => [character c]))) {r : Token}
    (hr : r.kind = .mark .rightParen) (rest : List Token) :
    ∃ args, Reads file behind .arguments (w ++ r :: rest) args (r :: rest) ∧
      Expr.bareAll args = cs.map fun c => .char c .nowhere := by
  by_cases hnil : cs = []
  · subst hnil
    rw [Spells.nil_iff.mp hw]
    exact ⟨[], .noArguments hr, rfl⟩
  · have hlexemes : (cs.map fun c => Expr.char c .nowhere).map Expr.lexemes =
        cs.map fun c => [character c] := by
      simp [character]
    -- a backslash alone would not read back, as it escapes the quote behind it
    have hback : ∀ e ∈ cs.map fun c => Expr.char c .nowhere, ReadsBack file behind e e.lexemes := by
      intro e he
      obtain ⟨c, hc, rfl⟩ := List.mem_map.mp he
      exact readsBack_char (fun hslash => hcs (hslash ▸ hc)) .nowhere
    have hbare : Expr.bareAll (cs.map fun c => .char c .nowhere) =
        cs.map fun c => .char c .nowhere := by
      clear * -
      induction cs with
      | nil => rfl
      | cons c cs ih => simp [ih]
    rw [← hlexemes] at hw
    obtain ⟨args, hargs, heq⟩ := reads_commaSeparated (r :: rest) (by simpa using hnil) hback hw
      (by rw [nextKind_cons, hr]; rfl) (by rw [nextKind_cons, hr]; simp)
      (by rw [nextKind_cons, hr]; simp)
    exact ⟨args, .arguments hargs, heq.trans hbare⟩

/-- Tokens that spell the lexemes read as one binding. -/
theorem reads_charactersLexemes (file : String) (finish : Token) {w : List Token}
    (hw : Spells w (charactersLexemes x f cs)) (hcs : '\\' ∉ cs) :
    ∃ args loc loc', ReadsFile file finish false w
        [.statement (.bind ⟨x, none, some (.call f args loc), .mutable, loc'⟩)] ∧
      Expr.bareAll args = cs.map fun c => .char c .nowhere := by
  obtain ⟨k, v, rfl, hk, hw⟩ := hw.cons
  obtain ⟨n, v, rfl, hn, hw⟩ := hw.cons
  obtain ⟨sign, v, rfl, hsign, hw⟩ := hw.cons
  obtain ⟨callee, v, rfl, hcallee, hw⟩ := hw.cons
  obtain ⟨u, semicolon, rfl, hu, hsemicolon⟩ := hw.concat
  obtain ⟨l, u, r, rfl, hl, hu, hr⟩ := hu.parenthesized
  have hend : nextKind finish.kind [semicolon] = .mark .semicolon := Token.bare_kind hsemicolon
  obtain ⟨args, hargs, hbare⟩ := reads_characters file hcs hu hr [semicolon]
  -- from the call outwards: the value, the binding, the file
  have hcall := Reads.call (Token.bare_kind hcallee) hl hr hargs
  have hvalue := (Reads.unary hcall).alone (by rw [hend]; rfl)
  have hinit := ReadsInit.some (Token.bare_kind hsign) hvalue
  have htype : ReadsType file finish (sign :: callee :: l :: (u ++ r :: [semicolon])) none _ :=
    .none (by rw [nextKind_cons, Token.bare_kind hsign]; simp [fixed])
  have hbinding := ReadsForm.keywordBinding (by rw [Token.bare_kind hk]; rfl)
    (Token.bare_kind hn) htype hinit (.some (Token.bare_kind hsemicolon))
  have hfile : ReadsFile file finish false _ _ := .declaration (.binding hbinding) .empty
  have hname : n.lexeme = x := Token.bare_text hn
  have hcalled : callee.lexeme = f := Token.bare_text hcallee
  have hmutable : Parser.mutabilityOf k.kind = .mutable := by rw [Token.bare_kind hk]; rfl
  rw [hname, hcalled, hmutable] at hfile
  refine ⟨args, ⟨file, callee.position⟩, ⟨file, n.position⟩, ?_, hbare⟩
  rw [List.cons_append, List.append_assoc]
  exact hfile

/-! ## The file

Without a backslash nothing is lexically or grammatically wrong with the file, and the checks on its
tree find nothing: the names in it are not looked up. With one, a literal has no end. -/

variable {b : Buffer}

/-- Errors are counted among the findings. -/
theorem Buffer.parse_errors (b : Buffer) :
    b.parse.errors = b.parse.findings.countP Finding.isError :=
  ((moves_run b.startState).counted b.startState_counted.1).errors_eq

/-- A faulty text leaves an error. -/
theorem Faulty.one_le_errors (h : Faulty b.chars) : 1 ≤ b.parse.errors := by
  obtain ⟨t, ht, hinvalid⟩ := h .start
  have hflawed : b.Flawed := .token (t := t) ht hinvalid
  exact hflawed.one_le_errors

/-- A file of these lexemes has one declaration, and nothing is wrong with it. -/
theorem parse_charactersLexemes (hx : isName x) (hf : isName f) (hcs : '\\' ∉ cs)
    (hspells : Spells b.tokens (charactersLexemes x f cs)) :
    b.parse.findings = [] ∧ b.parse.declarations.map Declaration.bare =
      [.statement (.bind ⟨x, none, some (.call f (cs.map fun c => .char c .nowhere) .nowhere),
        .mutable, .nowhere⟩)] := by
  have hvalid := hspells.valid (allScan_charactersLexemes hx hf hcs)
  obtain ⟨args, loc, loc', hreads, hbare⟩ :=
    reads_charactersLexemes b.name (Stream.ofText b.chars).finish hspells hcs
  obtain ⟨hnodes, hclean⟩ := Buffer.parse_eq hvalid hreads
  have hall : ∀ t ∈ b.tokens, t.kind ≠ .number ∧ t.kind ≠ .word .namespaceWord ∧
      (t.kind = .charLiteral → (unescape? (withoutDelimiters t.lexeme)).isSome) :=
    fun t ht => values_charactersLexemes hcs t.bare (hspells ▸ List.mem_map_of_mem ht)
  have hnumber : ∀ t ∈ b.tokens, t.kind = .number → t.numeral?.isSome :=
    fun t ht hk => absurd hk (hall t ht).1
  have hnamespace : b.tokens.countP (·.kind == .word .namespaceWord) ≤ 1 := by
    rw [List.countP_eq_zero.mpr fun t ht => by simpa using (hall t ht).2.1]
    exact Nat.zero_le 1
  constructor
  · -- the only findings are those of the checks on the tree, and there are none
    have hsound := sound_declarations (c := .start) (Buffer.startState_sober hvalid)
      (Nat.le_refl _) hclean
    have htracks := hsound.2 (Buffer.startState_tracks hvalid hnumber
      (fun t ht => (hall t ht).2.2) hnamespace)
    have hfindings : b.parse.findings = checkFile b.parse.declarations := htracks.findings
    rw [hfindings, hnodes, checkFile_characters hbare]
  · rw [hnodes]
    simp [Declaration.bare, Statement.bare, Binding.bare, Expr.bare, hbare]

/-- Character literals are read back, and nothing is wrong with the file, exactly as long as no
backslash is among them. The names of the binding and of the function that is called are any. -/
theorem parse_charactersText (name : String) (hx : isName x) (hf : isName f) (cs : List Char) :
    let b := Buffer.ofText name (charactersText x f cs)
    (b.parse.errors = 0 ↔ '\\' ∉ cs) ∧
      ('\\' ∉ cs → b.parse.findings = [] ∧ b.parse.declarations.map Declaration.bare =
        [.statement (.bind ⟨x, none, some (.call f (cs.map fun c => .char c .nowhere) .nowhere),
          .mutable, .nowhere⟩)]) := by
  have hchars := chars_charactersText hx hf cs name
  have hgood (hcs : '\\' ∉ cs) := by
    refine parse_charactersLexemes (b := Buffer.ofText name (charactersText x f cs)) hx hf hcs ?_
    rw [Spells, Buffer.tokens, hchars]
    exact tokens_charactersText hx hf hcs
  refine ⟨⟨fun herrors hcs => ?_, fun hcs => ?_⟩, hgood⟩
  · have hone := Faulty.one_le_errors (hchars ▸ faulty_charactersText hx hf hcs)
    omega
  · rw [Buffer.parse_errors, (hgood hcs).1, List.countP_nil]

/-- The other escaped characters, a double quote, a blank, a comma and two beyond ASCII. -/
theorem parse_charactersText_escaped :
    let cs := ['\n', '\t', '\r', '\x00', '\'', '"', ' ', ',', 'é', '😀']
    let b := Buffer.ofText "test.nif" (charactersText "x" "f" cs)
    isName "x" ∧ isName "f" ∧ '\\' ∉ cs ∧ b.parse.errors = 0 ∧ b.parse.findings = [] ∧
      b.parse.declarations.map Declaration.bare =
        [.statement (.bind ⟨"x", none, some (.call "f" (cs.map fun c => .char c .nowhere) .nowhere),
          .mutable, .nowhere⟩)] := by
  intro cs b
  have hx : isName "x" := by decide
  have hf : isName "f" := by decide
  have hcs : '\\' ∉ cs := by decide
  have hparse := parse_charactersText "test.nif" hx hf cs
  exact ⟨hx, hf, hcs, hparse.1.mpr hcs, hparse.2 hcs⟩

/-- The literal of a backslash never ends: its second backslash is taken to escape the quote. -/
theorem charactersText_backslash :
    charactersText "x" "f" ['\\'] = "let x = f('\\\\');" ∧
      (Buffer.ofText "test.nif" (charactersText "x" "f" ['\\'])).parse.errors = 1 ∧
      (Buffer.ofText "test.nif" (charactersText "x" "f" ['\\'])).parse.declarations.length = 0 := by
  decide +kernel

end FrontEnd
