import FrontEnd.Proofs.Tree.Phrases

set_option autoImplicit false

/-! # Written trees are unambiguous

The head of a function is no nested text: its arguments and return types are lists with commas, and
nothing closes the last of them. Even so the head tells where it ends
(`Prototype.render_append_inj`), because names and types hold no commas, colons or spaces. Together
with the parts of statements this makes the written form of a declaration unambiguous
(`Declaration.bare_eq`).

A declaration has one of three forms, which its text tells (`Declaration.formOf`), and within each
form it is taken apart from the front. A list of arguments or types ends at the first character that
no list goes on with, and each item of it at the first one that is no part of a word or stands
behind a colon.
-/

namespace FrontEnd

open Sexp

/-! ## Lists with commas

In a list each part ends at the comma behind it, or where the list ends. Parts that have no comma in
them can be told apart in this way, and so can the end of the list. -/

/-- Texts behind others, a comma and a space before each. -/
def furtherText (texts : List (List Char)) : List Char :=
  texts.flatMap fun text => ',' :: ' ' :: text

/-- Texts with commas and spaces between them. -/
def listText : List (List Char) → List Char
  | [] => []
  | text :: rest => text ++ furtherText rest

theorem toList_joinWith (texts : List String) :
    (joinWith ", " texts).toList = listText (texts.map String.toList) := by
  cases texts with
  | nil => rfl
  | cons text rest =>
      induction rest generalizing text with
      | nil => simp [joinWith, listText, furtherText]
      | cons text' rest ih =>
          rw [joinWith, String.toList_append, String.toList_append, ih text']
          · simp [listText, furtherText]
          · exact List.cons_ne_nil _ _

/-- The characters with which a list of words goes on. -/
def isListChar (c : Char) : Bool := isWordChar c || c == ','

/-- What is written of each value starts like a word, and tells where it ends and which value it is
but for the key. -/
structure Item {α β : Type} (write : α → List Char) (key : α → β) (P : α → Prop) : Prop where
  starts : ∀ a, P a → ∃ c rest, write a = c :: rest ∧ isWordChar c = true
  append_inj : ∀ {a a' : α} {rest rest' : List Char}, P a → P a' → StopsAt isWordChar rest →
    StopsAt isWordChar rest' → write a ++ rest = write a' ++ rest' → key a = key a' ∧ rest = rest'

namespace Item

variable {α β : Type} {write : α → List Char} {key : α → β} {P : α → Prop}

theorem stopsAt_furtherText {rest : List Char} (hrest : StopsAt isListChar rest)
    (texts : List (List Char)) : StopsAt isWordChar (furtherText texts ++ rest) := by
  cases texts with
  | nil => exact hrest.mono fun c hc => by rw [isListChar, hc, Bool.true_or]
  | cons text texts => exact .cons (by decide) _

theorem furtherText_append_inj (h : Item write key P) {as as' : List α} {rest rest' : List Char}
    (has : ∀ a ∈ as, P a) (has' : ∀ a ∈ as', P a) (hrest : StopsAt isListChar rest)
    (hrest' : StopsAt isListChar rest')
    (heq : furtherText (as.map write) ++ rest = furtherText (as'.map write) ++ rest') :
    as.map key = as'.map key ∧ rest = rest' := by
  have hcomma {text own : List Char} (hstop : StopsAt isListChar text) : text ≠ ',' :: own := by
    rintro rfl
    cases hstop ',' rfl
  induction as generalizing as' with
  | nil =>
      cases as' with
      | nil => exact ⟨rfl, heq⟩
      | cons a' as' => exact absurd heq (hcomma hrest)
  | cons a as ih =>
      cases as' with
      | nil => exact absurd heq.symm (hcomma hrest')
      | cons a' as' =>
          simp only [furtherText, List.map_cons, List.flatMap_cons, List.cons_append,
            List.append_assoc, List.cons.injEq, true_and] at heq
          obtain ⟨ha, has⟩ := List.forall_mem_cons.mp has
          obtain ⟨ha', has'⟩ := List.forall_mem_cons.mp has'
          obtain ⟨hkey, hbehind⟩ := h.append_inj ha ha' (stopsAt_furtherText hrest (as.map write))
            (stopsAt_furtherText hrest' (as'.map write)) heq
          obtain ⟨hkeys, hend⟩ := ih has has' hbehind
          exact ⟨by rw [List.map_cons, List.map_cons, hkey, hkeys], hend⟩

/-- A list tells where it ends and what its values are. -/
theorem listText_append_inj (h : Item write key P) {as as' : List α} {rest rest' : List Char}
    (has : ∀ a ∈ as, P a) (has' : ∀ a ∈ as', P a) (hrest : StopsAt isListChar rest)
    (hrest' : StopsAt isListChar rest')
    (heq : listText (as.map write) ++ rest = listText (as'.map write) ++ rest') :
    as.map key = as'.map key ∧ rest = rest' := by
  have hempty {text own : List Char} {a : α} (ha : P a) (hstop : StopsAt isListChar text) :
      text ≠ write a ++ own := by
    obtain ⟨c, more, hwrite, hc⟩ := h.starts a ha
    rw [hwrite]
    rintro rfl
    have hlist := hstop c rfl
    rw [isListChar, hc] at hlist
    cases hlist
  cases as with
  | nil =>
      cases as' with
      | nil => exact ⟨rfl, heq⟩
      | cons a' as' =>
          rw [List.map_cons, listText, List.append_assoc] at heq
          exact absurd heq (hempty (has' a' List.mem_cons_self) hrest)
  | cons a as =>
      cases as' with
      | nil =>
          rw [List.map_cons, listText, List.append_assoc] at heq
          exact absurd heq.symm (hempty (has a List.mem_cons_self) hrest')
      | cons a' as' =>
          refine h.furtherText_append_inj has has' hrest hrest' ?_
          simpa [furtherText, listText] using heq

end Item

/-! ## The heads of functions

A head is written as in a source text: words, the name, arguments in parentheses, and types. The
name is the word in front of the parenthesis. -/

theorem isWordChar_of_isWordText {text : List Char} (h : isWordText text = true) :
    ∀ c ∈ text, isWordChar c = true := by
  rw [isWordText, Bool.and_eq_true, List.all_eq_true] at h
  exact h.2

theorem exists_head_of_isWordText {text : List Char} (h : isWordText text = true) :
    ∃ c rest, text = c :: rest ∧ isWordChar c = true := by
  obtain ⟨c, rest, rfl⟩ := List.exists_cons_of_ne_nil (isWord_of_isWordText h).1
  exact ⟨c, rest, rfl, isWordChar_of_isWordText h c List.mem_cons_self⟩

/-- Types in a list. -/
theorem TypeExpr.item :
    Item (fun e : TypeExpr => e.render.toList) TypeExpr.bare TypeExpr.Printable where
  starts _ h := exists_head_of_isWordText h.isWordText
  append_inj h h' hrest hrest' heq := by
    obtain ⟨htext, hend⟩ := hrest.append_inj (isWordChar_of_isWordText h.isWordText)
      (isWordChar_of_isWordText h'.isWordText) hrest' heq
    exact ⟨bare_eq h h' (String.toList_inj.mp htext), hend⟩

theorem Param.toList_render (p : Param) :
    p.render.toList = p.name.toList ++ ':' :: ' ' :: p.type.render.toList := by
  simp [render, String.toList_append]

/-- Arguments in a list. -/
theorem Param.item : Item (fun p : Param => p.render.toList) Param.bare Param.Printable where
  starts p h := by
    obtain ⟨c, rest, hname, hc⟩ := exists_head_of_isWordText (isWordText_of_isName h.1)
    exact ⟨c, _, by rw [toList_render, hname]; rfl, hc⟩
  append_inj {p p' rest rest'} h h' hrest hrest' heq := by
    have hcolon (text : List Char) : StopsAt isWordChar (':' :: text) := .cons (by decide) text
    simp only [toList_render, List.append_assoc, List.cons_append] at heq
    obtain ⟨hname, hbehind⟩ := (hcolon _).append_inj
      (isWordChar_of_isWordText (isWordText_of_isName h.1))
      (isWordChar_of_isWordText (isWordText_of_isName h'.1)) (hcolon _) heq
    obtain ⟨htype, hend⟩ := TypeExpr.item.append_inj h.2 h'.2 hrest hrest'
      (List.cons.inj (List.cons.inj hbehind).2).2
    exact ⟨by rw [bare, bare, String.toList_inj.mp hname, htype], hend⟩

namespace Prototype

/-- The words in front of the name of a function. -/
def marks (isExtern : Bool) (kind : FunctionKind) : List (List Char) :=
  (if isExtern then ["extern".toList] else []) ++
    match kind with
    | .function => []
    | .method => ["md".toList]

/-- Words with a space behind each. -/
def marksText (words : List (List Char)) : List Char := words.flatMap fun word => word ++ [' ']

theorem toList_render (p : Prototype) :
    p.render.toList = marksText (marks p.isExtern p.kind) ++ (p.name.toList ++ '(' ::
      (listText (p.params.map fun q => q.render.toList) ++ ')' :: ' ' :: '-' :: '>' :: ' ' ::
        listText (p.returns.map fun e => e.render.toList))) := by
  obtain ⟨name, params, returns, kind, isExtern, loc⟩ := p
  cases kind <;> cases isExtern <;>
    simp [render, marks, marksText, String.toList_append, toList_joinWith, Function.comp_def]

theorem isWordText_of_mem_marks {isExtern : Bool} {kind : FunctionKind} :
    ∀ word ∈ marks isExtern kind, isWordText word = true := by
  have hwords : ∀ word ∈ ["extern".toList, "md".toList], isWordText word = true :=
    List.forall_mem_cons.mpr ⟨(wordKind_keyword .externWord).1,
      List.forall_mem_singleton.mpr (wordKind_keyword .mdWord).1⟩
  intro word hword
  refine hwords word ?_
  revert hword
  cases isExtern <;> cases kind <;> simp +contextual [marks]

/-- The words in front of the name say whether the function is external, and of which kind. -/
theorem marks_inj {isExtern isExtern' : Bool} {kind kind' : FunctionKind}
    (h : marks isExtern kind = marks isExtern' kind') : isExtern = isExtern' ∧ kind = kind' := by
  cases isExtern <;> cases isExtern' <;> cases kind <;> cases kind' <;>
    first | exact ⟨rfl, rfl⟩ | exact absurd h (by decide)

/-- The words in front of a name tell where they end: a space is behind each of them, and an opening
parenthesis behind the name. -/
theorem marksText_append_inj {words words' : List (List Char)} {name name' rest rest' : List Char}
    (hwords : ∀ word ∈ words, isWordText word = true)
    (hwords' : ∀ word ∈ words', isWordText word = true) (hname : isWordText name = true)
    (hname' : isWordText name' = true)
    (heq : marksText words ++ (name ++ '(' :: rest) = marksText words' ++ (name' ++ '(' :: rest')) :
    words = words' ∧ name = name' ∧ rest = rest' := by
  have hparen (text : List Char) : StopsAt isWordChar ('(' :: text) := .cons (by decide) text
  have hspace (text : List Char) : StopsAt isWordChar (' ' :: text) := .cons (by decide) text
  induction words generalizing words' with
  | nil =>
      cases words' with
      | nil =>
          obtain ⟨rfl, hrest⟩ := (hparen rest).append_inj (isWordChar_of_isWordText hname)
            (isWordChar_of_isWordText hname') (hparen rest') heq
          exact ⟨rfl, rfl, (List.cons.inj hrest).2⟩
      | cons word' words' =>
          rw [marksText, marksText, List.flatMap_cons, List.append_assoc, List.append_assoc] at heq
          have hword' := hwords' word' List.mem_cons_self
          -- the word would end with a space, and the name ends with a parenthesis
          obtain ⟨-, hrest⟩ := (hparen rest).append_inj (isWordChar_of_isWordText hname)
            (isWordChar_of_isWordText hword') (hspace _) heq
          cases hrest
  | cons word words ih =>
      obtain ⟨hword, hmore⟩ := List.forall_mem_cons.mp hwords
      rw [marksText, List.flatMap_cons, List.append_assoc, List.append_assoc] at heq
      cases words' with
      | nil =>
          obtain ⟨-, hrest⟩ := (hspace _).append_inj (isWordChar_of_isWordText hword)
            (isWordChar_of_isWordText hname') (hparen rest') heq
          cases hrest
      | cons word' words' =>
          obtain ⟨hword', hmore'⟩ := List.forall_mem_cons.mp hwords'
          rw [marksText, List.flatMap_cons, List.append_assoc, List.append_assoc] at heq
          obtain ⟨rfl, hrest⟩ := (hspace _).append_inj (isWordChar_of_isWordText hword)
            (isWordChar_of_isWordText hword') (hspace _) heq
          obtain ⟨rfl, hname, hrest⟩ := ih hmore hmore' (List.cons.inj hrest).2
          exact ⟨rfl, hname, hrest⟩

/-- The nodes of the head are legible. -/
theorem legible_nodes {p : Prototype} (h : Legible p.nodes) :
    isName p.name ∧ (∀ q ∈ p.params, q.Printable) ∧ ∀ e ∈ p.returns, e.Printable := by
  obtain ⟨⟨hname, -⟩, hnodes⟩ := legible_cons.mp h
  obtain ⟨hparams, hreturns⟩ := legible_append.mp hnodes
  refine ⟨hname, fun q hq => ?_, fun e he => (hreturns _ (List.mem_map_of_mem he)).1⟩
  have hmem {n : Node} (hn : n ∈ [Node.param q, .type q.type]) : n.Named :=
    (hparams n (List.mem_flatMap.mpr ⟨q, hq, hn⟩)).1
  exact ⟨hmem List.mem_cons_self, hmem (List.mem_cons_of_mem _ List.mem_cons_self)⟩

/-- The head of a function tells where it ends, and what it is up to locations. -/
theorem render_append_inj {p p' : Prototype} {rest rest' : List Char} (h : Legible p.nodes)
    (h' : Legible p'.nodes) (hrest : StopsAt isListChar rest) (hrest' : StopsAt isListChar rest')
    (heq : p.render.toList ++ rest = p'.render.toList ++ rest') :
    p.bare = p'.bare ∧ rest = rest' := by
  obtain ⟨hname, hparams, hreturns⟩ := legible_nodes h
  obtain ⟨hname', hparams', hreturns'⟩ := legible_nodes h'
  have hclose (text : List Char) : StopsAt isListChar (')' :: text) := .cons (by decide) text
  simp only [toList_render, List.append_assoc, List.cons_append] at heq
  obtain ⟨hmarks, hnames, hbehind⟩ := marksText_append_inj isWordText_of_mem_marks
    isWordText_of_mem_marks (isWordText_of_isName hname) (isWordText_of_isName hname') heq
  obtain ⟨hsameMark, hkind⟩ := marks_inj hmarks
  obtain ⟨hargs, hbehind⟩ :=
    Param.item.listText_append_inj hparams hparams' (hclose _) (hclose _) hbehind
  simp only [List.cons.injEq, true_and] at hbehind
  obtain ⟨htypes, hend⟩ :=
    TypeExpr.item.listText_append_inj hreturns hreturns' hrest hrest' hbehind
  refine ⟨?_, hend⟩
  rw [bare, bare, String.toList_inj.mp hnames, hargs, htypes, hsameMark, hkind]

end Prototype

/-! ## Declarations

The text tells which form a declaration has. Within a form the parts are compared, and a body is
told from the head in front of it by the space and the brace. -/

namespace Declaration

/-- The forms of a declaration: nested parts, a function with its body, or the head of one alone. A
head is not written in nested parts: its arguments stand in a list with commas. -/
inductive Form where
  | parts
  | function
  | head

/-- The form of a declaration. -/
def form : Declaration → Form
  | namespaceLine _ _ | statement _ => .parts
  | function _ _ _ => .function
  | externFunction _ => .head

/-- The form of the declarations with a text. Only the head of a function starts with a word that is
not all of it. -/
def formOf (text : List Char) : Form :=
  if "(fn ".toList.isPrefixOf text then .function
  else if text.head?.any isWordChar && text.contains '(' then .head
  else .parts

/-- What is in parts is neither a function nor the head of one. -/
theorem formOf_parts {e : Sexp} (h : e.Legible) (hphrase : e.phrase ≠ .function) :
    formOf e.text = .parts := by
  have hfn : ¬ "(fn ".toList <+: e.text := by
    rintro ⟨rest, heq⟩
    cases e with
    | word text =>
        have hmem : '(' ∈ "(fn ".toList ++ rest := List.mem_cons_self
        rw [heq] at hmem
        cases h.2 '(' hmem
    | quoted delimiter text =>
        obtain ⟨rfl, -⟩ := List.cons.inj heq
        rcases h with h | h <;> cases h
    | node head parts =>
        have hspace : StopsAt isSolid (' ' :: rest) := .cons (by decide) rest
        have hcloses : Closes [')'] := .inl ⟨[], rfl⟩
        have hword : IsWord "fn".toList := by decide
        obtain ⟨rfl, -⟩ := hspace.append_inj hword.2 h.1.2 (stopsAt_textEach hcloses parts)
          (List.cons.inj heq).2
        exact hphrase rfl
    | braces => cases heq
  have hhead : (e.text.head?.any isWordChar && e.text.contains '(') = false := by
    cases e with
    | word text =>
        have hparen : '(' ∉ text := fun hmem => by cases h.2 '(' hmem
        rw [Bool.and_eq_false_imp]
        exact fun _ => by simpa [Sexp.text] using hparen
    | quoted delimiter text => rcases h with rfl | rfl <;> rfl
    | node | braces => rfl
  rw [formOf, if_neg (by rwa [List.isPrefixOf_iff_prefix]), hhead, if_neg Bool.false_ne_true]

theorem formOf_head {p : Prototype} (h : Legible p.nodes) : formOf p.render.toList = .head := by
  obtain ⟨hname, -, -⟩ := Prototype.legible_nodes h
  have hstart : ∃ c rest, p.render.toList = c :: rest ∧ isWordChar c = true := by
    rw [Prototype.toList_render]
    have hmarks := @Prototype.isWordText_of_mem_marks p.isExtern p.kind
    cases hwords : Prototype.marks p.isExtern p.kind with
    | nil =>
        obtain ⟨c, rest, hc, hword⟩ := exists_head_of_isWordText (isWordText_of_isName hname)
        exact ⟨c, _, by rw [hc]; rfl, hword⟩
    | cons word words =>
        rw [hwords] at hmarks
        obtain ⟨c, rest, hc, hword⟩ := exists_head_of_isWordText (hmarks word List.mem_cons_self)
        exact ⟨c, _, by rw [hc]; rfl, hword⟩
  have hparen : '(' ∈ p.render.toList := by
    rw [Prototype.toList_render]
    simp
  obtain ⟨c, rest, htext, hc⟩ := hstart
  have hfn : ¬ "(fn ".toList <+: p.render.toList := by
    rintro ⟨behind, heq⟩
    rw [htext] at heq
    obtain ⟨rfl, -⟩ := List.cons.inj heq
    cases hc
  have hhead : (p.render.toList.head?.any isWordChar && p.render.toList.contains '(') = true := by
    rw [Bool.and_eq_true, List.contains_iff_mem]
    refine ⟨?_, hparen⟩
    rw [htext]
    exact hc
  rw [formOf, if_neg (by rwa [List.isPrefixOf_iff_prefix]), if_pos hhead]

/-- The parts of a declaration that is no function. -/
def parts? : Declaration → Option Sexp
  | namespaceLine name _ => some (.node "namespace".toList [.word name.toList])
  | statement s => some s.sexp
  | function _ _ _ | externFunction _ => none

/-- What phrase a declaration is. -/
def phrase : Declaration → Phrase
  | namespaceLine _ _ => .namespaceLine
  | statement s => s.phrase
  | function _ _ _ | externFunction _ => .function

/-- Only declarations start with the word of a namespace line or of a function. -/
theorem phrase_statement (s : Statement) : s.phrase ≠ .namespaceLine ∧ s.phrase ≠ .function := by
  cases s with
  | expr e => exact ⟨e.phrase_ne rfl, e.phrase_ne rfl⟩
  | bind | ret | block | namedBlock => exact ⟨nofun, nofun⟩

theorem parts?_spec {d : Declaration} (h : Legible d.nodes) {e : Sexp} (he : d.parts? = some e) :
    d.render.toList = e.text ∧ e.Legible ∧ e.phrase = d.phrase ∧ e.phrase ≠ .function := by
  cases d with
  | namespaceLine name loc =>
      cases he
      refine ⟨?_, ⟨by decide, isWord_name (h _ List.mem_cons_self).1, trivial⟩, rfl, ?_⟩
      · simp [render, text, textEach, String.toList_append]
      · exact nofun
  | statement s =>
      cases he
      have hphrase := Statement.phrase_sexp h
      refine ⟨s.toList_render, Statement.legible_sexp h, hphrase, ?_⟩
      rw [hphrase]
      exact (phrase_statement s).2
  | function | externFunction => cases he

theorem toList_render_function (head : Prototype) (body : List Statement) (loc : Location) :
    (function head body loc).render.toList =
      "(fn ".toList ++ (head.render.toList ++
        ' ' :: '\x7b' :: (textEach (Statement.sexps body) ++ " \x7d)".toList)) := by
  simp [render, String.toList_append, Statement.toList_renderEach]

/-- The text of a declaration says which form it has. -/
theorem formOf_render {d : Declaration} (h : Legible d.nodes) :
    formOf d.render.toList = d.form := by
  cases d with
  | namespaceLine | statement =>
      obtain ⟨htext, hlegible, -, hphrase⟩ := parts?_spec h rfl
      rw [htext]
      exact formOf_parts hlegible hphrase
  | function head body loc =>
      rw [toList_render_function, formOf, if_pos]
      · rfl
      · exact List.isPrefixOf_iff_prefix.mpr (List.prefix_append _ _)
  | externFunction head => exact formOf_head h

/-- Declarations in parts that are written alike are equal up to locations. -/
theorem bare_eq_of_parts {d d' : Declaration} (h : Legible d.nodes) (h' : Legible d'.nodes)
    {e e' : Sexp} (he : d.parts? = some e) (he' : d'.parts? = some e')
    (heq : d.render.toList = d'.render.toList) : d.bare = d'.bare := by
  obtain ⟨htext, hlegible, hphrase, -⟩ := parts?_spec h he
  obtain ⟨htext', hlegible', hphrase', -⟩ := parts?_spec h' he'
  have hparts : e.text ++ [] = e'.text ++ [] := by
    rw [List.append_nil, List.append_nil, ← htext, heq, htext']
  obtain ⟨rfl, -⟩ := text_append_inj hlegible hlegible' (.nil _) (.nil _) hparts
  rw [hphrase] at hphrase'
  cases d with
  | namespaceLine name =>
      cases d' with
      | namespaceLine name' =>
          have hnode := Option.some.inj (he.trans he'.symm)
          have hname := (List.cons.inj (Sexp.node.inj hnode).2).1
          rw [bare, bare, String.toList_inj.mp (Sexp.word.inj hname)]
      | statement s' => exact absurd hphrase'.symm (phrase_statement s').1
      | function | externFunction => cases he'
  | statement s =>
      cases d' with
      | namespaceLine => exact absurd hphrase' (phrase_statement s).1
      | statement s' =>
          rw [bare, bare, Statement.bare_eq h h' (Option.some.inj (he.trans he'.symm))]
      | function | externFunction => cases he'
  | function | externFunction => cases he

/-- Functions that are written alike are equal up to locations. -/
theorem bare_eq_of_function {head head' : Prototype} {body body' : List Statement}
    {loc loc' : Location} (h : Legible (function head body loc).nodes)
    (h' : Legible (function head' body' loc').nodes)
    (heq : (function head body loc).render.toList = (function head' body' loc').render.toList) :
    (function head body loc).bare = (function head' body' loc').bare := by
  obtain ⟨hhead, hbody⟩ := legible_append.mp (legible_cons.mp h).2
  obtain ⟨hhead', hbody'⟩ := legible_append.mp (legible_cons.mp h').2
  have hspace (text : List Char) : StopsAt isListChar (' ' :: text) := .cons (by decide) text
  have hcloses : Closes " \x7d)".toList := .inr ⟨[')'], rfl⟩
  rw [toList_render_function, toList_render_function] at heq
  obtain ⟨hprototype, hbehind⟩ := Prototype.render_append_inj hhead hhead' (hspace _) (hspace _)
    (List.append_cancel_left heq)
  obtain ⟨hparts, -⟩ := textEach_append_inj (Statement.legible_sexps (legible_cons.mp hbody).2)
    (Statement.legible_sexps (legible_cons.mp hbody').2) hcloses hcloses
    (List.cons.inj (List.cons.inj hbehind).2).2
  rw [bare, bare, hprototype, Statement.bareAll_eq (legible_cons.mp hbody).2
    (legible_cons.mp hbody').2 hparts]

/-- Declarations that are written alike are equal up to locations, if their names are identifiers and
no floating-point number stands in them. -/
theorem bare_eq {d d' : Declaration} (h : Legible d.nodes) (h' : Legible d'.nodes)
    (heq : d.render = d'.render) : d.bare = d'.bare := by
  have htext := congrArg String.toList heq
  have hform : d.form = d'.form := by rw [← formOf_render h, heq, formOf_render h']
  cases d with
  | namespaceLine | statement =>
      cases d' with
      | namespaceLine | statement => exact bare_eq_of_parts h h' rfl rfl htext
      | function | externFunction => cases hform
  | function head body loc =>
      cases d' with
      | function head' body' loc' => exact bare_eq_of_function h h' htext
      | namespaceLine | statement | externFunction => cases hform
  | externFunction head =>
      cases d' with
      | externFunction head' =>
          have hends : head.render.toList ++ [] = head'.render.toList ++ [] := by
            rw [List.append_nil, List.append_nil]
            exact htext
          rw [bare, bare, (Prototype.render_append_inj h h' (.nil _) (.nil _) hends).1]
      | namespaceLine | statement | function => cases hform

end Declaration

end FrontEnd
