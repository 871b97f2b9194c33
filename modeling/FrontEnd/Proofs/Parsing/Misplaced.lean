import FrontEnd.Proofs.Parsing.Isolation

set_option autoImplicit false

/-! # Declarations in a block

A function, a method, an extern function or a namespace line has no place in a block. The statement
fails at its first word, and the search for the next statement has to get past the whole declaration
(`FileOnly.rounds`). The head of a function is passed over since no token of it ends the search
(`Plain`), and the body is skipped as one group in braces, since the tokens of a block close as many
groups as they open (`Forms.skips`).

The search ends at words that start a declaration too, though. Behind the word `extern` this is the
word `fn`, which then fails a second time. So `extern` costs two findings and everything else one.

What a declaration is made of is known from the grammar, and not from what the parser does with it:
all that is used is that its tokens derive from a production (`FileOnly`). From the productions
follows where braces and semicolons can stand in it, and from this where the search can end.
-/

namespace FrontEnd

namespace Grammar

open FrontEnd.Grammar.Parser

variable {kind next : Kind} {p : Phrase} {form : Form} {t : Token} {u v w rest : List Token}

/-! ## Tokens that a search passes over

Expressions, types and heads of functions are made of plain tokens alone. That is read off their
productions, one by one; a token that is given by its kind is tested against the few that are not. -/

/-- A token that is valid and does not end the search for a statement boundary. -/
def isPlain (kind : Kind) : Bool := !endsSearch kind && kind ≠ .invalid

/-- All other tokens: there are only a few of them, so what a token must not be can be tested. -/
def boundaries : List Kind :=
  [.mark .semicolon, .mark .leftBrace, .mark .rightBrace, .word .fnWord, .word .mdWord,
    .word .externWord, .word .namespaceWord, .word .letWord, .word .valWord, .word .constWord,
    .word .returnWord, .invalid]

theorem mem_boundaries (h : isPlain kind = false) : kind ∈ boundaries := by
  simp only [isPlain, endsSearch, Bool.and_eq_false_iff, Bool.not_eq_false', Bool.or_eq_true,
    decide_eq_true_eq, decide_eq_false_iff_not, Decidable.not_not] at h
  rcases h with (((rfl | rfl) | rfl) | h) | rfl
  · decide
  · decide
  · decide
  · unfold startsDeclaration at h
    split at h
    all_goals first | decide | cases h
  · decide

/-- A test that only plain tokens pass. -/
theorem isPlain_of (test : Kind → Bool) (h : test kind = true)
    (hnone : boundaries.all (fun k => !test k) = true) : isPlain kind = true := by
  by_contra hplain
  have hkind := List.all_eq_true.mp hnone kind (mem_boundaries (Bool.eq_false_iff.mpr hplain))
  rw [h] at hkind
  cases hkind

theorem isPlain_of_eq (h : t.kind = kind) (hk : isPlain kind = true) : isPlain t.kind = true :=
  h ▸ hk

/-- All tokens are plain. -/
def Plain (w : List Token) : Prop := ∀ t ∈ w, isPlain t.kind = true

namespace Plain

theorem nil : Plain [] := fun _ h => absurd h List.not_mem_nil

theorem cons (ht : isPlain t.kind = true) (hw : Plain w) : Plain (t :: w) :=
  List.forall_mem_cons.mpr ⟨ht, hw⟩

theorem append (hu : Plain u) (hw : Plain w) : Plain (u ++ w) :=
  List.forall_mem_append.mpr ⟨hu, hw⟩

theorem one (ht : isPlain t.kind = true) : Plain [t] := .cons ht .nil

theorem not_endsSearch (h : Plain w) : ∀ t ∈ w, endsSearch t.kind = false := by
  intro t ht
  simpa using (Bool.and_eq_true_iff.mp (h t ht)).1

theorem valid (h : Plain w) : AllValid w := by
  intro t ht
  simpa using (Bool.and_eq_true_iff.mp (h t ht)).2

end Plain

theorem Derives.plain (h : Derives p w) : Plain w := by
  induction h with
  | literal ht => exact .one (isPlain_of _ ht rfl)
  | name ht => exact .one (isPlain_of_eq ht rfl)
  | call ht hl _ hr ih =>
      exact .cons (isPlain_of_eq ht rfl) (.cons (isPlain_of_eq hl rfl)
        (ih.append (.one (isPlain_of_eq hr rfl))))
  | parens hl _ hr ih =>
      exact .cons (isPlain_of_eq hl rfl) (ih.append (.one (isPlain_of_eq hr rfl)))
  | unaryOp ht _ ih | stepBefore ht _ ih | stepAfter ht _ ih => exact .cons (isPlain_of _ ht rfl) ih
  | operator ht _ _ ih ih' =>
      exact .cons (isPlain_of (fun k => k.binaryOp?.isSome) ht rfl) (ih.append ih')
  | expression _ _ ih ih' => exact ih.append ih'
  | moreExpressions _ hcomma _ ih ih' =>
      exact ih.append (.cons (isPlain_of_eq hcomma rfl) ih')
  | noLink | noArguments => exact .nil
  | unary _ ih | oneExpression _ ih | arguments _ ih => exact ih

theorem Optional.plain {P : List Token → Prop} (hP : ∀ {w}, P w → Plain w) (h : Optional P w) :
    Plain w := by
  rcases h with rfl | h
  · exact .nil
  · exact hP h

theorem DerivesTypes.plain (h : DerivesTypes w) : Plain w := by
  induction h with
  | one ht => exact .one (isPlain_of _ ht rfl)
  | more ht hcomma _ ih =>
      exact .cons (isPlain_of _ ht rfl) (.cons (isPlain_of_eq hcomma rfl) ih)

theorem DerivesParams.plain (h : DerivesParams w) : Plain w := by
  induction h with
  | one hn hcolon ht =>
      exact .cons (isPlain_of_eq hn rfl) (.cons (isPlain_of_eq hcolon rfl)
        (.one (isPlain_of _ ht rfl)))
  | more hn hcolon ht hcomma _ ih =>
      exact .cons (isPlain_of_eq hn rfl) (.cons (isPlain_of_eq hcolon rfl)
        (.cons (isPlain_of _ ht rfl) (.cons (isPlain_of_eq hcomma rfl) ih)))

theorem DerivesReturns.plain (h : DerivesReturns w) : Plain w := by
  cases h with
  | returns hcolon hw => exact .cons (isPlain_of_eq hcolon rfl) hw.plain

/-- All tokens in the head of a function are plain. -/
theorem DerivesHead.plain (h : DerivesHead w) : Plain w := by
  cases h with
  | head hn hl hparams hr hreturns =>
      exact .cons (isPlain_of_eq hn rfl) (.cons (isPlain_of_eq hl rfl)
        ((hparams.plain DerivesParams.plain).append
          (.cons (isPlain_of_eq hr rfl) (hreturns.plain DerivesReturns.plain))))

/-! ## Groups in braces

The search skips a body without looking at what is in it, by counting braces alone. So it ends at the
right one only if all that may stand in a body is balanced. -/

/-- The tokens close the groups in braces that they open, and no others: the search for the end of a
group goes on behind them as if they were not there. -/
def Skips (w : List Token) : Prop :=
  ∀ depth rest, 0 < depth → skipGroups depth (w ++ rest) = skipGroups depth rest

namespace Skips

theorem nil : Skips [] := fun _ _ _ => rfl

theorem append (hu : Skips u) (hw : Skips w) : Skips (u ++ w) := by
  intro depth rest hdepth
  rw [List.append_assoc, hu depth _ hdepth, hw depth rest hdepth]

/-- A token that is no brace. -/
theorem one (hleft : t.kind ≠ .mark .leftBrace) (hright : t.kind ≠ .mark .rightBrace) :
    Skips [t] := by
  intro depth rest _
  rw [List.singleton_append, skipGroups]
  split
  · contradiction
  · contradiction
  · rfl

theorem cons (hleft : t.kind ≠ .mark .leftBrace) (hright : t.kind ≠ .mark .rightBrace)
    (hw : Skips w) : Skips (t :: w) := append (one hleft hright) hw

theorem of_plain (h : Plain w) : Skips w := by
  induction w with
  | nil => exact nil
  | cons t w ih =>
      obtain ⟨ht, hw⟩ := List.forall_mem_cons.mp h
      refine cons (fun hk => ?_) (fun hk => ?_) (ih hw)
      · rw [hk] at ht; cases ht
      · rw [hk] at ht; cases ht

/-- A group in braces. -/
theorem group {l r : Token} (hl : l.kind = .mark .leftBrace) (hw : Skips w)
    (hr : r.kind = .mark .rightBrace) : Skips (l :: (w ++ [r])) := by
  intro depth rest hdepth
  calc skipGroups depth (l :: (w ++ [r]) ++ rest)
      = skipGroups (depth + 1) (w ++ r :: rest) := by
        rw [List.cons_append, skipGroups, hl, List.append_assoc]
        rfl
    _ = skipGroups (depth + 1) (r :: rest) := hw _ _ (Nat.succ_pos depth)
    _ = skipGroups depth rest := by
        rw [skipGroups, hr]
        exact if_neg (by omega)

end Skips

/-- Blocks close what they open, and so do all statements. -/
theorem Forms.skips (h : Forms form next w) : Skips w := by
  have hsemicolon {w : List Token} (h : Optional (IsToken (.mark .semicolon)) w) : Skips w := by
    rcases h with rfl | ⟨t, ht, rfl⟩
    · exact .nil
    · exact .one (by simp [ht]) (by simp [ht])
  have htype {w : List Token} (h : Optional DerivesType w) : Skips w :=
    .of_plain (h.plain fun h => by
      cases h with
      | type hcolon ht =>
          exact .cons (isPlain_of_eq hcolon rfl) (.one (isPlain_of _ ht rfl)))
  have hinit {w : List Token} (h : Optional DerivesInit w) : Skips w :=
    .of_plain (h.plain fun h => by
      cases h with
      | init hsign he => exact .cons (isPlain_of_eq hsign rfl) he.plain)
  -- a form is made of parts without a boundary, and of blocks; each part of it is skipped in turn
  induction h with
  | keywordBinding hk hn ht hi hs =>
      refine .cons ?_ ?_ (.cons (by simp [hn]) (by simp [hn])
        ((htype ht).append ((hinit hi).append (hsemicolon hs))))
      · rcases isBindingWord_cases hk with hk | hk | hk <;> simp [hk]
      · rcases isBindingWord_cases hk with hk | hk | hk <;> simp [hk]
  | define hn hsign he hs =>
      have hsign := isPlain_of _ hsign rfl
      exact (Skips.of_plain (.cons (isPlain_of_eq hn rfl) (.cons hsign he.plain))).append
        (hsemicolon hs)
  | typedBinding hn hcolon ht hi hs =>
      have hsign : Plain [_, _, _] := .cons (isPlain_of_eq hn rfl)
        (.cons (isPlain_of_eq hcolon rfl) (.one (isPlain_of _ ht rfl)))
      exact (Skips.of_plain hsign).append ((hinit hi).append (hsemicolon hs))
  | namedBlock hn hcolon _ ih =>
      exact .cons (by simp [hn]) (by simp [hn]) (.cons (by simp [hcolon]) (by simp [hcolon]) ih)
  | block hl _ hr ih => exact .group hl ih hr
  | ret hw =>
      cases hw with
      | values ht hes hs =>
          have hvalues := Skips.of_plain hes.plain
          exact .cons (by simp [ht]) (by simp [ht]) (hvalues.append (hsemicolon hs))
      | bare ht hs => exact .cons (by simp [ht]) (by simp [ht]) (hsemicolon hs)
  | semicolon ht => exact .one (by simp [ht]) (by simp [ht])
  | expression he ht =>
      exact (Skips.of_plain he.plain).append (.one (by simp [ht]) (by simp [ht]))
  | noStatement => exact .nil
  | moreStatements _ _ ih ih' => exact ih.append ih'
  | binding _ ih | inner _ ih => exact ih

/-- A search ends behind a block. -/
theorem synchronize_block (hw : Plain w) {body : List Token} (hbody : Forms .block next body)
    (hrest : ∀ x ∈ rest.head?, x.kind ≠ .invalid) :
    synchronize false (w ++ (body ++ rest)) = rest := by
  cases hbody with
  | @block _ l r v hl hv hr =>
      have hpassed : ∀ x ∈ w, (!endsSearch x.kind) = true :=
        fun x hx => by rw [hw.not_endsSearch x hx]; rfl
      calc synchronize false (w ++ (l :: (v ++ [r]) ++ rest))
          = skipGroups 0 (l :: (v ++ r :: rest)) := by
            rw [synchronize_eq, List.dropWhile_append_of_pos hpassed, List.cons_append,
              List.dropWhile_cons_of_neg (by rw [hl]; decide), behindBoundary, hl,
              List.append_assoc, List.singleton_append]
        _ = skipGroups 1 (r :: rest) := by
            rw [skipGroups, hl]
            exact hv.skips 1 _ Nat.one_pos
        _ = rest := by
            rw [skipGroups, hr]
            exact dropInvalid_of_valid hrest

/-! ## Declarations that belong to file scope

A declaration need not end in a semicolon or a brace, for some semicolons may be left out. One that
does not would run into the statements behind it, so only those that do are considered. -/

/-- The words that start what may stand at file scope only. In a block they have no place, and each
of them is reported. -/
def isFileWord : Kind → Bool
  | .word .fnWord | .word .mdWord | .word .externWord | .word .namespaceWord => true
  | _ => false

/-- The last token is a semicolon or a closing brace. Behind such a token a search for the next
statement may end. -/
def Terminated (w : List Token) : Prop :=
  ∃ front stop, w = front ++ [stop] ∧ isTerminator stop.kind = true

/-- The tokens are a declaration that may stand at file scope only, and end in a semicolon or a
closing brace. -/
structure FileOnly (w : List Token) : Prop where
  derives : DerivesDeclaration .endOfFile w
  starts : isFileWord (nextKind .endOfFile w) = true
  ends : Terminated w

theorem Terminated.tail (h : Terminated (t :: w)) (ht : isTerminator t.kind = false) :
    Terminated w := by
  obtain ⟨front, stop, heq, hstop⟩ := h
  cases front with
  | nil =>
      obtain ⟨rfl, -⟩ := List.cons.inj heq
      rw [ht] at hstop
      cases hstop
  | cons x front =>
      obtain ⟨-, rfl⟩ := List.cons.inj heq
      exact ⟨front, stop, rfl, hstop⟩

theorem Plain.not_terminated (h : Plain w) : ¬ Terminated w := by
  rintro ⟨front, stop, rfl, hstop⟩
  have hplain := h stop (List.mem_append_right _ List.mem_cons_self)
  unfold isTerminator at hstop
  split at hstop
  · next hk => rw [hk] at hplain; cases hplain
  · next hk => rw [hk] at hplain; cases hplain
  · cases hstop

theorem isFileWord_cases (h : isFileWord kind = true) :
    kind = .word .fnWord ∨ kind = .word .mdWord ∨ kind = .word .externWord ∨
      kind = .word .namespaceWord := by
  unfold isFileWord at h
  split at h
  · exact .inl rfl
  · exact .inr (.inl rfl)
  · exact .inr (.inr (.inl rfl))
  · exact .inr (.inr (.inr rfl))
  · cases h

theorem not_isTerminator_of_isFileWord (h : isFileWord kind = true) :
    isTerminator kind = false := by
  rcases isFileWord_cases h with rfl | rfl | rfl | rfl <;> rfl

/-- A skipped word is passed over like any other token. -/
theorem skipStatement_word (h : isFileWord t.kind = true) (rest : List Token) :
    skipStatement (t :: rest) = synchronize false rest := by
  rcases isFileWord_cases h with hk | hk | hk | hk <;> rw [skipStatement, hk] <;> rfl

/-- The semicolon that may be left out is there. -/
theorem Plain.semicolon {semicolon : List Token} (hw : Plain w)
    (hsemicolon : Optional (IsToken (.mark .semicolon)) semicolon)
    (hends : Terminated (w ++ semicolon)) : IsToken (.mark .semicolon) semicolon := by
  rcases hsemicolon with rfl | h
  · rw [List.append_nil] at hends
    exact absurd hends hw.not_terminated
  · exact h

namespace FileOnly

variable {first second : Token} {more : List Token}

theorem valid (hw : FileOnly w) : AllValid w := by
  have hsemicolon {w : List Token} (h : Optional (IsToken (.mark .semicolon)) w) : AllValid w :=
    h.valid fun h => h.valid (by simp)
  cases hw.derives with
  | namespaceLine hk hn hs => exact .cons (by simp [hk]) (.cons (by simp [hn]) (hsemicolon hs))
  | function hk hhead hbody =>
      refine .cons ?_ (hhead.plain.valid.append hbody.valid)
      rcases hk with hk | hk <;> simp [hk]
  | externFunction hk hf hhead hs =>
      exact .cons (by simp [hk]) (.cons (by simp [hf]) (hhead.plain.valid.append (hsemicolon hs)))
  | binding hw => exact hw.valid
  | ret hw => exact hw.valid

/-- Behind every word but `extern` the search gets past the whole declaration. Behind `extern` it
ends at the word behind it, and gets past the declaration from there. -/
theorem skips (hw : FileOnly (first :: second :: more))
    (hrest : ∀ x ∈ rest.head?, x.kind ≠ .invalid) :
    if first.kind = .word .externWord then
      second.kind = .word .fnWord ∧
        skipStatement (first :: second :: (more ++ rest)) = second :: (more ++ rest) ∧
        skipStatement (second :: (more ++ rest)) = rest
    else skipStatement (first :: second :: (more ++ rest)) = rest := by
  obtain ⟨hderives, hstarts, hends⟩ := hw
  have hfirst : Terminated (second :: more) := hends.tail (not_isTerminator_of_isFileWord hstarts)
  have hstatement : ¬ startsStatement (nextKind .endOfFile (first :: second :: more)) := by
    rcases isFileWord_cases hstarts with hk | hk | hk | hk <;> rw [hk] <;> decide
  rw [skipStatement_word hstarts]
  generalize hinput : first :: second :: more = input at hderives
  -- only declarations that start with a word of the file scope are left; of these an extern
  -- function has a second such word, at which the search stops
  cases hderives with
  | @namespaceLine k n semicolon hk hn hsemicolon =>
      obtain ⟨rfl, rfl, rfl⟩ : first = k ∧ second = n ∧ more = semicolon := by simpa using hinput
      have hplain : Plain [second] := .one (isPlain_of_eq hn rfl)
      obtain ⟨x, hx, rfl⟩ := hplain.semicolon hsemicolon hfirst
      rw [if_neg (by simp [hk])]
      exact synchronize_semicolon hplain.not_endsSearch hx hrest
  | @function k head body hk hhead hbody =>
      obtain ⟨rfl, hmore⟩ := List.cons.inj hinput
      rw [if_neg (by rcases hk with hk | hk <;> simp [hk]), ← List.cons_append, hmore,
        List.append_assoc]
      exact synchronize_block hhead.plain hbody hrest
  | @externFunction k f head semicolon hk hf hhead hsemicolon =>
      obtain ⟨rfl, rfl, rfl⟩ : first = k ∧ second = f ∧ more = head ++ semicolon := by
        simpa using hinput
      obtain ⟨x, hx, rfl⟩ := hhead.plain.semicolon hsemicolon
        (hfirst.tail (by rw [hf]; rfl))
      rw [if_pos hk]
      refine ⟨hf, ?_, ?_⟩
      · rw [synchronize_eq, List.dropWhile_cons_of_neg (by rw [hf]; decide), behindBoundary, hf]
      · rw [skipStatement_word (by rw [hf]; rfl), List.append_assoc]
        exact synchronize_semicolon hhead.plain.not_endsSearch hx hrest
  | binding hw => exact absurd (Forms.binding hw).statement_startsWith (hinput ▸ hstatement)
  | ret hw => exact absurd (Forms.ret hw).statement_startsWith (hinput ▸ hstatement)

end FileOnly

/-! ## Rounds in a block

A round at such a word fails before anything has been read, and recovery then has to skip at least the
word itself. What is left behind the search decides whether there is a second round like it. -/

/-- The finding that a declaration has no place in a block, at the word that it starts with. -/
def misplacedAt (file : String) (t : Token) : Finding :=
  ⟨.misplaced t.kind, ⟨file, t.position⟩, t.width⟩

theorem message_misplacedAt (file : String) (t : Token) : (misplacedAt file t).issue.message =
    t.kind.describe ++ " declarations are only allowed at file scope" := rfl

/-- From `s` to `s'` the tokens in front of `rest` were passed, with the grammatical findings
`found`. -/
structure Finds (s : State) (found : List Finding) (rest : List Token) (s' : State) : Prop where
  unread : s'.unread = rest
  file : s'.file = s.file
  finish : s'.finish = s.finish
  grammatical : s'.grammatical = s.grammatical ++ found

section

variable {file : String} {finish opening closing : Token} {s s' s'' : State}
  {found found' : List Finding} {mid : List Token}

theorem Goes.finds (h : Goes s rest s') : Finds s [] rest s' :=
  ⟨h.unread, h.file, h.finish, by rw [h.grammatical, List.append_nil]⟩

theorem Finds.trans (h : Finds s found mid s') (h' : Finds s' found' rest s'') :
    Finds s (found ++ found') rest s'' :=
  ⟨h'.unread, h'.file.trans h.file, h'.finish.trans h.finish, by
    rw [h'.grammatical, h.grammatical, List.append_assoc]⟩

theorem State.At.finds (hs : s.At file finish mid) (h : Finds s found rest s') :
    s'.At file finish rest :=
  ⟨h.file.trans hs.file_eq, h.finish.trans hs.finish_eq, h.unread⟩

/-- A statement does not start with such a word. It is reported and skipped. -/
theorem statement_misplaced (inner : Parser (List Statement))
    (hk : isFileWord s.current.kind = true) :
    statement inner s = .error (misplacedAt s.file s.current) s := by
  rw [statement, get_bind]
  rcases isFileWord_cases hk with hk | hk | hk | hk <;> rw [misplacedAt, hk, ← hk] <;> rw [hk] <;>
    rfl

theorem runBlock_misplaced (hs : s.At file finish (t :: rest)) (hv : Valid finish (t :: rest))
    (hk : isFileWord t.kind = true) :
    ∃ s', s.runBlock = s'.runBlock ∧
      Finds s [misplacedAt file t] (skipStatement (t :: rest)) s' := by
  have hexit := hs.exitPanic
  have hfails : statement statements s.exitPanic = .error (misplacedAt file t) s.exitPanic := by
    have h := statement_misplaced statements (s := s.exitPanic) (by rw [hexit.current_eq]; exact hk)
    rwa [hexit.current_eq, hexit.file_eq] at h
  have he : ¬ s.endsBlock := by
    rw [State.endsBlock, hs.current_eq]
    rcases isFileWord_cases hk with hk | hk | hk | hk <;> simp [hk]
  have hrun := (hs.hasEnd hv).runBlock_round he
  rw [State.blockRound_error hfails] at hrun
  refine ⟨_, hrun, ?_, ?_, ?_, ?_⟩
  · have hread : s.exitPanic.unread.length = s.unread.length := rfl
    show (if s.exitPanic.unread.length = s.unread.length then skipStatement s.exitPanic.unread
      else synchronize false s.exitPanic.unread) = _
    rw [if_pos hread, hexit.unread_eq]
  · exact State.report_file ..
  · exact State.report_finish ..
  · exact State.report_grammatical_hard (s := s.exitPanic) rfl rfl

/-- What is found at a declaration in a block: its first word, and behind `extern` the word `fn`
too. -/
def misplacedIn (file : String) (first second : Token) : List Finding :=
  misplacedAt file first ::
    if first.kind = .word .externWord then [misplacedAt file second] else []

/-- A declaration in a block is skipped as a whole. -/
theorem FileOnly.rounds {first second : Token} {more : List Token}
    (hw : FileOnly (first :: second :: more))
    (hs : s.At file finish (first :: second :: (more ++ rest)))
    (hv : Valid finish (first :: second :: (more ++ rest))) :
    ∃ s', s.runBlock = s'.runBlock ∧ Finds s (misplacedIn file first second) rest s' := by
  have hrest : ∀ x ∈ rest.head?, x.kind ≠ .invalid :=
    fun x hx => hv.tail.tail.tokens x (List.mem_append_right _ (List.mem_of_mem_head? hx))
  have hskips := hw.skips hrest
  obtain ⟨s1, hrun1, hfinds1⟩ := runBlock_misplaced hs hv hw.starts
  rw [misplacedIn]
  split at hskips
  · next hk =>
    -- an extern function takes two rounds, one for each of its words
    obtain ⟨hsecond, hskip, hskip'⟩ := hskips
    rw [hskip] at hfinds1
    obtain ⟨s2, hrun2, hfinds2⟩ :=
      runBlock_misplaced (hs.finds hfinds1) hv.tail (by rw [hsecond]; rfl)
    rw [hskip'] at hfinds2
    rw [if_pos hk]
    exact ⟨s2, hrun1.trans hrun2, hfinds1.trans hfinds2⟩
  · next hk =>
    rw [hskips] at hfinds1
    rw [if_neg hk]
    exact ⟨s1, hrun1, hfinds1⟩

/-- The statements around a declaration are read as if it was not there. -/
theorem runBlock_around {first second : Token} {more : List Token}
    {before behind : List (List Token)}
    (hbefore : ∀ v ∈ before, WholeStatement v) (hw : FileOnly (first :: second :: more))
    (hbehind : ∀ v ∈ behind, WholeStatement v) (hclosing : closing.kind = .mark .rightBrace)
    (hs : s.At file finish
      (before.flatten ++ first :: second :: (more ++ (behind.flatten ++ closing :: rest))))
    (hv : Valid finish
      (before.flatten ++ first :: second :: (more ++ (behind.flatten ++ closing :: rest)))) :
    ∃ s', s.runBlock =
        (statementTrees file finish before ++ statementTrees file finish behind, s') ∧
      Finds s (misplacedIn file first second) rest s' := by
  obtain ⟨s1, hrun1, hgo1⟩ := runBlock_statements hbefore hs hv
  have hs1 := hs.goes hgo1
  have hv1 := hv.of_suffix (List.suffix_append ..)
  -- the declaration takes a round or two, which leave nothing but findings
  obtain ⟨s2, hrun2, hfinds⟩ := hw.rounds hs1 hv1
  have hs2 := hs1.finds hfinds
  have hv2 : Valid finish (behind.flatten ++ closing :: rest) :=
    hv1.tail.tail.of_suffix (List.suffix_append ..)
  obtain ⟨s3, hrun3, hgo3⟩ := runBlock_statements hbehind hs2 hv2
  have hs3 := hs2.goes hgo3
  have hclose := goes_closeBlock hs3 hclosing (hv2.of_suffix (List.suffix_append ..))
  have he3 : s3.endsBlock := .inl (by rw [hs3.current_eq]; exact hclosing)
  refine ⟨s3.closeBlock, ?_, ?_⟩
  · rw [hrun1, hrun2, hrun3, State.runBlock_end he3, List.append_nil]
  · have hfound := (hgo1.finds.trans hfinds).trans (hgo3.trans hclose).finds
    rwa [List.nil_append, List.append_nil] at hfound

end

end Grammar

open Grammar Grammar.Parser

/-- A file that is one function. -/
theorem Buffer.parse_of_function {b : Buffer} {d : Declaration} {s' : State}
    (hvalid : AllValid b.tokens)
    (hk : nextKind .endOfFile b.tokens = .word .fnWord)
    (hfunction : function b.startState.exitPanic = .ok d s') (hnil : s'.unread = []) :
    b.parse.declarations = [d] ∧ b.parse.findings = s'.findings := by
  obtain ⟨hat, hv⟩ := startState_at hvalid
  have hkind : b.startState.current.kind = .word .fnWord := by
    rw [hat.current_kind, hv.finish, hk]
  have hrun := (hat.hasEnd hv).run_single (by rw [hkind]; simp)
    (State.fileRound_ok (declaration_function hkind hfunction)) hnil
  rw [Buffer.parse, hrun]
  exact ⟨rfl, rfl⟩

/-- In the body of a function, whole statements around a declaration that belongs to file scope
leave their trees, and the declaration leaves no tree. Every such declaration but an extern function
is reported once, at its first word. An extern function is reported at both of its words. -/
theorem parse_misplaced {b : Buffer} {keyword name left right opening first second closing : Token}
    {before behind : List (List Token)} {more : List Token}
    (htokens : b.tokens = keyword :: name :: left :: right :: opening ::
      (before.flatten ++ first :: second :: (more ++ (behind.flatten ++ [closing]))))
    (hkinds : [keyword, name, left, right, opening, closing].map (·.kind) =
      [.word .fnWord, .identifier, .mark .leftParen, .mark .rightParen, .mark .leftBrace,
        .mark .rightBrace])
    (hbefore : ∀ v ∈ before, WholeStatement v) (hw : FileOnly (first :: second :: more))
    (hbehind : ∀ v ∈ behind, WholeStatement v) :
    let finish := (Stream.ofText b.chars).finish
    b.parse.declarations =
      [.function ⟨name.lexeme, [], [.void ⟨b.name, opening.position⟩], .function, false,
          ⟨b.name, name.position⟩⟩
        (statementTrees b.name finish before ++ statementTrees b.name finish behind)
        ⟨b.name, opening.position⟩] ∧
      b.parse.findings.filter (·.issue.isGrammatical) =
        (misplacedAt b.name first ::
          if first.kind = .word .externWord then [misplacedAt b.name second] else []) ∧
      (misplacedAt b.name first).issue.message =
        first.kind.describe ++ " declarations are only allowed at file scope" := by
  intro finish
  simp only [List.map_cons, List.map_nil, List.cons.injEq, and_true] at hkinds
  obtain ⟨hkeyword, hname, hleft, hright, hopening, hclosing⟩ := hkinds
  have hall {statements : List (List Token)} (h : ∀ v ∈ statements, WholeStatement v) :
      AllValid statements.flatten := by
    intro x hx
    obtain ⟨v, hv, hx⟩ := List.mem_flatten.mp hx
    exact (h v hv).forms.valid x hx
  have hvalid : AllValid b.tokens := by
    rw [htokens]
    have hrest : AllValid (first :: second :: more ++ (behind.flatten ++ [closing])) :=
      hw.valid.append ((hall hbehind).append (.one (by simp [hclosing])))
    exact .cons (by simp [hkeyword]) (.cons (by simp [hname]) (.cons (by simp [hleft])
      (.cons (by simp [hright]) (.cons (by simp [hopening]) ((hall hbefore).append hrest)))))
  obtain ⟨hat, hv⟩ := Buffer.startState_at hvalid
  have hhead := readsHead_plain b.name finish hkeyword hname hleft hright hopening
    (before.flatten ++ first :: second :: (more ++ (behind.flatten ++ [closing])))
  rw [← htokens] at hhead
  -- the body is read by the rounds around the declaration
  obtain ⟨s1, was, hgo1, hfunction⟩ := function_of_block hopening hhead hat.exitPanic hv
  have hv1 := (hv.of_suffix hhead.suffix).tail
  obtain ⟨s2, hrun, hfinds⟩ :=
    runBlock_around hbefore hw hbehind hclosing (hat.exitPanic.goes hgo1) hv1
  rw [hrun] at hfunction
  obtain ⟨hdeclarations, hfindings⟩ := Buffer.parse_of_function hvalid
    (by rw [htokens]; exact hkeyword) hfunction hfinds.unread
  refine ⟨hdeclarations, ?_, message_misplacedAt b.name first⟩
  -- nothing was found in front of the body
  have hstart : b.startState.exitPanic.grammatical = [] := by
    rw [Buffer.startState_eq hvalid]
    rfl
  have hfound := (hgo1.finds.trans hfinds).grammatical
  rw [hstart, List.nil_append, List.nil_append] at hfound
  rw [hfindings]
  exact hfound

/-- A method with an argument and a block within it, between a name and an empty block. -/
theorem parse_misplaced_method :
    let b := Buffer.ofText "method.tp"
      "fn f() \x7b a; md g(x: int): u8 \x7b \x7b\x7d \x7d \x7b\x7d \x7d"
    let loc (column : Nat) : Location := ⟨"method.tp", ⟨1, column⟩⟩
    b.parse.declarations =
      [.function ⟨"f", [], [.void (loc 8)], .function, false, loc 4⟩
        [.expr (.ident "a" (loc 10)), .block [] (loc 37)] (loc 8)] ∧
      b.parse.findings.filter (·.issue.isGrammatical) =
        [⟨.misplaced (.word .mdWord), loc 13, 2⟩] := by
  intro b loc
  let left (column : Nat) : Token := ⟨.mark .leftBrace, "\x7b", ⟨1, column⟩⟩
  let right (column : Nat) : Token := ⟨.mark .rightBrace, "\x7d", ⟨1, column⟩⟩
  let a : Token := ⟨.identifier, "a", ⟨1, 10⟩⟩
  let md : Token := ⟨.word .mdWord, "md", ⟨1, 13⟩⟩
  let g : Token := ⟨.identifier, "g", ⟨1, 16⟩⟩
  let param : List Token := [⟨.identifier, "x", ⟨1, 18⟩⟩, ⟨.mark .colon, ":", ⟨1, 19⟩⟩,
    ⟨.builtin .int, "int", ⟨1, 21⟩⟩]
  let returns : List Token := [⟨.mark .colon, ":", ⟨1, 25⟩⟩, ⟨.builtin .u8, "u8", ⟨1, 27⟩⟩]
  let signature : List Token :=
    ⟨.mark .leftParen, "(", ⟨1, 17⟩⟩ :: (param ++ ⟨.mark .rightParen, ")", ⟨1, 24⟩⟩ :: returns)
  let body : List Token := [left 30, left 32, right 33, right 35]
  let before : List (List Token) := [[a, ⟨.mark .semicolon, ";", ⟨1, 11⟩⟩]]
  let behind : List (List Token) := [[left 37, right 38]]
  have htokens : b.tokens = ⟨.word .fnWord, "fn", ⟨1, 1⟩⟩ :: ⟨.identifier, "f", ⟨1, 4⟩⟩ ::
      ⟨.mark .leftParen, "(", ⟨1, 5⟩⟩ :: ⟨.mark .rightParen, ")", ⟨1, 6⟩⟩ :: left 8 ::
      (before.flatten ++ md :: g :: ((signature ++ body) ++ (behind.flatten ++ [right 40]))) := by
    decide +kernel
  have hbefore : ∀ v ∈ before, WholeStatement v := by
    intro v hv
    rw [List.mem_singleton.mp hv]
    have ha : Derives .expression ([a] ++ []) := .expression (.unary (.name rfl)) .noLink
    exact ⟨.expression ha rfl, [a], _, rfl, rfl⟩
  have hbehind : ∀ v ∈ behind, WholeStatement v := by
    intro v hv
    rw [List.mem_singleton.mp hv]
    exact ⟨.inner (.block (w := []) rfl .noStatement rfl), [_], _, rfl, rfl⟩
  have hparam : Optional DerivesParams param := .inr (.one rfl rfl rfl)
  have hreturns : Optional DerivesReturns returns := .inr (.returns rfl (.one rfl))
  -- the derivation of the method, from its head and its body
  have hhead : DerivesHead (g :: signature) := .head rfl rfl hparam rfl hreturns
  have hblock : Forms .statement (.mark .rightBrace) [left 32, right 33] :=
    .inner (.block (w := []) rfl .noStatement rfl)
  have hbody : Forms .block .endOfFile body :=
    .block (w := [left 32, right 33] ++ []) rfl (.moreStatements hblock .noStatement) rfl
  have hmethod : FileOnly (md :: g :: (signature ++ body)) :=
    ⟨.function (.inr rfl) hhead hbody, rfl, md :: g :: (signature ++ body).dropLast, right 35, rfl,
      rfl⟩
  have hfound : misplacedAt b.name md = ⟨.misplaced (.word .mdWord), loc 13, 2⟩ := by decide
  obtain ⟨hdeclarations, hfindings, -⟩ :=
    parse_misplaced htokens (by decide) hbefore hmethod hbehind
  rw [hfound] at hfindings
  exact ⟨hdeclarations, hfindings⟩

/-- An extern function in a block is reported twice: at `extern`, and once more at `fn`. -/
theorem misplaced_extern_twice :
    let b := Buffer.ofText "extern.tp" "fn f() \x7b extern fn g(); \x7d"
    let loc (column : Nat) : Location := ⟨"extern.tp", ⟨1, column⟩⟩
    FileOnly ((b.tokens.drop 5).dropLast) ∧
      b.parse.findings =
        [⟨.misplaced (.word .externWord), loc 10, 6⟩, ⟨.misplaced (.word .fnWord), loc 17, 2⟩] := by
  intro b loc
  let head : List Token := [⟨.identifier, "g", ⟨1, 20⟩⟩, ⟨.mark .leftParen, "(", ⟨1, 21⟩⟩,
    ⟨.mark .rightParen, ")", ⟨1, 22⟩⟩]
  have htokens : (b.tokens.drop 5).dropLast = ⟨.word .externWord, "extern", ⟨1, 10⟩⟩ ::
      ⟨.word .fnWord, "fn", ⟨1, 17⟩⟩ :: (head ++ [⟨.mark .semicolon, ";", ⟨1, 23⟩⟩]) := by
    decide +kernel
  have hparams : Optional DerivesParams [] := .inl rfl
  have hhead : DerivesHead head := .head rfl rfl hparams rfl (.inl rfl)
  refine ⟨?_, by decide +kernel⟩
  rw [htokens]
  exact ⟨.externFunction rfl rfl hhead (.inr ⟨_, rfl, rfl⟩), rfl, [_, _, _, _, _], _, rfl, rfl⟩

end FrontEnd
