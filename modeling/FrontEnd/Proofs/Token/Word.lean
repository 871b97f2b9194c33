import FrontEnd.Proofs.Token.Fading

set_option autoImplicit false

/-! # The longest word

Where a text goes on with a letter or an underscore, the next token is the longest run of letters,
digits and underscores that stands there (`Token.IsWordOf`). It is a reserved word only if all of it
is one: neither a reserved word that it begins with nor one that begins with it matters.

The scanner cuts the word off first and looks it up afterwards, so these are two facts about two
functions. The second one is the look-up in groups, which gives what the plain list of words does.
-/

namespace FrontEnd

/-- The token is the longest word at the start of a text, and of the kind that is spelled like this
word, or an identifier if no reserved word is. -/
structure Token.IsWordOf (t : Token) (text : List Char) : Prop where
  fits : t.lexeme.toList <+: text
  chars : ∀ c ∈ t.lexeme.toList, isWordChar c = true
  longest : ∀ other, other <+: text → (∀ c ∈ other, isWordChar c = true) →
    other.length ≤ t.lexeme.length
  reserved : ∀ k : Kind, k.isReserved = true → k.spelling = t.lexeme → t.kind = k
  identifier : (∀ k : Kind, k.isReserved = true → k.spelling ≠ t.lexeme) → t.kind = .identifier

/-- A reserved word has the kind that is spelled like it. -/
theorem wordKind_of_spelling {word : List Char} {k : Kind} (hk : k.isReserved = true)
    (h : k.spelling = String.ofList word) : wordKind word = k := by
  have hkind := wordKind_of_mem (mem_reservedWords.mpr ⟨hk, h⟩)
  rwa [String.toList_ofList] at hkind

/-- A word without an entry is an identifier. -/
theorem wordKind_of_not_mem {word : List Char} (h : ∀ k, (String.ofList word, k) ∉ reservedWords) :
    wordKind word = .identifier :=
  ((wordKind_cases word).resolve_left (h _)).1

/-- The first characters of a text that belong to words are its longest word. -/
theorem isWordOf_takeWhile (text : List Char) (p : Position) :
    Token.IsWordOf ⟨wordKind (text.takeWhile isWordChar),
      String.ofList (text.takeWhile isWordChar), p⟩ text where
  fits := by
    rw [String.toList_ofList]
    exact List.takeWhile_prefix isWordChar
  chars c hc := by
    rw [String.toList_ofList] at hc
    exact List.mem_takeWhile_imp hc
  longest := by
    rintro other ⟨behind, rfl⟩ hother
    rw [List.takeWhile_append_of_pos hother, String.length_ofList, List.length_append]
    exact Nat.le_add_right _ _
  reserved k hk h := wordKind_of_spelling hk h
  identifier h := wordKind_of_not_mem fun k hk =>
    h k (mem_reservedWords.mp hk).1 (mem_reservedWords.mp hk).2

/-- No gap stands in front of a word. -/
theorem startsGap_of_isWordStart {c : Char} (hc : isWordStart c = true) (rest : List Char) :
    startsGap (c :: rest) = false := by
  have hne (d : Char) (hd : isWordStart d = false) : c ≠ d := by
    rintro rfl
    rw [hc] at hd
    cases hd
  have hblank : Gap.isBlank c = false := by
    simp [Gap.isBlank, hne ' ' (by decide), hne '\t' (by decide), hne '\r' (by decide),
      hne '\n' (by decide)]
  have hslash : c ≠ '/' := hne '/' (by decide)
  cases rest with
  | nil => exact hblank
  | cons d rest => simp [startsGap, hblank, hslash]

/-- Where a text goes on with the start of a word, the next token is the longest word there. -/
theorem Cursor.next_word {c : Cursor}
    (h : ∃ first, c.rest.head? = some first ∧ isWordStart first = true) :
    c.next.1.IsWordOf c.rest ∧ c.next.1.position = c.position ∧
      c.next.2 = c.skip c.next.1.lexeme.length := by
  obtain ⟨text, p⟩ := c
  obtain ⟨first, hhead, hfirst⟩ := h
  obtain ⟨rest, rfl⟩ : ∃ rest, text = first :: rest := List.head?_eq_some_iff.mp hhead
  have hnext := Cursor.next_plain (startsGap_of_isWordStart hfirst rest) p
  rw [scan, if_pos hfirst, scanWord, Cursor.token, Scan.token] at hnext
  dsimp only at hnext
  rw [← List.prefix_iff_eq_take.mp (List.takeWhile_prefix isWordChar)] at hnext
  rw [hnext]
  refine ⟨isWordOf_takeWhile _ p, rfl, ?_⟩
  dsimp only
  rw [String.length_ofList]

/-- No word is reserved twice, a reserved word has the kind of its entry and any other word is an
identifier. The entries are the spellings of the reserved kinds, so where a text goes on with the
start of a word, the next token is the longest word there, of the kind that is spelled like all of
it, or an identifier. -/
theorem wordKind_lookup_and_next_word :
    (reservedWords.map (·.1)).Nodup ∧
    (∀ (s : String) (k : Kind), (s, k) ∈ reservedWords → wordKind s.toList = k) ∧
    (∀ s : String, (∀ k, (s, k) ∉ reservedWords) → wordKind s.toList = .identifier) ∧
    (∀ (s : String) (k : Kind), (s, k) ∈ reservedWords ↔ k.isReserved = true ∧ k.spelling = s) ∧
    ∀ c : Cursor, (∃ first, c.rest.head? = some first ∧ isWordStart first = true) →
      c.next.1.IsWordOf c.rest ∧ c.next.1.position = c.position ∧
        c.next.2 = c.skip c.next.1.lexeme.length := by
  refine ⟨reservedWords_nodup, fun _ _ => wordKind_of_mem, fun s h => ?_,
    fun _ _ => mem_reservedWords, fun _ => Cursor.next_word⟩
  exact wordKind_of_not_mem (by rwa [String.ofList_toList])

/-- The word `typeid` has a kind of its own, with one letter more it is an identifier, and where
`typeid_of` stands, this longer word is read. -/
theorem wordKind_lookup_and_next_word_typeid :
    let c : Cursor := .ofText "typeid_of(x)".toList
    ("typeid", Kind.builtin .typeid) ∈ reservedWords ∧
      wordKind "typeid".toList = .builtin .typeid ∧
      (∀ k, ("typeidé", k) ∉ reservedWords) ∧ wordKind "typeidé".toList = .identifier ∧
      (∃ first, c.rest.head? = some first ∧ isWordStart first = true) ∧
      c.next.1.IsWordOf c.rest ∧ c.next.1.position = c.position ∧
      c.next.2 = c.skip c.next.1.lexeme.length ∧
      c.next.1 = ⟨.word .typeidOf, "typeid_of", c.position⟩ := by
  intro c
  obtain ⟨-, hreserved, hidentifier, -, hnext⟩ := wordKind_lookup_and_next_word
  have hmem : ("typeid", Kind.builtin .typeid) ∈ reservedWords := by decide
  have hnot : ∀ k, ("typeidé", k) ∉ reservedWords := by
    intro k hk
    have hne : ∀ entry ∈ reservedWords, entry.1 ≠ "typeidé" := by decide
    exact hne _ hk rfl
  have hfirst : ∃ first, c.rest.head? = some first ∧ isWordStart first = true :=
    ⟨'t', by decide, by decide⟩
  obtain ⟨hword, hposition, hbehind⟩ := hnext c hfirst
  exact ⟨hmem, hreserved _ _ hmem, hnot, hidentifier _ hnot, hfirst, hword, hposition, hbehind,
    by decide +kernel⟩

end FrontEnd
