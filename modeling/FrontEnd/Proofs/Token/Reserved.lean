import FrontEnd.Token.Reserved
import Mathlib.Data.List.Nodup

set_option autoImplicit false

/-! # Reserved words by plain look-up

The groups of reserved words are a faster way to look a word up in the list of them. A word that is
put into its group is found there, and the look-up of no other word is changed by it
(`WordGroup.kind?_insert`), so groups that are filled from a list give to a word what the list does
(`WordGroup.kind?_foldl`). Different words have different bytes, hence the kind of a word is that of
its entry among the reserved words (`wordKind_eq_lookup`). The entries are the spellings of keywords
and builtin types, each with its own kind (`mem_reservedWords`).

Nothing depends on which words are reserved up to the last part. The groups are compared with any list
of words, and only that no word is reserved twice is checked for the list at hand.
-/

namespace FrontEnd

/-! ## Groups of words -/

namespace WordGroup

variable {g : WordGroup} {groups : List WordGroup} {first b : UInt8} {rest tail : List UInt8}
  {kind : Kind}

theorem kind?_cons_of_eq (h : g.first = b) : kind? (g :: groups) (b :: tail) = g.kindOf? tail := by
  have hfind : (g :: groups).find? (·.first == b) = some g :=
    List.find?_cons_of_pos (beq_iff_eq.mpr h)
  rw [kind?, hfind]
  rfl

theorem kind?_cons_of_ne (h : g.first ≠ b) :
    kind? (g :: groups) (b :: tail) = kind? groups (b :: tail) := by
  have hfind : (g :: groups).find? (·.first == b) = groups.find? (·.first == b) :=
    List.find?_cons_of_neg fun hb => h (beq_iff_eq.mp hb)
  rw [kind?, hfind, kind?]

theorem kindOf?_append (words words' : List (List UInt8 × Kind)) :
    kindOf? ⟨b, words ++ words'⟩ tail = (kindOf? ⟨b, words⟩ tail).or (kindOf? ⟨b, words'⟩ tail) := by
  rw [kindOf?, List.find?_append, Option.map_or]
  rfl

/-- Where the first bytes are the same, equal lengths and equal tails make equal words. -/
theorem kindOf?_singleton :
    kindOf? ⟨b, [(b :: rest, kind)]⟩ tail = [(b :: rest, kind)].lookup (b :: tail) := by
  by_cases h : rest = tail
  · subst h
    simp [kindOf?]
  · have hne : b :: tail ≠ b :: rest := fun he => h (List.cons.inj he).2.symm
    rw [List.lookup_cons, beq_false_of_ne hne]
    simp [kindOf?, h]

theorem lookup_singleton_of_ne (h : first ≠ b) :
    [(first :: rest, kind)].lookup (b :: tail) = none := by
  have hne : b :: tail ≠ first :: rest := fun he => h (List.cons.inj he).1.symm
  rw [List.lookup_cons, beq_false_of_ne hne]
  rfl

/-- A word is found in the group that it was put into, unless that held it before. -/
theorem kind?_go (groups : List WordGroup) :
    kind? (insert.go (first :: rest, kind) first groups) (b :: tail) =
      (kind? groups (b :: tail)).or ([(first :: rest, kind)].lookup (b :: tail)) := by
  induction groups with
  | nil =>
      by_cases hb : first = b
      · subst hb
        rw [insert.go, kind?_cons_of_eq rfl, kindOf?_singleton]
        rfl
      · rw [insert.go, kind?_cons_of_ne hb, lookup_singleton_of_ne hb, Option.or_none]
  | cons g groups ih =>
      rw [insert.go]
      split
      · next hg =>
        -- `g` is the group of the new word
        subst hg
        by_cases hb : g.first = b
        · subst hb
          rw [kind?_cons_of_eq rfl, kind?_cons_of_eq rfl, kindOf?_append, kindOf?_singleton]
        · have hb' : (⟨g.first, g.words ++ [(g.first :: rest, kind)]⟩ : WordGroup).first ≠ b := hb
          rw [kind?_cons_of_ne hb', kind?_cons_of_ne hb, lookup_singleton_of_ne hb, Option.or_none]
      · next hg =>
        by_cases hb : g.first = b
        · subst hb
          rw [kind?_cons_of_eq rfl, kind?_cons_of_eq rfl, lookup_singleton_of_ne (Ne.symm hg),
            Option.or_none]
        · rw [kind?_cons_of_ne hb, kind?_cons_of_ne hb, ih]

/-- One word more is found where no word before it was, and changes nothing else. -/
theorem kind?_insert (groups : List WordGroup) (word : List UInt8 × Kind) :
    kind? (insert groups word) (b :: tail) =
      (kind? groups (b :: tail)).or ([word].lookup (b :: tail)) := by
  obtain ⟨bytes, kind⟩ := word
  cases bytes with
  | nil => exact Option.or_none.symm
  | cons first rest => exact kind?_go groups

/-- Groups that are filled from a list find the words that they held before, and those of the
list. -/
theorem kind?_foldl (words : List (List UInt8 × Kind)) (groups : List WordGroup) :
    kind? (words.foldl insert groups) (b :: tail) =
      (kind? groups (b :: tail)).or (words.lookup (b :: tail)) := by
  induction words generalizing groups with
  | nil => exact Option.or_none.symm
  | cons word words ih =>
      rw [List.foldl_cons, ih, kind?_insert, Option.or_assoc, ← List.lookup_append]
      rfl

end WordGroup

/-! ## The list of reserved words -/

theorem wordBytes_injective : Function.Injective wordBytes := by
  intro s t h
  exact String.toByteArray_inj.mp (ByteArray.ext (Array.toList_inj.mp h))

/-- A look-up by the bytes of a word is one by the word. -/
theorem lookup_wordBytes (words : List (String × Kind)) (word : String) :
    (words.map fun entry => (wordBytes entry.1, entry.2)).lookup (wordBytes word) =
      words.lookup word := by
  induction words with
  | nil => rfl
  | cons entry words ih =>
      have hbytes : (wordBytes word == wordBytes entry.1) = (word == entry.1) := by
        rw [Bool.eq_iff_iff, beq_iff_eq, beq_iff_eq, wordBytes_injective.eq_iff]
      rw [List.map_cons, List.lookup_cons, hbytes, ih, List.lookup_cons]

/-- The kind of a word is that of the first entry for it among the reserved words. -/
theorem wordKind_eq_lookup (word : List Char) :
    wordKind word = (reservedWords.lookup (String.ofList word)).getD .identifier := by
  have hempty : reservedWords.lookup "" = none := by decide
  rw [wordKind]
  congr 1
  cases hbytes : wordBytes (String.ofList word) with
  | nil =>
      have hword : String.ofList word = "" := wordBytes_injective hbytes
      rw [hword, hempty, WordGroup.kind?]
  | cons b tail =>
      rw [wordGroups, WordGroup.kind?_foldl, WordGroup.kind?, ← hbytes, lookup_wordBytes]
      rfl

/-- No word is reserved twice. -/
theorem reservedWords_nodup : (reservedWords.map (·.1)).Nodup := by decide +kernel

/-- So its first entry is its only one. -/
theorem lookup_reservedWords {s : String} {k : Kind} :
    reservedWords.lookup s = some k ↔ (s, k) ∈ reservedWords := by
  constructor
  · intro h
    obtain ⟨before, behind, heq, -⟩ := List.lookup_eq_some_iff.mp h
    rw [heq]
    exact List.mem_append_right before List.mem_cons_self
  · intro h
    obtain ⟨before, behind, heq⟩ := List.append_of_mem h
    refine List.lookup_eq_some_iff.mpr ⟨before, behind, heq, fun entry hentry => ?_⟩
    have hnodup := reservedWords_nodup
    rw [heq, List.map_append, List.map_cons] at hnodup
    have hne := (List.nodup_append.mp hnodup).2.2 entry.1 (List.mem_map_of_mem hentry) s
      List.mem_cons_self
    exact bne_iff_ne.mpr hne.symm

/-- The kinds of reserved words. -/
def Kind.isReserved : Kind → Bool
  | .word _ | .builtin _ => true
  | _ => false

/-- The reserved words are the spellings of their kinds, and each of these kinds has one. -/
theorem mem_reservedWords {s : String} {k : Kind} :
    (s, k) ∈ reservedWords ↔ k.isReserved = true ∧ k.spelling = s := by
  constructor
  · have hspelling : ∀ entry ∈ reservedWords,
        entry.2.isReserved = true ∧ entry.2.spelling = entry.1 := by decide
    exact hspelling (s, k)
  · rintro ⟨hk, rfl⟩
    have hwords : ∀ w ∈ Keyword.all, (w.spelling, Kind.word w) ∈ reservedWords := by decide
    have htypes : ∀ t ∈ BuiltinType.all, (t.spelling, Kind.builtin t) ∈ reservedWords := by decide
    cases k with
    | word w => exact hwords w (by cases w <;> decide)
    | builtin t => exact htypes t (by cases t <;> decide)
    | _ => cases hk

/-! ## The kind of a word -/

/-- A reserved word has the kind of its entry. -/
theorem wordKind_of_mem {s : String} {k : Kind} (h : (s, k) ∈ reservedWords) :
    wordKind s.toList = k := by
  rw [wordKind_eq_lookup, String.ofList_toList, lookup_reservedWords.mpr h]
  rfl

/-- A word is reserved, or it is an identifier. -/
theorem wordKind_cases (word : List Char) :
    (String.ofList word, wordKind word) ∈ reservedWords ∨
      wordKind word = .identifier ∧ ∀ k, (String.ofList word, k) ∉ reservedWords := by
  rw [wordKind_eq_lookup]
  cases hlookup : reservedWords.lookup (String.ofList word) with
  | some k => exact .inl (lookup_reservedWords.mp hlookup)
  | none =>
      refine .inr ⟨rfl, fun k hk => ?_⟩
      rw [lookup_reservedWords.mpr hk] at hlookup
      cases hlookup

/-- The kind of a reserved word is spelled like it. -/
theorem wordKind_spelling {word : List Char} (h : (wordKind word).isFixed = true) :
    String.ofList word = (wordKind word).spelling := by
  rcases wordKind_cases word with hmem | ⟨hkind, -⟩
  · exact (mem_reservedWords.mp hmem).2.symm
  · rw [hkind] at h
    cases h

end FrontEnd
