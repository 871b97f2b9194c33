import FrontEnd.Token.Scan
import Mathlib.Data.List.Basic
import Mathlib.Data.List.Find

set_option autoImplicit false

/-! # Signs are read as far as they reach

Marks and operators are read by trees of decisions (`SignTree`), one for each first character, that
were written by hand. What they should do can be said without them: of all spellings that stand at the
start of a text, the longest is read (`longestSymbol`). The two agree on every text
(`scanSymbol_eq_longestSymbol`).

The proof looks at each leaf of a tree in two ways. The characters eaten on the way there must be
the spelling of its kind, and a longer spelling must not have been overlooked: if one goes on from
there, then it goes on with characters that were looked for at this place, and missed. Both are a
matter of finitely many leaves and spellings (`SignTree.reachesLongest`), and are checked for each
tree. That they are enough for every text is an induction on the tree (`SignTree.read_longest`).
-/

namespace FrontEnd

/-! ## The spellings -/

/-- The kinds spelled with signs, those with longer spellings first. The order among spellings of
one length does not matter, since only one of them can fit. -/
def symbolKinds : List Kind :=
  [ -- four characters
    .operator (.shlAssign .wrapping), .operator (.shlAssign .saturating),
    -- three characters
    .mark .closedRange, .mark .openRange, .mark .defineConst,
    .operator (.addAssign .wrapping), .operator (.subAssign .wrapping),
    .operator (.mulAssign .wrapping), .step .increment .wrapping, .step .decrement .wrapping,
    .operator (.shl .wrapping), .operator (.addAssign .saturating),
    .operator (.subAssign .saturating), .operator (.mulAssign .saturating),
    .step .increment .saturating, .step .decrement .saturating, .operator (.shl .saturating),
    .operator (.shlAssign .plain), .operator .shrAssign, .operator .nullCoalesceAssign,
    .operator .orAssign,
    -- two characters
    .mark .dotDot, .mark .scope, .mark .define, .operator .eq, .operator .and, .operator .or,
    .operator .ne, .step .increment .plain, .operator (.addAssign .plain),
    .step .decrement .plain, .operator (.subAssign .plain), .operator (.mulAssign .plain),
    .operator .divAssign, .operator .modAssign, .operator (.add .wrapping),
    .operator (.sub .wrapping), .operator (.mul .wrapping), .operator (.add .saturating),
    .operator (.sub .saturating), .operator (.mul .saturating), .operator .ge, .operator .le,
    .operator (.shl .plain), .operator .shr, .operator .bitXorAssign, .operator .bitAndAssign,
    .operator .bitOrAssign, .mark .arrow, .mark .leftArrow, .mark .questionDot,
    .operator .nullCoalesce,
    -- one character
    .mark .colon, .mark .comma, .mark .semicolon, .mark .leftParen, .mark .rightParen,
    .mark .leftBrace, .mark .rightBrace, .mark .leftBracket, .mark .rightBracket, .mark .dot,
    .mark .atSign, .mark .hash, .operator .assign, .mark .bang, .operator (.add .plain),
    .operator (.sub .plain), .operator (.mul .plain), .operator .div, .operator .mod,
    .operator .gt, .operator .lt, .operator .bitXor, .mark .tilde, .operator .bitAnd,
    .operator .bitOr, .mark .question]

/-- The spellings of these kinds, longer ones first. -/
def symbolTable : List (List Char × Kind) := symbolKinds.map fun k => (k.spelling.toList, k)

/-- The longest spelling at the start of a text: the first entry of the table that fits. -/
def longestSymbol (text : List Char) : Scan :=
  match symbolTable.find? (fun entry => entry.1.isPrefixOf text) with
  | some (spelling, kind) => .token kind spelling.length
  | none => .fault .unexpectedCharacter 1

/-- In the table a sign stands in front of all that are shorter, and no spelling comes twice. -/
theorem symbolTable_sorted :
    symbolTable.Pairwise fun entry entry' =>
      entry'.1.length ≤ entry.1.length ∧ entry'.1 ≠ entry.1 := by
  decide +kernel

/-- An entry that fits, and than which none that fits is longer, is the first that fits. -/
theorem find?_symbolTable {text : List Char} {entry : List Char × Kind}
    (hmem : entry ∈ symbolTable) (hfits : entry.1 <+: text)
    (hlongest : ∀ other ∈ symbolTable, other.1 <+: text → other.1.length ≤ entry.1.length) :
    symbolTable.find? (fun entry => entry.1.isPrefixOf text) = some entry := by
  have hsome : (symbolTable.find? (fun entry => entry.1.isPrefixOf text)).isSome = true :=
    List.find?_isSome.mpr ⟨entry, hmem, List.isPrefixOf_iff_prefix.mpr hfits⟩
  obtain ⟨first, hfirst⟩ := Option.isSome_iff_exists.mp hsome
  obtain ⟨hfits', before, behind, htable, hbefore⟩ := List.find?_eq_some_iff_append.mp hfirst
  rw [List.isPrefixOf_iff_prefix] at hfits'
  rw [hfirst]
  have hle := hlongest first (List.mem_of_find?_eq_some hfirst) hfits'
  rw [htable, List.mem_append, List.mem_cons] at hmem
  rcases hmem with hmem | rfl | hmem
  · have hnot := hbefore entry hmem
    rw [List.isPrefixOf_iff_prefix.mpr hfits] at hnot
    cases hnot
  · rfl
  · -- an entry behind the first one is no longer, and as prefixes of one text they would be equal
    have hsorted := symbolTable_sorted
    rw [htable] at hsorted
    obtain ⟨hge, hne⟩ :=
      (List.pairwise_cons.mp (List.pairwise_append.mp hsorted).2.1).1 entry hmem
    have hlength : entry.1.length = first.1.length := Nat.le_antisymm hge hle
    exact absurd ((List.prefix_of_prefix_length_le hfits hfits' hge).eq_of_length hlength) hne

/-! ## The trees -/

namespace SignTree

/-- Every leaf of a tree is reached by reading its spelling, and no longer spelling is overlooked
there. The tree itself is reached once `own` has been read, where the text goes on with none of
`missed`. -/
def reachesLongest (own : List Char) (missed : List (List Char)) : SignTree → Bool
  | found kind =>
    symbolTable.contains (own, kind) && symbolTable.all fun entry =>
      !own.isPrefixOf entry.1 || entry.1 == own ||
        missed.any fun signs => (own ++ signs).isPrefixOf entry.1
  | eat expected eaten otherwise =>
    eaten.reachesLongest (own ++ expected) [] &&
      otherwise.reachesLongest own (expected :: missed)

/-- What a tree reads is a spelling, and none that stands there is longer. -/
theorem read_longest {tree : SignTree} {own : List Char} {missed : List (List Char)}
    {rest : List Char} (htree : tree.reachesLongest own missed = true)
    (hmissed : ∀ signs ∈ missed, ¬ signs <+: rest) :
    (own ++ rest.take (tree.read rest).2, (tree.read rest).1) ∈ symbolTable ∧
      (tree.read rest).2 ≤ rest.length ∧
      ∀ entry ∈ symbolTable, entry.1 <+: own ++ rest →
        entry.1.length ≤ own.length + (tree.read rest).2 := by
  induction tree generalizing own missed rest with
  | found kind =>
      rw [reachesLongest, Bool.and_eq_true, List.contains_iff_mem, List.all_eq_true] at htree
      obtain ⟨hmem, hall⟩ := htree
      refine ⟨by simpa [read] using hmem, Nat.zero_le _, fun entry hentry hfits => ?_⟩
      by_contra hlonger
      rw [read, Nat.add_zero, Nat.not_le] at hlonger
      -- a longer spelling goes on with something that the text does not go on with
      have hown : own <+: entry.1 :=
        List.prefix_of_prefix_length_le (List.prefix_append own rest) hfits hlonger.le
      have hcases := hall entry hentry
      rw [List.isPrefixOf_iff_prefix.mpr hown, Bool.not_true, Bool.false_or, Bool.or_eq_true,
        List.any_eq_true] at hcases
      rcases hcases with hsame | ⟨signs, hsigns, hfurther⟩
      · rw [beq_iff_eq.mp hsame] at hlonger
        exact Nat.lt_irrefl _ hlonger
      · have hprefix := (List.isPrefixOf_iff_prefix.mp hfurther).trans hfits
        exact hmissed signs hsigns ((List.prefix_append_right_inj own).mp hprefix)
  | eat expected eaten otherwise iheaten ihotherwise =>
      rw [reachesLongest, Bool.and_eq_true] at htree
      rw [read]
      split
      · next hexpected =>
        obtain ⟨behind, rfl⟩ := List.isPrefixOf_iff_prefix.mp hexpected
        have hnone : ∀ signs ∈ ([] : List (List Char)), ¬ signs <+: behind := nofun
        obtain ⟨hmem, hle, hlongest⟩ := iheaten htree.1 hnone
        rw [List.drop_left]
        dsimp only
        rw [List.take_length_add_append, ← List.append_assoc, ← List.append_assoc]
        refine ⟨hmem, ?_, fun entry hentry hfits => ?_⟩
        · rw [List.length_append]
          omega
        · have hbound := hlongest entry hentry hfits
          rw [List.length_append] at hbound
          omega
      · next hexpected =>
        refine ihotherwise htree.2 fun signs hsigns => ?_
        rcases List.mem_cons.mp hsigns with rfl | hsigns
        · rwa [List.isPrefixOf_iff_prefix] at hexpected
        · exact hmissed signs hsigns

end SignTree

/-- The trees overlook no spelling. -/
theorem signTree?_reachesLongest {c : Char} {tree : SignTree} (h : signTree? c = some tree) :
    tree.reachesLongest [c] [] = true := by
  unfold signTree? at h
  -- one case for each first character, and one without a tree
  split at h <;> cases h
  all_goals decide +kernel

/-- Every spelling starts with a character that has a tree. -/
theorem signTree?_isSome {c : Char} {rest : List Char} {kind : Kind}
    (h : (c :: rest, kind) ∈ symbolTable) : (signTree? c).isSome = true := by
  have htable : ∀ entry ∈ symbolTable,
      (entry.1.head?.all fun c => (signTree? c).isSome) = true := by decide +kernel
  exact htable _ h

/-- The trees read the longest spelling that stands at the start of a text. -/
theorem scanSymbol_eq_longestSymbol (text : List Char) : scanSymbol text = longestSymbol text := by
  have hnonempty : ∀ entry ∈ symbolTable, entry.1 ≠ [] := by decide
  cases text with
  | nil =>
      have hnone : symbolTable.find? (fun entry => entry.1.isPrefixOf []) = none := by decide +kernel
      rw [scanSymbol, longestSymbol, hnone]
  | cons c rest =>
      rw [scanSymbol, longestSymbol]
      -- a spelling is found only if there is a tree for its first character
      cases htree : signTree? c with
      | none =>
          have hnone : symbolTable.find? (fun entry => entry.1.isPrefixOf (c :: rest)) = none := by
            refine List.find?_eq_none.mpr fun entry hentry hfits => ?_
            obtain ⟨spelling, kind⟩ := entry
            cases spelling with
            | nil => exact hnonempty _ hentry rfl
            | cons d spelling =>
                obtain rfl : d = c :=
                  (List.cons_prefix_cons.mp (List.isPrefixOf_iff_prefix.mp hfits)).1
                have hsome := signTree?_isSome hentry
                rw [htree] at hsome
                cases hsome
          rw [hnone]
      | some tree =>
          have hnone : ∀ signs ∈ ([] : List (List Char)), ¬ signs <+: rest := nofun
          obtain ⟨hmem, hle, hlongest⟩ :=
            SignTree.read_longest (signTree?_reachesLongest htree) hnone
          have hlength : ([c] ++ rest.take (tree.read rest).2).length = 1 + (tree.read rest).2 := by
            rw [List.length_append, List.length_take_of_le hle, List.length_singleton]
          have hfits : [c] ++ rest.take (tree.read rest).2 <+: c :: rest :=
            (List.prefix_append_right_inj [c]).mpr (List.take_prefix _ rest)
          -- the table is sorted by length, so its first fitting entry is the longest one
          have hfind := find?_symbolTable hmem hfits fun other hother hfits' => by
            rw [hlength]
            exact hlongest other hother hfits'
          rw [hfind]
          dsimp only
          rw [hlength]

end FrontEnd
