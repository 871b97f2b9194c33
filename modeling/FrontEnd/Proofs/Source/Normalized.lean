import FrontEnd.Proofs.Diagnostic.Excerpt
import FrontEnd.Proofs.Token.LineEnds

set_option autoImplicit false

/-! # Line ends that are left in a buffer

A buffer is made in one pass over its text, which drops the carriage return directly in front of
each line feed and does not look back. Of several carriage returns in front of a line feed all but
one stay (`returns_infix_normalizeNewlines`), so two of them leave a line end of two characters
behind. There is no other way to get one: a buffer of a text without such a place is normalised for
good, and none of its lines but the last ends in a carriage return (`Buffer.normalized_iff`).

What is counted is carriage returns in front of a line feed. One pass takes one of them away
wherever there is one (`returns_infix_normalizeNewlines`), so a text that has two in a row somewhere
keeps one, and the three properties of a buffer are all the absence of one.
-/

namespace FrontEnd

/-! ## Carriage returns in front of a line feed

Normalising is one pass from left to right, so of several carriage returns only the last one is left
out. A text changes if there is one, and is normalised if there were no two. -/

/-- `n` carriage returns in front of a line feed. Normalisation drops one of them, if there are any.
-/
def returns (n : Nat) : List Char := List.replicate n '\r' ++ ['\n']

theorem returns_succ (n : Nat) : returns (n + 1) = '\r' :: returns n := by
  rw [returns, List.replicate_succ, List.cons_append, returns]

theorem returns_succ_prefix_cons {n : Nat} {c : Char} {text : List Char} :
    returns (n + 1) <+: c :: text ↔ c = '\r' ∧ returns n <+: text := by
  rw [returns_succ, List.cons_prefix_cons, eq_comm]

theorem returns_zero_prefix_iff {text : List Char} :
    returns 0 <+: text ↔ text.head? = some '\n' := by
  cases text with
  | nil => simp [returns]
  | cons c text => simp [returns, eq_comm]

theorem head?_ne_of_returns {n : Nat} {text : List Char} (h : returns (n + 1) <+: text) :
    text.head? ≠ some '\n' := by
  cases text with
  | nil => simp
  | cons c text =>
      obtain ⟨rfl, -⟩ := returns_succ_prefix_cons.mp h
      simp

/-- A normalised text starts with a line feed if a line feed or a line end was there. A line end
becomes a line feed, and nothing else becomes one. -/
theorem returns_zero_prefix_normalizeNewlines (text : List Char) :
    returns 0 <+: normalizeNewlines text ↔ text.head? = some '\n' ∨ returns 1 <+: text := by
  rw [returns_zero_prefix_iff]
  cases text with
  | nil => simp [normalizeNewlines, returns]
  | cons c rest =>
      rw [returns_succ_prefix_cons, returns_zero_prefix_iff]
      rcases normalizeNewlines_cons c rest with ⟨rfl, hfeed, heq⟩ | ⟨hkept, heq⟩
      · obtain ⟨more, rfl⟩ := List.head?_eq_some_iff.mp hfeed
        rw [heq, normalizeNewlines_cons_of_ne (by decide)]
        simp
      · rw [heq]
        simp only [List.head?_cons]
        constructor
        · intro hc
          exact .inl hc
        · rintro (hc | ⟨hreturn, hfeed⟩)
          · exact hc
          · exact absurd hfeed (hkept hreturn)

/-- A carriage return that is kept stands in front of no line feed. -/
theorem returns_prefix_normalizeNewlines_cons (n : Nat) (c : Char) (rest : List Char) :
    returns (n + 1) <+: normalizeNewlines (c :: rest) ↔
      c = '\r' ∧ rest.head? ≠ some '\n' ∧ returns n <+: normalizeNewlines rest := by
  rcases normalizeNewlines_cons c rest with ⟨rfl, hfeed, heq⟩ | ⟨hkept, heq⟩
  · obtain ⟨more, rfl⟩ := List.head?_eq_some_iff.mp hfeed
    rw [heq, normalizeNewlines_cons_of_ne (by decide), returns_succ_prefix_cons]
    simp
  · rw [heq, returns_succ_prefix_cons]
    constructor
    · rintro ⟨hc, hprefix⟩
      exact ⟨hc, hkept hc, hprefix⟩
    · rintro ⟨hc, -, hprefix⟩
      exact ⟨hc, hprefix⟩

/-- At the start of a text one carriage return of several is dropped. -/
theorem returns_prefix_normalizeNewlines (n : Nat) (text : List Char) :
    returns (n + 1) <+: normalizeNewlines text ↔ returns (n + 2) <+: text := by
  induction n generalizing text with
  | zero =>
      cases text with
      | nil => simp [normalizeNewlines, returns]
      | cons c rest =>
          rw [returns_prefix_normalizeNewlines_cons, returns_zero_prefix_normalizeNewlines,
            returns_succ_prefix_cons]
          constructor
          · rintro ⟨hc, hne, hfeed | hprefix⟩
            · exact absurd hfeed hne
            · exact ⟨hc, hprefix⟩
          · -- with another one behind it, the first carriage return is kept
            rintro ⟨hc, hprefix⟩
            exact ⟨hc, head?_ne_of_returns hprefix, .inr hprefix⟩
  | succ n ih =>
      cases text with
      | nil => simp [normalizeNewlines, returns_succ]
      | cons c rest =>
          rw [returns_prefix_normalizeNewlines_cons, ih, returns_succ_prefix_cons]
          constructor
          · rintro ⟨hc, -, hprefix⟩
            exact ⟨hc, hprefix⟩
          · rintro ⟨hc, hprefix⟩
            exact ⟨hc, head?_ne_of_returns hprefix, hprefix⟩

/-- Everywhere in a text one carriage return of several is dropped. -/
theorem returns_infix_normalizeNewlines (n : Nat) (text : List Char) :
    returns (n + 1) <:+: normalizeNewlines text ↔ returns (n + 2) <:+: text := by
  induction text with
  | nil => simp [normalizeNewlines, returns_succ]
  | cons c rest ih =>
      have hprefix := returns_prefix_normalizeNewlines n (c :: rest)
      rw [List.infix_cons_iff, ← hprefix, ← ih]
      rcases normalizeNewlines_cons c rest with ⟨-, -, heq⟩ | ⟨-, heq⟩
      · rw [heq]
        constructor
        · intro h
          exact .inr h
        · rintro (h | h)
          · exact h.isInfix
          · exact h
      · rw [heq, List.infix_cons_iff]

/-! ## Normalised texts -/

/-- A text is normalised if no line end of two characters stands in it. -/
theorem noCrLf_iff (text : List Char) : NoCrLf text ↔ ¬ returns 1 <:+: text := by
  induction text with
  | nil => simp [NoCrLf, returns]
  | cons c rest ih =>
      rw [List.infix_cons_iff, returns_succ_prefix_cons, returns_zero_prefix_iff, not_or, ← ih,
        NoCrLf, NoCrLf, List.isChain_cons]
      simp only [not_and, Option.mem_def]
      refine and_congr_left fun _ => ?_
      constructor
      · intro h hc hfeed
        exact h '\n' hfeed hc rfl
      · rintro h d hd hc rfl
        exact h hc hd

/-- A text that is left as it is is normalised. -/
theorem noCrLf_of_normalizeNewlines_eq {text : List Char} (h : normalizeNewlines text = text) :
    NoCrLf text := by
  induction text with
  | nil => exact .nil
  | cons c rest ih =>
      rcases normalizeNewlines_cons c rest with ⟨rfl, hfeed, heq⟩ | ⟨hkept, heq⟩
      · -- the text would start with the line feed, too
        obtain ⟨more, rfl⟩ := List.head?_eq_some_iff.mp hfeed
        rw [heq, normalizeNewlines_cons_of_ne (by decide)] at h
        cases h
      · rw [heq] at h
        refine List.isChain_cons.mpr ⟨?_, ih (List.cons.inj h).2⟩
        rintro d hd hc rfl
        exact hkept hc hd

/-! ## Lines

A line is what stands between two line feeds. A carriage return at its end is one in front of a line
feed, unless the line is the last one. -/

/-- A text is a line, or a line with its line feed and more text behind. Numbers of lines are counted
along this induction. -/
theorem lines_induction {P : List Char → Prop} (last : ∀ line, '\n' ∉ line → P line)
    (more : ∀ line rest, '\n' ∉ line → P rest → P (line ++ '\n' :: rest)) (text : List Char) :
    P text := by
  by_cases hfeed : '\n' ∈ text
  · obtain ⟨line, rest, heq, hline⟩ := List.eq_append_cons_of_mem hfeed
    have hlt : rest.length < text.length := by
      rw [heq, List.length_append, List.length_cons]
      omega
    rw [heq]
    exact more line rest hline (lines_induction last more rest)
  · exact last text hfeed
termination_by text.length

section

variable {line : List Char}

theorem lineAt_zero_append (hline : '\n' ∉ line) (rest : List Char) :
    lineAt 0 (line ++ '\n' :: rest) = some line := by
  have hall : ∀ c ∈ line, (c != '\n') = true := by
    intro c hc
    rw [bne_iff_ne]
    rintro rfl
    exact hline hc
  rw [lineAt, List.takeWhile_append_of_pos hall]
  simp

theorem lineAt_succ_append (hline : '\n' ∉ line) (n : Nat) (rest : List Char) :
    lineAt (n + 1) (line ++ '\n' :: rest) = lineAt n rest := by
  induction line with
  | nil => exact lineAt_cons_lineFeed n rest
  | cons c line ih =>
      rw [List.mem_cons, not_or] at hline
      rw [List.cons_append, lineAt_cons_of_ne (Ne.symm hline.1), ih hline.2]

theorem lineAt_succ_of_not_mem (hline : '\n' ∉ line) (n : Nat) : lineAt (n + 1) line = none := by
  induction line with
  | nil => rfl
  | cons c line ih =>
      rw [List.mem_cons, not_or] at hline
      rw [lineAt_cons_of_ne (Ne.symm hline.1), ih hline.2]

theorem noCrLf_of_lineFeed_not_mem (hline : '\n' ∉ line) : NoCrLf line := by
  rw [noCrLf_iff]
  intro h
  exact hline (h.subset (by simp [returns]))

/-- A line end of two characters is a line that ends in a carriage return, or stands behind it. -/
theorem noCrLf_append (hline : '\n' ∉ line) (rest : List Char) :
    NoCrLf (line ++ '\n' :: rest) ↔ line.getLast? ≠ some '\r' ∧ NoCrLf rest := by
  have hfeed : NoCrLf ('\n' :: rest) ↔ NoCrLf rest := by
    rw [NoCrLf, List.isChain_cons]
    simp [NoCrLf]
  rw [NoCrLf, List.isChain_append, ← NoCrLf, ← NoCrLf, hfeed]
  constructor
  · rintro ⟨-, hrest, hlast⟩
    refine ⟨?_, hrest⟩
    intro hreturn
    exact hlast '\r' hreturn '\n' rfl rfl rfl
  · rintro ⟨hlast, hrest⟩
    refine ⟨noCrLf_of_lineFeed_not_mem hline, hrest, ?_⟩
    rintro c hc d hd rfl -
    exact hlast hc

end

/-- A text is normalised if none of its lines but the last ends in a carriage return. -/
theorem noCrLf_iff_lineAt (text : List Char) :
    NoCrLf text ↔ ∀ n line, lineAt n text = some line → (lineAt (n + 1) text).isSome →
      line.getLast? ≠ some '\r' := by
  -- line by line: the first line is normalised, and so is the text behind it
  induction text using lines_induction with
  | last line hline =>
      simp only [lineAt_succ_of_not_mem hline, noCrLf_of_lineFeed_not_mem hline, true_iff]
      intro n line' _ hnext
      cases hnext
  | more line rest hline ih =>
      rw [noCrLf_append hline, ih]
      constructor
      · rintro ⟨hlast, hrest⟩ n line' hn hnext
        cases n with
        | zero =>
            rw [lineAt_zero_append hline] at hn
            cases hn
            exact hlast
        | succ n =>
            rw [lineAt_succ_append hline] at hn hnext
            exact hrest n line' hn hnext
      · intro h
        constructor
        · refine h 0 line (lineAt_zero_append hline rest) ?_
          rw [lineAt_succ_append hline]
          rfl
        · intro n line' hn hnext
          refine h (n + 1) line' ?_ ?_
          · rwa [lineAt_succ_append hline]
          · rwa [lineAt_succ_append hline]

/-! ## Buffers -/

namespace Buffer

theorem ofText_text_eq_iff (b : Buffer) : ofText b.name b.text = b ↔ NoCrLf b.chars := by
  have htext : ofText b.name b.text = b ↔ normalizeNewlines b.chars = b.chars := by
    constructor
    · intro h
      have hchars := chars_ofText b.name b.text
      rw [h] at hchars
      exact hchars.symm
    · intro h
      rw [ofText]
      change (⟨b.name, String.ofList (normalizeNewlines b.chars)⟩ : Buffer) = b
      rw [h, chars, String.ofList_toList]
  rw [htext]
  constructor
  · intro h
    exact noCrLf_of_normalizeNewlines_eq h
  · intro h
    exact normalizeNewlines_eq h

theorem noCrLf_iff_line? (b : Buffer) :
    NoCrLf b.chars ↔ ∀ n line, b.line? n = some line → (b.line? (n + 1)).isSome →
      line.toList.getLast? ≠ some '\r' := by
  rw [noCrLf_iff_lineAt]
  constructor
  · intro h n line hn hnext
    cases n with
    | zero => cases hn
    | succ n =>
        rw [line?] at hn hnext
        obtain ⟨line', hline', rfl⟩ := Option.map_eq_some_iff.mp hn
        rw [Option.isSome_map] at hnext
        rw [String.toList_ofList]
        exact h n line' hline' hnext
  · intro h n line hn hnext
    have hlast := h (n + 1) (String.ofList line) (by rw [line?, hn]; rfl)
      (by rw [line?, Option.isSome_map]; exact hnext)
    rwa [String.toList_ofList] at hlast

/-- A buffer is normalised, is not changed by normalising it again, and has no line but the last that
ends in a carriage return, if and only if its text had no two carriage returns in front of a line
feed. -/
theorem normalized_iff (name text : String) :
    let b := ofText name text
    let doubled := returns 2 <:+: text.toList
    (NoCrLf b.chars ↔ ¬ doubled) ∧
      (ofText b.name b.text = b ↔ ¬ doubled) ∧
      ((∀ n line, b.line? n = some line → (b.line? (n + 1)).isSome →
        line.toList.getLast? ≠ some '\r') ↔ ¬ doubled) := by
  intro b doubled
  have hiff : NoCrLf b.chars ↔ ¬ doubled := by
    rw [noCrLf_iff, chars_ofText, returns_infix_normalizeNewlines]
  refine ⟨hiff, ?_, ?_⟩
  · rw [ofText_text_eq_iff, hiff]
  · rw [← noCrLf_iff_line?, hiff]

/-- Two carriage returns in front of a line feed leave a line end of two characters. -/
theorem not_normalized_returns :
    let b := ofText "main.tp" "\r\r\n"
    ¬ NoCrLf b.chars ∧ ofText b.name b.text ≠ b ∧ b.line? 1 = some "\r" ∧ b.line? 2 = some "" := by
  intro b
  have hchars : b.chars = returns 1 := by decide
  have hpair : returns 1 <:+: b.chars := hchars ▸ List.infix_rfl
  exact ⟨fun h => (noCrLf_iff b.chars).mp h hpair, by decide, by decide, by decide⟩

end Buffer

end FrontEnd
