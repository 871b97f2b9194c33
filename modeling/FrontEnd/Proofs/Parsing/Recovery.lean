import FrontEnd.Proofs.Parsing.Rounds

set_option autoImplicit false

/-! # Where recovery goes on

After a failure the tokens are searched for a statement boundary (`synchronize`). The search passes
over the tokens that are no boundary, and `behindBoundary` says where it goes on at the first one that
is (`synchronize_eq`). A boundary that opens a group in braces is skipped with its whole group
(`skipGroups_group`): the number of open braces is counted, and the count is never taken below zero,
since the group ends where the count would get there.

Both searches run over the tokens once, with a flag or a number to remember where they are. What they
come to is said here without either, by the tokens alone. Invalid tokens make no difference to them:
they are no boundary and no brace, and those in front of what is left are dropped as they always are
when the parser moves on.
-/

namespace FrontEnd.Grammar

/-! ## The search for a boundary

Invalid tokens are passed over, wherever the search meets them, and do not end it. -/

/-- The tokens at which a search for a statement boundary ends. It goes on behind a semicolon or a
group in braces, and in front of the others. -/
def endsSearch (kind : Kind) : Bool :=
  kind = .mark .semicolon || kind = .mark .leftBrace || kind = .mark .rightBrace ||
    startsDeclaration kind

/-- The tokens to go on with, where the first one ends a search: those behind a semicolon or a group
in braces, and otherwise all of them. -/
def behindBoundary : List Token → List Token
  | [] => []
  | t :: rest =>
    match t.kind with
    | .mark .semicolon => dropInvalid rest
    | .mark .leftBrace => skipGroups 0 (t :: rest)
    | _ => t :: rest

theorem dropInvalid_cons (t : Token) (rest : List Token) :
    dropInvalid (t :: rest) = if t.kind = .invalid then dropInvalid rest else t :: rest := by
  rw [dropInvalid, List.dropWhile_cons]
  simp [dropInvalid]

theorem dropInvalid_of_valid {tokens : List Token} (h : ∀ t ∈ tokens.head?, t.kind ≠ .invalid) :
    dropInvalid tokens = tokens := by
  cases tokens with
  | nil => rfl
  | cons t rest => rw [dropInvalid_cons, if_neg (h t rfl)]

theorem dropInvalid_head (tokens : List Token) :
    ∀ t ∈ (dropInvalid tokens).head?, t.kind ≠ .invalid := by
  induction tokens with
  | nil => exact nofun
  | cons t rest ih =>
      rw [dropInvalid_cons]
      split
      · exact ih
      · next hk =>
        intro t' ht'
        cases ht'
        exact hk

/-- What is dropped are invalid tokens. -/
theorem exists_append_dropInvalid (tokens : List Token) :
    ∃ skipped, tokens = skipped ++ dropInvalid tokens ∧ ∀ t ∈ skipped, t.kind = .invalid := by
  induction tokens with
  | nil => exact ⟨[], rfl, nofun⟩
  | cons t rest ih =>
      rw [dropInvalid_cons]
      split
      · next hk =>
        obtain ⟨skipped, heq, hall⟩ := ih
        exact ⟨t :: skipped, congrArg (t :: ·) heq, List.forall_mem_cons.mpr ⟨hk, hall⟩⟩
      · exact ⟨[], rfl, nofun⟩

/-- Behind a semicolon the search is over at the next valid token. -/
theorem synchronize_true (tokens : List Token) : synchronize true tokens = dropInvalid tokens := by
  induction tokens with
  | nil => rfl
  | cons t rest ih =>
      rw [synchronize, dropInvalid_cons, ih]
      rfl

/-- The search passes over the tokens that do not end it. -/
theorem synchronize_eq (tokens : List Token) :
    synchronize false tokens =
      behindBoundary (tokens.dropWhile fun t => !endsSearch t.kind) := by
  induction tokens with
  | nil => rfl
  | cons t rest ih =>
      rw [List.dropWhile_cons, synchronize]
      by_cases hinvalid : t.kind = .invalid
      · rw [if_pos hinvalid, ih, hinvalid]
        rfl
      · rw [if_neg hinvalid]
        simp only [Bool.false_eq_true, if_false]
        split
        · next hk =>
          rw [hk, if_neg (by decide), behindBoundary, hk]
        · next hk =>
          rw [hk, if_neg (by decide), behindBoundary, hk]
        · -- any other token starts a declaration, is a semicolon, or is passed over
          next hright hleft =>
          split
          · next hstarts =>
            have hsemicolon : t.kind ≠ .mark .semicolon := by
              intro he
              rw [he] at hstarts
              cases hstarts
            rw [if_neg (by simp [endsSearch, hstarts]), behindBoundary]
            split
            · contradiction
            · contradiction
            · rfl
          · next hstarts =>
            by_cases hsemicolon : t.kind = .mark .semicolon
            · rw [hsemicolon, if_neg (by decide), behindBoundary, hsemicolon]
              exact synchronize_true rest
            · rw [if_pos (by simp_all [endsSearch]),
                decide_eq_false hsemicolon, ih]

/-! ## Groups in braces

The count that is kept while skipping is a natural number, so that it is not taken below zero has to
be said about the difference of opened and closed groups, which is an integer. -/

/-- How many groups a token opens, or one less than none if it closes one. The count is an integer,
as a brace may close what nothing has opened. -/
def braceStep : Kind → Int
  | .mark .leftBrace => 1
  | .mark .rightBrace => -1
  | _ => 0

/-- How many more groups the tokens open than they close. -/
def depthBehind : List Token → Int
  | [] => 0
  | t :: rest => braceStep t.kind + depthBehind rest

@[simp] theorem depthBehind_nil : depthBehind [] = 0 := rfl

@[simp] theorem depthBehind_cons (t : Token) (rest : List Token) :
    depthBehind (t :: rest) = braceStep t.kind + depthBehind rest := rfl

/-- The tokens `group` close the `depth` groups that are open before them, or reach to the end of the
file. Within them the count of open groups is the number of groups that were opened and not closed,
and at least one is open wherever a token is left of the group. -/
structure Closes (depth : Nat) (group behind : List Token) : Prop where
  skipped : skipGroups depth (group ++ behind) = dropInvalid behind
  counted : ∀ front back, group = front ++ back → back ≠ [] →
    ∃ count : Nat, 0 < count ∧ (count : Int) = depth + depthBehind front ∧
      skipGroups depth (group ++ behind) = skipGroups count (back ++ behind)
  closed : depth + depthBehind group = 0 ∨ behind = []

namespace Closes

variable {depth depth' : Nat} {t : Token} {group behind : List Token}

/-- One more token, behind which the count is `depth'`. -/
theorem cons (h : Closes depth' group behind) (hpos : 0 < depth)
    (hstep : (depth' : Int) = depth + braceStep t.kind)
    (hskip : ∀ rest, skipGroups depth (t :: rest) = skipGroups depth' rest) :
    Closes depth (t :: group) behind where
  skipped := (hskip _).trans h.skipped
  counted := by
    intro front back hgroup hback
    cases front with
    | nil => exact ⟨depth, hpos, by simp, by rw [hgroup]; rfl⟩
    | cons t' front =>
        rw [List.cons_append, List.cons.injEq] at hgroup
        obtain ⟨rfl, hgroup⟩ := hgroup
        obtain ⟨count, hcount, heq, hrest⟩ := h.counted front back hgroup hback
        refine ⟨count, hcount, ?_, (hskip _).trans hrest⟩
        rw [depthBehind_cons]
        omega
  closed := h.closed.imp_left fun hc => by rw [depthBehind_cons]; omega

end Closes

/-- Open groups are skipped up to their closing brace, or to the end of the file. -/
theorem exists_closes (depth : Nat) (hpos : 0 < depth) (tokens : List Token) :
    ∃ group behind, tokens = group ++ behind ∧ Closes depth group behind := by
  induction tokens generalizing depth with
  | nil =>
      refine ⟨[], [], rfl, rfl, fun front back hgroup hback => ?_, .inr rfl⟩
      exact absurd (List.append_eq_nil_iff.mp hgroup.symm).2 hback
  | cons t rest ih =>
      -- a token that leaves a group open is skipped, and the rest by induction
      have hmore {depth' : Nat} (hpos' : 0 < depth')
          (hstep : (depth' : Int) = depth + braceStep t.kind)
          (hskip : ∀ rest, skipGroups depth (t :: rest) = skipGroups depth' rest) :
          ∃ group behind, t :: rest = group ++ behind ∧ Closes depth group behind := by
        obtain ⟨group, behind, rfl, h⟩ := ih depth' hpos'
        exact ⟨t :: group, behind, rfl, h.cons hpos hstep hskip⟩
      by_cases hleft : t.kind = .mark .leftBrace
      · exact hmore (Nat.succ_pos depth) (by rw [hleft]; rfl)
          fun rest => by rw [skipGroups, hleft]
      · by_cases hright : t.kind = .mark .rightBrace
        · by_cases hlast : depth ≤ 1
          · -- the brace closes the last group
            have hskip : skipGroups depth (t :: rest) = dropInvalid rest := by
              rw [skipGroups, hright]
              exact if_pos hlast
            refine ⟨[t], rest, rfl, hskip, fun front back hgroup hback => ?_, .inl ?_⟩
            · cases front with
              | nil => exact ⟨depth, hpos, by simp, by rw [hgroup]; rfl⟩
              | cons t' front =>
                  rw [List.cons_append, List.cons.injEq] at hgroup
                  exact absurd (List.append_eq_nil_iff.mp hgroup.2.symm).2 hback
            · rw [depthBehind_cons, depthBehind_nil, hright, braceStep]
              omega
          · have hpos' : 0 < depth - 1 := by omega
            refine hmore hpos' (by rw [hright, braceStep]; omega) fun rest => ?_
            rw [skipGroups, hright]
            exact if_neg hlast
        · refine hmore hpos ?_ fun rest => ?_
          · rw [braceStep]
            · omega
            · exact hleft
            · exact hright
          · rw [skipGroups]
            split
            · contradiction
            · contradiction
            · rfl

/-- A group is skipped from its opening brace on. The count starts at zero there, and is never taken
below it. -/
theorem skipGroups_group {t : Token} (hk : t.kind = .mark .leftBrace) (rest : List Token) :
    ∃ group behind, rest = group ++ behind ∧ Closes 1 group behind ∧
      skipGroups 0 (t :: rest) = dropInvalid behind := by
  obtain ⟨group, behind, rfl, h⟩ := exists_closes 1 Nat.one_pos rest
  refine ⟨group, behind, rfl, h, ?_⟩
  rw [skipGroups, hk]
  exact h.skipped

/-! ## Invalid tokens -/

/-- Moving on drops the invalid tokens in front, all of them and no others. -/
theorem State.settle_unread (s : State) (tokens : List Token) :
    (s.settle tokens).unread = dropInvalid tokens := by
  induction tokens generalizing s with
  | nil => rfl
  | cons t rest ih =>
      rw [settle, dropInvalid_cons]
      split
      · exact ih _
      · rfl

end FrontEnd.Grammar
