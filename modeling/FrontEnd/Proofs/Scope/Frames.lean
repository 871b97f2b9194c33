import FrontEnd.Scope.Table

set_option autoImplicit false

/-! # The visible scopes as a stack

Of all the scopes in a `ScopeTable` only those on the chain from the current one to the root can
be seen. `ScopeTable.frames` is that view: the symbols of the visible scopes, the innermost first.
Every operation on a table is one on the stack of frames, and this is all that later proofs need
to know about tables.

The view is right for tables in which every scope stands behind its parent (`ScopeTable.Valid`).
Every operation keeps a table valid.

The chain is found by a walk along the parents, with the index of the current scope for fuel. In a
valid table the indices on the walk get smaller, so the fuel is enough (`Valid.chainFrom_fuel`), no
scope comes up twice, and a change of one scope is a change of one frame.
-/

namespace FrontEnd

/-- The symbols of the visible scopes, the innermost scope first. -/
abbrev Frames := List (List Symbol)

namespace Frames

/-- A scope has a symbol of that name. -/
def declares (frame : List Symbol) (name : String) : Bool := frame.any (·.name == name)

/-- The symbol that a name stands for: that of the innermost scope that declares it. A name may be
declared again in a scope within, where it then hides the outer one. -/
def lookup? (frames : Frames) (name : String) : Option Symbol :=
  frames.findSome? (·.find? (·.name == name))

/-- The name is declared in the innermost scope. -/
def isLocal : Frames → String → Bool
  | [], _ => false
  | frame :: _, name => declares frame name

/-- One more symbol in the innermost scope. -/
def add (symbol : Symbol) : Frames → Frames
  | [] => []
  | frame :: outer => (symbol :: frame) :: outer

/-- The symbol that a name stands for, marked as assigned. -/
def assign (name : String) : Frames → Frames
  | [] => []
  | frame :: outer =>
    if declares frame name then
      frame.map (fun x => if x.name = name then { x with assigned := true } else x) :: outer
    else frame :: assign name outer

/-- The stack without its innermost scope. The outermost one stays. -/
def leave : Frames → Frames
  | _ :: frame :: outer => frame :: outer
  | frames => frames

end Frames

namespace ScopeTable

/-- Every scope stands behind its parent, and the current one is there. So the way along the parents
comes to an end, and the chain of visible scopes with it. -/
structure Valid (t : ScopeTable) : Prop where
  current_lt : t.current < t.scopes.size
  parent_lt : ∀ {i : Nat} {s : Scope} {parent : Nat},
    t.scopes[i]? = some s → s.parent = some parent → parent < i

/-- The symbols of the scope with an index. -/
def symbolsAt (t : ScopeTable) (i : Nat) : List Symbol := (t.scopes[i]?.map Scope.symbols).getD []

/-- The symbols of the visible scopes, the innermost scope first. -/
def frames (t : ScopeTable) : Frames := t.chain.map t.symbolsAt

variable {t t' : ScopeTable}

/-! ## Chains

The chain of visible scopes goes from the current one along the parents. As parents come first it
has no scope twice, and has an end. -/

/-- A chain needs no more fuel than its first index. With enough of it the amount makes no difference,
so that chains of different tables can be compared. -/
theorem Valid.chainFrom_fuel (h : t.Valid) {m n i : Nat} (hm : i < m) (hn : i < n) :
    t.chainFrom m i = t.chainFrom n i := by
  induction m generalizing n i with
  | zero => omega
  | succ m ih =>
      cases n with
      | zero => omega
      | succ n =>
          rw [chainFrom, chainFrom]
          cases hs : t.scopes[i]? with
          | none => rfl
          | some s =>
              cases hp : s.parent with
              | none => simp only [hp]
              | some parent =>
                  -- the parent is older, so less fuel will do for it
                  have hlt := h.parent_lt hs hp
                  have hrest : t.chainFrom m parent = t.chainFrom n parent :=
                    ih (by omega) (by omega)
                  simp only [hp, hrest]

/-- A chain depends on the parents of the scopes up to its first index alone. So neither what is
declared nor a scope that is opened later changes it. -/
theorem Valid.chainFrom_congr (h : t.Valid) {n i : Nat}
    (hp : ∀ j ≤ i, t'.scopes[j]?.map Scope.parent = t.scopes[j]?.map Scope.parent) :
    t'.chainFrom n i = t.chainFrom n i := by
  induction n generalizing i with
  | zero => rfl
  | succ n ih =>
      have hi := hp i (Nat.le_refl i)
      rw [chainFrom, chainFrom]
      cases hs : t.scopes[i]? with
      | none =>
          rw [hs] at hi
          cases hs' : t'.scopes[i]? with
          | none => rfl
          | some s' => rw [hs'] at hi; cases hi
      | some s =>
          rw [hs] at hi
          cases hs' : t'.scopes[i]? with
          | none => rw [hs'] at hi; cases hi
          | some s' =>
              rw [hs'] at hi
              simp only [Option.map_some, Option.some.injEq] at hi
              simp only [hi]
              cases hpar : s.parent with
              | none => rfl
              | some parent =>
                  -- the chain goes on at the parent, which stands further in front
                  have hlt := h.parent_lt hs hpar
                  simp only
                  rw [ih fun j hj => hp j (by omega)]

/-- The chain of a scope is the scope and the chain of its parent. -/
theorem Valid.chain_eq (h : t.Valid) :
    t.chain = t.current :: match t.scopes[t.current]?.bind Scope.parent with
      | none => []
      | some parent => t.chainFrom (parent + 1) parent := by
  rw [chain, chainFrom]
  obtain ⟨s, hs⟩ : ∃ s, t.scopes[t.current]? = some s :=
    ⟨_, Array.getElem?_eq_getElem h.current_lt⟩
  rw [hs, Option.bind_some]
  cases hp : s.parent with
  | none => simp only [hp]
  | some parent =>
      have hlt := h.parent_lt hs hp
      simp only [hp]
      rw [h.chainFrom_fuel (show parent < t.current from hlt) (Nat.lt_succ_self parent)]

/-- The scopes of a chain get older and older. -/
theorem Valid.chainFrom_sorted (h : t.Valid) (n i : Nat) :
    (t.chainFrom n i).Pairwise (· > ·) ∧ ∀ j ∈ t.chainFrom n i, j ≤ i := by
  induction n generalizing i with
  | zero => exact ⟨List.Pairwise.nil, by simp [chainFrom]⟩
  | succ n ih =>
      rw [chainFrom]
      cases hs : t.scopes[i]? with
      | none => exact ⟨List.Pairwise.nil, by simp⟩
      | some s =>
          cases hp : s.parent with
          | none => simp [hp]
          | some parent =>
              have hlt := h.parent_lt hs hp
              obtain ⟨hsorted, hle⟩ := ih parent
              simp only [hp]
              refine ⟨List.pairwise_cons.mpr ⟨fun j hj => ?_, hsorted⟩, fun j hj => ?_⟩
              · have := hle j hj
                omega
              · rcases List.mem_cons.mp hj with rfl | hj
                · exact Nat.le_refl _
                · have := hle j hj
                  omega

theorem Valid.chain_nodup (h : t.Valid) : t.chain.Nodup :=
  (h.chainFrom_sorted _ _).1.imp fun hgt => Nat.ne_of_gt hgt

/-! ## Looking up -/

theorem findIn?_eq (t : ScopeTable) (name : String) (i : Nat) :
    t.findIn? name i = (t.symbolsAt i).find? (·.name == name) := by
  unfold findIn? symbolsAt
  cases t.scopes[i]? <;> rfl

theorem lookup?_eq (t : ScopeTable) (name : String) : t.lookup? name = t.frames.lookup? name := by
  unfold lookup? frames Frames.lookup?
  rw [List.findSome?_map]
  congr 1
  funext i
  exact t.findIn?_eq name i

theorem isSome_findIn? (t : ScopeTable) (name : String) (i : Nat) :
    (t.findIn? name i).isSome = Frames.declares (t.symbolsAt i) name := by
  rw [findIn?_eq, List.isSome_find?, Frames.declares]

/-- The innermost frame is that of the current scope. -/
theorem Valid.frames_eq (h : t.Valid) : ∃ outer, t.frames = t.symbolsAt t.current :: outer := by
  rw [frames, h.chain_eq]
  exact ⟨_, rfl⟩

theorem Valid.isLocal_eq (h : t.Valid) (name : String) :
    t.isLocal name = t.frames.isLocal name := by
  obtain ⟨outer, hf⟩ := h.frames_eq
  rw [hf, isLocal, isSome_findIn?, Frames.isLocal]

/-! ## Opening and closing scopes

Opening a scope appends it to the table, closing it goes back to its parent. The chains of all other
scopes stay as they are. -/

theorem valid_empty : empty.Valid where
  current_lt := by decide
  parent_lt {i s parent} hs hp := by
    cases i with
    | zero => cases hs; cases hp
    | succ i => cases hs

theorem frames_empty : empty.frames = [[]] := rfl

theorem Valid.push (h : t.Valid) (kind : ScopeKind) : (t.push kind).Valid where
  current_lt := by simp [ScopeTable.push]
  parent_lt {i s parent} hs hp := by
    simp only [ScopeTable.push, Array.getElem?_push] at hs
    split at hs
    · next hi =>
      cases hs
      cases hp
      exact hi ▸ h.current_lt
    · exact h.parent_lt hs hp

/-- Scopes that were there before a new one are left as they are. -/
theorem getElem?_push_of_lt {i : Nat} (hi : i < t.scopes.size) (kind : ScopeKind) :
    (t.push kind).scopes[i]? = t.scopes[i]? := by
  simp only [ScopeTable.push, Array.getElem?_push]
  rw [if_neg (by omega)]

theorem getElem?_push_size (t : ScopeTable) (kind : ScopeKind) :
    (t.push kind).scopes[t.scopes.size]? = some ⟨kind, some t.current, []⟩ := by
  simp [ScopeTable.push]

/-- The scopes of the chain are there. -/
theorem Valid.lt_of_mem_chain (h : t.Valid) {i : Nat} (hi : i ∈ t.chain) : i < t.scopes.size :=
  Nat.lt_of_le_of_lt ((h.chainFrom_sorted _ _).2 i hi) h.current_lt

/-- A new scope stands in front of those that were visible. -/
theorem Valid.chain_push (h : t.Valid) (kind : ScopeKind) :
    (t.push kind).chain = t.scopes.size :: t.chain := by
  have hcurrent := h.current_lt
  -- the new scope is the last one, and the chain behind it sees older scopes only
  rw [(h.push kind).chain_eq]
  show t.scopes.size :: (match (t.push kind).scopes[t.scopes.size]?.bind Scope.parent with
    | none => []
    | some parent => (t.push kind).chainFrom (parent + 1) parent) = _
  rw [getElem?_push_size]
  exact congrArg _ (h.chainFrom_congr fun j hj => by rw [getElem?_push_of_lt (by omega)])

theorem Valid.frames_push (h : t.Valid) (kind : ScopeKind) :
    (t.push kind).frames = [] :: t.frames := by
  rw [frames, h.chain_push, List.map_cons]
  congr 1
  · simp [symbolsAt, getElem?_push_size]
  · refine List.map_congr_left fun j hj => ?_
    simp [symbolsAt, getElem?_push_of_lt (h.lt_of_mem_chain hj)]

theorem Valid.pop (h : t.Valid) : t.pop.Valid := by
  unfold ScopeTable.pop
  obtain ⟨s, hs⟩ : ∃ s, t.scopes[t.current]? = some s :=
    ⟨_, Array.getElem?_eq_getElem h.current_lt⟩
  rw [hs, Option.bind_some]
  cases hp : s.parent with
  | none => exact h
  | some parent => exact ⟨Nat.lt_trans (h.parent_lt hs hp) h.current_lt, h.parent_lt⟩

/-- The root is not closed, and nothing is visible around it. -/
theorem Valid.pop_root (h : t.Valid) (hp : t.scopes[t.current]?.bind Scope.parent = none) :
    t.pop = t ∧ t.chain = [t.current] := by
  constructor
  · simp [ScopeTable.pop, hp]
  · rw [h.chain_eq, hp]

/-- Any other scope is closed, and those around it are visible as before. -/
theorem Valid.pop_inner (h : t.Valid) {parent : Nat}
    (hp : t.scopes[t.current]?.bind Scope.parent = some parent) :
    t.pop = { t with current := parent } ∧ t.chain = t.current :: t.pop.chain := by
  have hpop : t.pop = { t with current := parent } := by simp [ScopeTable.pop, hp]
  have hchain : ({ t with current := parent } : ScopeTable).chain =
      t.chainFrom (parent + 1) parent := h.chainFrom_congr fun _ _ => rfl
  refine ⟨hpop, ?_⟩
  rw [hpop, hchain, h.chain_eq, hp]

theorem Valid.frames_pop (h : t.Valid) : t.pop.frames = t.frames.leave := by
  cases hp : t.scopes[t.current]?.bind Scope.parent with
  | none =>
      obtain ⟨hpop, hchain⟩ := h.pop_root hp
      rw [hpop, frames, hchain]
      rfl
  | some parent =>
      obtain ⟨hpop, hchain⟩ := h.pop_inner hp
      obtain ⟨outer, hf⟩ := h.pop.frames_eq
      have hsymbols : t.symbolsAt = t.pop.symbolsAt := by rw [hpop]; rfl
      have hframes : t.frames = t.symbolsAt t.current :: t.pop.frames := by
        rw [frames, hchain, List.map_cons, frames, hsymbols]
      rw [hframes, hf]
      rfl

/-! ## Declaring and assigning

Both change the symbols of one scope. Since no scope is twice in a chain, only one of the frames
changes. -/

/-- The table with the symbols of one scope changed. -/
theorem getElem?_modify (t : ScopeTable) (i j : Nat) (f : Scope → Scope) :
    (t.scopes.modify i f)[j]? = if i = j then t.scopes[j]?.map f else t.scopes[j]? :=
  Array.getElem?_modify

/-- Changes of symbols keep a table valid and its chain as it is. -/
theorem Valid.modify (h : t.Valid) (i : Nat) {f : Scope → Scope}
    (hf : ∀ s, (f s).parent = s.parent) :
    ({ t with scopes := t.scopes.modify i f } : ScopeTable).Valid ∧
      ({ t with scopes := t.scopes.modify i f } : ScopeTable).chain = t.chain := by
  have hparent (j : Nat) :
      (t.scopes.modify i f)[j]?.map Scope.parent = t.scopes[j]?.map Scope.parent := by
    rw [getElem?_modify]
    split
    · cases t.scopes[j]? with
      | none => rfl
      | some s => simp [hf]
    · rfl
  refine ⟨⟨by simpa using h.current_lt, ?_⟩, ?_⟩
  · intro j s parent hs hp
    have hj := hparent j
    rw [show (t.scopes.modify i f)[j]? = some s from hs] at hj
    cases hs' : t.scopes[j]? with
    | none => rw [hs'] at hj; cases hj
    | some s' =>
        rw [hs', Option.map_some, Option.map_some, Option.some.injEq] at hj
        exact h.parent_lt hs' (hj.symm.trans hp)
  · exact h.chainFrom_congr fun j _ => hparent j

theorem symbolsAt_modify {t : ScopeTable} {i j : Nat} {f : Scope → Scope}
    (hi : i < t.scopes.size) :
    ({ t with scopes := t.scopes.modify i f } : ScopeTable).symbolsAt j =
      if i = j then (f t.scopes[i]).symbols else t.symbolsAt j := by
  unfold symbolsAt
  rw [getElem?_modify]
  split
  · next hij => subst hij; simp [hi]
  · rfl

theorem Valid.declare (h : t.Valid) (symbol : Symbol) : (t.declare symbol).2.Valid := by
  unfold ScopeTable.declare
  split
  · exact h
  · exact (h.modify t.current (f := (·.add symbol)) fun _ => rfl).1

theorem Valid.declare_eq (h : t.Valid) (symbol : Symbol) :
    (t.declare symbol).1 = !t.frames.isLocal symbol.name ∧
      (t.declare symbol).2.frames =
        if t.frames.isLocal symbol.name then t.frames else t.frames.add symbol := by
  unfold ScopeTable.declare
  rw [h.isLocal_eq]
  split
  · next hl => simp [hl]
  · next hl =>
    simp only [hl]
    refine ⟨rfl, ?_⟩
    obtain ⟨outer, hf⟩ := h.frames_eq
    have hchain := (h.modify t.current (f := (·.add symbol)) fun _ => rfl).2
    have hnodup := h.chain_nodup
    rw [frames, hchain, hf]
    rw [frames, h.chain_eq, List.map_cons, List.cons.injEq] at hf
    rw [h.chain_eq] at hnodup ⊢
    rw [List.map_cons]
    simp only [Frames.add]
    congr 1
    · rw [symbolsAt_modify h.current_lt, if_pos rfl]
      simp [symbolsAt, h.current_lt, Scope.add]
    · rw [← hf.2]
      -- the current scope is not met again further out
      refine List.map_congr_left fun j hj => ?_
      rw [symbolsAt_modify h.current_lt, if_neg]
      rintro rfl
      exact (List.nodup_cons.mp hnodup).1 hj

/-- Marking the first frame that declares a name is marking the first index whose frame does. The
indices are all different, so no other frame is marked with it. -/
theorem assign_map (name : String) (symbols : Nat → List Symbol) {chain : List Nat}
    (hnodup : chain.Nodup) :
    Frames.assign name (chain.map symbols) =
      match chain.find? (fun i => Frames.declares (symbols i) name) with
      | some i => chain.map fun j =>
          if i = j then
            (symbols j).map fun x => if x.name = name then { x with assigned := true } else x
          else symbols j
      | none => chain.map symbols := by
  induction chain with
  | nil => rfl
  | cons k chain ih =>
      obtain ⟨hk, hrest⟩ := List.nodup_cons.mp hnodup
      rw [List.map_cons, Frames.assign, List.find?_cons]
      by_cases hd : Frames.declares (symbols k) name = true
      · simp only [hd, if_true, List.map_cons]
        congr 1
        -- no other index is the first one
        refine List.map_congr_left fun j hj => ?_
        rw [if_neg]
        rintro rfl
        exact hk hj
      · simp only [hd]
        rw [ih hrest]
        cases hfind : chain.find? (fun i => Frames.declares (symbols i) name) with
        | none => rfl
        | some i =>
            have hik : i ≠ k := by
              rintro rfl
              exact hd (List.find?_some (p := fun i => Frames.declares (symbols i) name) hfind)
            simp [hik]

theorem Valid.markAssigned (h : t.Valid) (name : String) :
    (t.markAssigned name).Valid ∧ (t.markAssigned name).frames = t.frames.assign name := by
  -- the scope whose symbol is marked is the first one that declares the name
  have hfind : t.chain.find? (fun i => (t.findIn? name i).isSome) =
      t.chain.find? (fun i => Frames.declares (t.symbolsAt i) name) := by
    congr 1
    funext i
    exact t.isSome_findIn? name i
  have hassign := assign_map name t.symbolsAt h.chain_nodup
  unfold ScopeTable.markAssigned
  rw [hfind]
  cases hi : t.chain.find? (fun i => Frames.declares (t.symbolsAt i) name) with
  | none =>
      rw [hi] at hassign
      exact ⟨h, hassign.symm⟩
  | some i =>
      rw [hi] at hassign
      obtain ⟨hvalid, hchain⟩ := h.modify i (f := (·.markAssigned name)) fun _ => rfl
      have hlt : i < t.scopes.size := h.lt_of_mem_chain (List.mem_of_find?_eq_some hi)
      refine ⟨hvalid, ?_⟩
      rw [frames, hchain, frames, hassign]
      refine List.map_congr_left fun j _ => ?_
      rw [symbolsAt_modify hlt]
      split
      · next hij => subst hij; simp [symbolsAt, hlt, Scope.markAssigned]
      · rfl

end ScopeTable

end FrontEnd
