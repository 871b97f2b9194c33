import FrontEnd.Scope.Table

set_option autoImplicit false

/-! # Opening and closing scopes

The `outline` of a table says what scopes there are: the kind of each, and the scope around it. Names
are declared and assigned within it, and only a new scope adds to it. If every scope that is opened is
closed again, then the current scope is the same as before, and what was there of the outline is
unchanged (`ScopeTable.Encloses`).

Nothing is ever removed from an outline, as closed scopes stay in the table. So it also tells how many
scopes of a kind were opened in a run, which is used for the scope of the namespace.
-/

namespace FrontEnd.ScopeTable

variable {t t' t'' : ScopeTable}

/-- The kinds of all scopes in the order of opening, and the scopes around them. -/
def outline (t : ScopeTable) : List (ScopeKind × Option Nat) :=
  t.scopes.toList.map fun s => (s.kind, s.parent)

/-- The names in all scopes in the order of opening. -/
def names (t : ScopeTable) : List (List String) :=
  t.scopes.toList.map fun s => s.symbols.map (·.name)

/-- How many scopes of namespaces there are. -/
def namespaces (t : ScopeTable) : Nat := t.outline.countP (·.1 == .namespaceScope)

theorem length_outline (t : ScopeTable) : t.outline.length = t.scopes.size := by
  rw [outline, List.length_map, Array.length_toList]

/-- The scope around the current one. -/
theorem parent_eq_outline (t : ScopeTable) :
    t.scopes[t.current]?.bind Scope.parent = t.outline[t.current]?.bind Prod.snd := by
  rw [outline, List.getElem?_map, Array.getElem?_toList]
  cases t.scopes[t.current]? <;> rfl

/-! ## Operations on tables -/

theorem outline_push (t : ScopeTable) (kind : ScopeKind) :
    (t.push kind).outline = t.outline ++ [(kind, some t.current)] := by
  rw [outline, push, Array.toList_push, List.map_append]
  rfl

theorem namespaces_push (t : ScopeTable) (kind : ScopeKind) :
    (t.push kind).namespaces = t.namespaces + if kind = .namespaceScope then 1 else 0 := by
  rw [namespaces, outline_push, List.countP_append, List.countP_singleton, ← namespaces]
  simp only [beq_iff_eq]

/-- What is the same for each scope is the same for all. -/
theorem map_modify {β : Type} (t : ScopeTable) (i : Nat) {f : Scope → Scope} {g : Scope → β}
    (h : ∀ s, g (f s) = g s) :
    (t.scopes.modify i f).toList.map g = t.scopes.toList.map g := by
  refine List.ext_getElem? fun j => ?_
  rw [List.getElem?_map, List.getElem?_map, Array.getElem?_toList, Array.getElem?_toList,
    Array.getElem?_modify]
  split
  · cases t.scopes[j]? with
    | none => rfl
    | some s => exact congrArg some (h s)
  · rfl

theorem current_declare (t : ScopeTable) (symbol : Symbol) :
    (t.declare symbol).2.current = t.current := by
  rw [declare]
  split <;> rfl

theorem outline_declare (t : ScopeTable) (symbol : Symbol) :
    (t.declare symbol).2.outline = t.outline := by
  rw [declare]
  split
  · rfl
  · exact t.map_modify t.current fun _ => rfl

theorem current_markAssigned (t : ScopeTable) (name : String) :
    (t.markAssigned name).current = t.current := by
  rw [markAssigned]
  split <;> rfl

theorem outline_markAssigned (t : ScopeTable) (name : String) :
    (t.markAssigned name).outline = t.outline := by
  rw [markAssigned]
  split
  · exact t.map_modify _ fun _ => rfl
  · rfl

/-- Nothing is declared when a name is assigned. -/
theorem names_markAssigned (t : ScopeTable) (name : String) :
    (t.markAssigned name).names = t.names := by
  rw [markAssigned]
  split
  · refine t.map_modify _ fun s => ?_
    rw [Scope.markAssigned, List.map_map]
    refine List.map_congr_left fun x _ => ?_
    dsimp only [Function.comp]
    split <;> rfl
  · rfl

/-! ## Scopes within the current one -/

/-- The current scope is the same in both tables. Those that the second one has more are not those of
namespaces. -/
structure Encloses (t t' : ScopeTable) : Prop where
  current : t'.current = t.current
  outline : ∃ opened, t'.outline = t.outline ++ opened ∧ ∀ e ∈ opened, e.1 ≠ .namespaceScope

namespace Encloses

theorem of_outline (hcurrent : t'.current = t.current) (houtline : t'.outline = t.outline) :
    t.Encloses t' where
  current := hcurrent
  outline := ⟨[], by rw [houtline, List.append_nil], fun _ he => absurd he List.not_mem_nil⟩

theorem refl (t : ScopeTable) : t.Encloses t := of_outline rfl rfl

theorem trans (h : t.Encloses t') (h' : t'.Encloses t'') : t.Encloses t'' where
  current := h'.current.trans h.current
  outline := by
    obtain ⟨opened, houtline, hopened⟩ := h.outline
    obtain ⟨opened', houtline', hopened'⟩ := h'.outline
    refine ⟨opened ++ opened', by rw [houtline', houtline, List.append_assoc], fun e he => ?_⟩
    exact (List.mem_append.mp he).elim (hopened e) (hopened' e)

theorem namespaces_eq (h : t.Encloses t') : t'.namespaces = t.namespaces := by
  obtain ⟨opened, houtline, hopened⟩ := h.outline
  rw [namespaces, houtline, List.countP_append, ← namespaces, List.countP_eq_zero.mpr, Nat.add_zero]
  exact fun e he => by simpa using hopened e he

theorem declare (t : ScopeTable) (symbol : Symbol) : t.Encloses (t.declare symbol).2 :=
  of_outline (t.current_declare symbol) (t.outline_declare symbol)

/-- A scope that was opened is closed. Its parent is the scope that was current before, and opening
and closing others within it has not changed that. -/
theorem pop {kind : ScopeKind} (hkind : kind ≠ .namespaceScope) (h : (t.push kind).Encloses t') :
    t.Encloses t'.pop := by
  obtain ⟨opened, houtline, hopened⟩ := h.outline
  rw [outline_push, List.append_assoc, List.singleton_append] at houtline
  have hcurrent : t'.current = t.outline.length := h.current.trans t.length_outline.symm
  -- the scope that is closed stands behind those of `t`, and within its current one
  have hparent : t'.scopes[t'.current]?.bind Scope.parent = some t.current := by
    rw [parent_eq_outline, houtline, hcurrent, List.getElem?_append_right (Nat.le_refl _),
      Nat.sub_self]
    rfl
  have hpop : t'.pop = { t' with current := t.current } := by rw [ScopeTable.pop, hparent]
  rw [hpop]
  refine ⟨rfl, (kind, some t.current) :: opened, houtline, fun e he => ?_⟩
  rcases List.mem_cons.mp he with rfl | he
  · exact hkind
  · exact hopened e he

end Encloses

end FrontEnd.ScopeTable
