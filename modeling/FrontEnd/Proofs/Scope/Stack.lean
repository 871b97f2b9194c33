import FrontEnd.Proofs.Scope.Frames
import Mathlib.Data.Finmap
import Mathlib.Data.List.Forall2

set_option autoImplicit false

/-! # Scopes as a stack of maps

The plain picture of nested scopes is a stack of finite maps from names to symbols (`ScopeStack`).
Opening a scope puts an empty map on the stack and closing it takes the map away, a name is declared
in the innermost map, and it stands for the symbol that the innermost map with this name has.

A `ScopeTable` keeps the scopes that were closed, and the open ones lie scattered among them. Still
no run of operations can tell it from the stack (`ScopeTable.trace_eq_stack`). A scope once closed
is never visible again, and the walk from a scope along the parents ends at the root.

The proof is a simulation. A table and a stack are related if the visible scopes of the table are
the layers of the stack (`Shows`); every operation answers the same on both and keeps them related
(`Shows.perform`), so a run does, by induction on its operations. Between the two stand the frames
of a table, lists of symbols which the finite maps of the layers agree with (`Layer.Holds`). That
closed scopes stay closed is an invariant of the table alone, and is kept in the same way
(`Rooted.perform`).
-/

namespace FrontEnd

/-! ## The stack

What scopes should do is said with maps: a scope is a map, and a name is looked up in one after the
other. Nothing is kept of a scope that is closed. -/

/-- An open scope: its kind, and the symbols that its names stand for. A name has one symbol in it,
as the keys of a map are different from each other. -/
structure Layer where
  kind : ScopeKind
  symbols : Finmap fun _ : String => Symbol

namespace Layer

/-- A scope without names. -/
def new (kind : ScopeKind) : Layer := ⟨kind, ∅⟩

/-- The layer in which a symbol has its name. -/
def insert (l : Layer) (symbol : Symbol) : Layer :=
  { l with symbols := l.symbols.insert symbol.name symbol }

/-- The layer with the symbol of a name marked as assigned. -/
def assign (l : Layer) (name : String) : Layer :=
  match l.symbols.lookup name with
  | some symbol =>
    { l with symbols := l.symbols.insert name { symbol with assigned := true } }
  | none => l

/-- The first layer that has a name, with its symbol marked as assigned. -/
def assignFirst (name : String) : List Layer → List Layer
  | [] => []
  | l :: outer => if name ∈ l.symbols then l.assign name :: outer else l :: assignFirst name outer

end Layer

/-- The open scopes, the innermost one first. There is always one. -/
structure ScopeStack where
  inner : Layer
  outer : List Layer

namespace ScopeStack

/-- All layers, the innermost one first. -/
def layers (m : ScopeStack) : List Layer := m.inner :: m.outer

/-- The stack of a new file. -/
def root : ScopeStack := ⟨.new .file, []⟩

/-- An empty map more. -/
def push (m : ScopeStack) (kind : ScopeKind) : ScopeStack := ⟨.new kind, m.layers⟩

/-- The stack without its innermost map, unless that is the only one. -/
def pop (m : ScopeStack) : ScopeStack :=
  match m.outer with
  | [] => m
  | l :: outer => ⟨l, outer⟩

/-- A symbol more in the innermost map, unless that has the name. -/
def declare (m : ScopeStack) (symbol : Symbol) : Bool × ScopeStack :=
  if symbol.name ∈ m.inner.symbols then (false, m)
  else (true, { m with inner := m.inner.insert symbol })

/-- The symbol that the innermost map with this name has. -/
def lookup? (m : ScopeStack) (name : String) : Option Symbol :=
  m.layers.findSome? (·.symbols.lookup name)

/-- The stack with that symbol marked as assigned. -/
def assign (m : ScopeStack) (name : String) : ScopeStack :=
  if name ∈ m.inner.symbols then { m with inner := m.inner.assign name }
  else { m with outer := Layer.assignFirst name m.outer }

theorem layers_assign (m : ScopeStack) (name : String) :
    (m.assign name).layers = Layer.assignFirst name m.layers := by
  rw [assign, layers, layers, Layer.assignFirst]
  split <;> rfl

end ScopeStack

/-! ## Runs of operations

The same operations are performed on a table and on a stack. What is compared is what they answer,
and of what kind the current scope is behind each of them. -/

/-- An operation on scopes. The operations are those that the parsers perform, in whatever order. -/
inductive ScopeOperation where
  | push (kind : ScopeKind)
  | pop
  | declare (symbol : Symbol)
  | lookup (name : String)
  | assign (name : String)
  | isVisible (name : String)
  | isLocal (name : String)

/-- What an operation answers. Opening and closing have nothing to say; what they do is seen by the
operations behind them. -/
inductive ScopeAnswer where
  | done
  | flag (value : Bool)
  | symbol (found : Option Symbol)
deriving DecidableEq

/-- The answers to a run of operations, each with the kind of the scope that is current behind it. -/
def scopeTrace {σ : Type} (perform : σ → ScopeOperation → ScopeAnswer × σ) (kind : σ → ScopeKind) :
    σ → List ScopeOperation → List (ScopeAnswer × ScopeKind)
  | _, [] => []
  | s, operation :: rest =>
    ((perform s operation).1, kind (perform s operation).2) ::
      scopeTrace perform kind (perform s operation).2 rest

namespace ScopeTable

/-- The symbol that is marked when a name is assigned: that of the first visible scope with the name,
as it was before. -/
def assigned? (t : ScopeTable) (name : String) : Option Symbol :=
  (t.chain.find? fun i => (t.findIn? name i).isSome).bind (t.findIn? name)

/-- What an operation answers on a table, and the table behind it. -/
def perform (t : ScopeTable) : ScopeOperation → ScopeAnswer × ScopeTable
  | .push kind => (.done, t.push kind)
  | .pop => (.done, t.pop)
  | .declare symbol => (.flag (t.declare symbol).1, (t.declare symbol).2)
  | .lookup name => (.symbol (t.lookup? name), t)
  | .assign name => (.symbol (t.assigned? name), t.markAssigned name)
  | .isVisible name => (.flag (t.isVisible name), t)
  | .isLocal name => (.flag (t.isLocal name), t)

/-- The table behind a run of operations. -/
def performAll (t : ScopeTable) (operations : List ScopeOperation) : ScopeTable :=
  operations.foldl (fun t operation => (t.perform operation).2) t

end ScopeTable

namespace ScopeStack

/-- What an operation answers on a stack, and the stack behind it. -/
def perform (m : ScopeStack) : ScopeOperation → ScopeAnswer × ScopeStack
  | .push kind => (.done, m.push kind)
  | .pop => (.done, m.pop)
  | .declare symbol => (.flag (m.declare symbol).1, (m.declare symbol).2)
  | .lookup name => (.symbol (m.lookup? name), m)
  | .assign name => (.symbol (m.lookup? name), m.assign name)
  | .isVisible name => (.flag (m.lookup? name).isSome, m)
  | .isLocal name => (.flag (name ∈ m.inner.symbols), m)

end ScopeStack

/-! ## Frames and layers

A table lists its symbols, and a list may have a name twice. The lists of the visible scopes
(`Frames`) stand between the table and the maps. -/

/-- The layer has exactly the symbols of the frame. A frame may list a name more than once, and then
it is the first symbol that counts. -/
def Layer.Holds (l : Layer) (frame : List Symbol) : Prop :=
  ∀ name, frame.find? (·.name == name) = l.symbols.lookup name

namespace Layer.Holds

variable {l : Layer} {frame : List Symbol}

theorem declares_iff (h : l.Holds frame) (name : String) :
    Frames.declares frame name = true ↔ name ∈ l.symbols := by
  rw [Frames.declares, ← List.isSome_find?, h name, Finmap.lookup_isSome]

theorem new (kind : ScopeKind) : (Layer.new kind).Holds [] := fun name => by
  rw [Layer.new, Finmap.lookup_empty]
  rfl

theorem insert (h : l.Holds frame) (symbol : Symbol) :
    (l.insert symbol).Holds (symbol :: frame) := by
  intro name
  rw [Layer.insert, List.find?_cons]
  by_cases hname : symbol.name = name
  · subst hname
    rw [Finmap.lookup_insert, beq_self_eq_true]
  · rw [Finmap.lookup_insert_of_ne _ (Ne.symm hname), ← h name, beq_false_of_ne hname]

/-- A symbol has the name under which it is found. -/
theorem name_eq (h : l.Holds frame) {name : String} {symbol : Symbol}
    (hsymbol : l.symbols.lookup name = some symbol) : symbol.name = name :=
  beq_iff_eq.mp (List.find?_some (p := fun x : Symbol => x.name == name) ((h name).trans hsymbol))

theorem assign (h : l.Holds frame) (name : String) :
    (l.assign name).Holds
      (frame.map fun x => if x.name = name then { x with assigned := true } else x) := by
  intro name'
  -- marking a symbol keeps its name, so a name is found where it was
  have hnames : ((fun x : Symbol => x.name == name') ∘
      fun x => if x.name = name then { x with assigned := true } else x) = (·.name == name') := by
    funext x
    dsimp only [Function.comp]
    split <;> rfl
  rw [List.find?_map, hnames, h name', Layer.assign]
  cases hsymbol' : l.symbols.lookup name' with
  | none =>
      cases hsymbol : l.symbols.lookup name with
      | none => exact hsymbol'.symm
      | some symbol =>
          have hne : name' ≠ name := by
            rintro rfl
            rw [hsymbol] at hsymbol'
            cases hsymbol'
          exact ((Finmap.lookup_insert_of_ne _ hne).trans hsymbol').symm
  | some symbol' =>
      rw [Option.map_some, h.name_eq hsymbol']
      by_cases hname : name' = name
      · subst hname
        rw [if_pos rfl, hsymbol', ← h.name_eq hsymbol']
        exact (Finmap.lookup_insert l.symbols).symm
      · rw [if_neg hname]
        cases l.symbols.lookup name with
        | none => exact hsymbol'.symm
        | some symbol => exact ((Finmap.lookup_insert_of_ne _ hname).trans hsymbol').symm

end Layer.Holds

/-- The layers have the symbols of the frames, one by one. -/
def HoldAll (frames : Frames) (layers : List Layer) : Prop :=
  List.Forall₂ (fun frame l => Layer.Holds l frame) frames layers

namespace HoldAll

variable {frames : Frames} {layers : List Layer}

theorem lookup?_eq (h : HoldAll frames layers) (name : String) :
    frames.lookup? name = layers.findSome? (·.symbols.lookup name) := by
  induction h with
  | nil => rfl
  | cons hl _ ih =>
      rw [Frames.lookup?, List.findSome?_cons, List.findSome?_cons, hl name]
      rw [Frames.lookup?] at ih
      rw [ih]

theorem add {l : Layer} (h : HoldAll frames (l :: layers)) (symbol : Symbol) :
    HoldAll (frames.add symbol) (l.insert symbol :: layers) := by
  cases h with
  | cons hl hrest => exact .cons (hl.insert symbol) hrest

theorem assign (h : HoldAll frames layers) (name : String) :
    HoldAll (frames.assign name) (Layer.assignFirst name layers) := by
  induction h with
  | nil => exact .nil
  | @cons frame l _ _ hl hrest ih =>
      rw [Frames.assign, Layer.assignFirst]
      by_cases hd : Frames.declares frame name = true
      · rw [if_pos hd, if_pos ((hl.declares_iff name).mp hd)]
        exact .cons (hl.assign name) hrest
      · rw [if_neg hd, if_neg (mt (hl.declares_iff name).mpr hd)]
        exact .cons hl ih

end HoldAll

/-! ## Tables and stacks

The relation `Shows` is kept by every operation, and from it follow the answers. By induction on the
operations the traces are the same. -/

namespace ScopeTable

variable {t : ScopeTable} {m : ScopeStack}

/-- The kind of the scope with an index. -/
def kindAt (t : ScopeTable) (i : Nat) : ScopeKind := (t.scopes[i]?.map Scope.kind).getD .file

/-- The kinds of the visible scopes, the innermost scope first. -/
def kinds (t : ScopeTable) : List ScopeKind := t.chain.map t.kindAt

theorem currentKind_eq (t : ScopeTable) : t.currentKind = t.kindAt t.current := by
  unfold currentKind kindAt
  cases t.scopes[t.current]? <;> rfl

theorem Valid.kinds_push (h : t.Valid) (kind : ScopeKind) :
    (t.push kind).kinds = kind :: t.kinds := by
  rw [kinds, h.chain_push, List.map_cons]
  congr 1
  · simp [kindAt, getElem?_push_size]
  · refine List.map_congr_left fun j hj => ?_
    simp [kindAt, getElem?_push_of_lt (h.lt_of_mem_chain hj)]

theorem Valid.kinds_modify (h : t.Valid) (i : Nat) {f : Scope → Scope}
    (hparent : ∀ s, (f s).parent = s.parent) (hkind : ∀ s, (f s).kind = s.kind) :
    ({ t with scopes := t.scopes.modify i f } : ScopeTable).kinds = t.kinds := by
  rw [kinds, (h.modify i hparent).2]
  refine List.map_congr_left fun j _ => ?_
  unfold kindAt
  rw [getElem?_modify]
  split
  · cases t.scopes[j]? with
    | none => rfl
    | some s => simp [hkind]
  · rfl

theorem Valid.kinds_declare (h : t.Valid) (symbol : Symbol) :
    (t.declare symbol).2.kinds = t.kinds := by
  rw [ScopeTable.declare]
  split
  · rfl
  · exact h.kinds_modify t.current (f := (·.add symbol)) (fun _ => rfl) fun _ => rfl

theorem Valid.kinds_markAssigned (h : t.Valid) (name : String) :
    (t.markAssigned name).kinds = t.kinds := by
  rw [ScopeTable.markAssigned]
  split
  · next i _ => exact h.kinds_modify i (f := (·.markAssigned name)) (fun _ => rfl) fun _ => rfl
  · rfl

/-- The visible scopes of a table are the layers of a stack. This is the relation of the simulation;
it says nothing of the scopes that were closed. -/
structure Shows (t : ScopeTable) (m : ScopeStack) : Prop where
  valid : t.Valid
  frames : HoldAll t.frames m.layers
  kinds : t.kinds = m.layers.map Layer.kind

namespace Shows

theorem empty : ScopeTable.empty.Shows .root where
  valid := valid_empty
  frames := .cons (.new .file) .nil
  kinds := rfl

theorem currentKind_eq (h : t.Shows m) : t.currentKind = m.inner.kind := by
  have hkinds := h.kinds
  rw [ScopeTable.kinds, h.valid.chain_eq] at hkinds
  rw [ScopeTable.currentKind_eq]
  exact (List.cons.inj hkinds).1

theorem lookup?_eq (h : t.Shows m) (name : String) : t.lookup? name = m.lookup? name := by
  rw [ScopeTable.lookup?_eq, h.frames.lookup?_eq, ScopeStack.lookup?]

theorem isLocal_eq (h : t.Shows m) (name : String) :
    t.isLocal name = decide (name ∈ m.inner.symbols) := by
  obtain ⟨outer, hframes⟩ := h.valid.frames_eq
  have hholds := h.frames
  rw [hframes] at hholds
  have hinner : m.inner.Holds (t.symbolsAt t.current) := (List.forall₂_cons.mp hholds).1
  rw [h.valid.isLocal_eq, hframes, Frames.isLocal, Bool.eq_iff_iff, hinner.declares_iff,
    decide_eq_true_iff]

theorem push (h : t.Shows m) (kind : ScopeKind) : (t.push kind).Shows (m.push kind) where
  valid := h.valid.push kind
  frames := by
    rw [h.valid.frames_push]
    exact .cons (.new kind) h.frames
  kinds := by
    rw [h.valid.kinds_push, h.kinds]
    rfl

theorem pop (h : t.Shows m) : t.pop.Shows m.pop := by
  have hframes := h.frames
  have hkinds := h.kinds
  rw [ScopeTable.frames] at hframes
  rw [ScopeTable.kinds] at hkinds
  cases hp : t.scopes[t.current]?.bind Scope.parent with
  | none =>
      obtain ⟨hpop, hchain⟩ := h.valid.pop_root hp
      have houter : m.outer = [] := by
        rw [hchain, ScopeStack.layers, List.map_singleton, List.map_cons] at hkinds
        exact List.map_eq_nil_iff.mp (List.cons.inj hkinds).2.symm
      have hstack : m.pop = m := by rw [ScopeStack.pop, houter]
      rw [hpop, hstack]
      exact h
  | some parent =>
      obtain ⟨hpop, hchain⟩ := h.valid.pop_inner hp
      have hsame : t.pop.symbolsAt = t.symbolsAt ∧ t.pop.kindAt = t.kindAt := by
        rw [hpop]
        exact ⟨rfl, rfl⟩
      rw [hchain] at hframes hkinds
      have hrest : HoldAll (t.pop.chain.map t.symbolsAt) m.outer := (List.forall₂_cons.mp hframes).2
      have hrestKinds : t.pop.chain.map t.kindAt = m.outer.map Layer.kind :=
        (List.cons.inj hkinds).2
      have hlayers : m.pop.layers = m.outer := by
        cases houter : m.outer with
        | nil =>
            -- the parent is visible, so there is a layer for it
            rw [houter, h.valid.pop.chain_eq] at hrestKinds
            cases hrestKinds
        | cons l outer => rw [ScopeStack.pop, houter]; rfl
      exact ⟨h.valid.pop, by rwa [ScopeTable.frames, hsame.1, hlayers],
        by rwa [ScopeTable.kinds, hsame.2, hlayers]⟩

theorem declare (h : t.Shows m) (symbol : Symbol) :
    (t.declare symbol).1 = (m.declare symbol).1 ∧
      (t.declare symbol).2.Shows (m.declare symbol).2 := by
  obtain ⟨hanswer, hframes⟩ := h.valid.declare_eq symbol
  have hkinds := h.valid.kinds_declare symbol
  rw [← h.valid.isLocal_eq, h.isLocal_eq] at hanswer hframes
  rw [ScopeStack.declare]
  by_cases hlocal : symbol.name ∈ m.inner.symbols
  · rw [if_pos (decide_eq_true hlocal)] at hframes
    rw [hanswer, decide_eq_true hlocal, if_pos hlocal]
    exact ⟨rfl, h.valid.declare symbol, hframes ▸ h.frames, hkinds.trans h.kinds⟩
  · rw [if_neg (by simpa using hlocal)] at hframes
    rw [hanswer, decide_eq_false hlocal, if_neg hlocal]
    exact ⟨rfl, h.valid.declare symbol, hframes ▸ h.frames.add symbol, hkinds.trans h.kinds⟩

theorem assigned?_eq (h : t.Shows m) (name : String) : t.assigned? name = m.lookup? name := by
  rw [← h.lookup?_eq, assigned?, ScopeTable.lookup?]
  induction t.chain with
  | nil => rfl
  | cons i chain ih =>
      rw [List.find?_cons, List.findSome?_cons]
      cases hi : t.findIn? name i with
      | none => exact ih
      | some symbol => exact hi

theorem assign (h : t.Shows m) (name : String) : (t.markAssigned name).Shows (m.assign name) := by
  obtain ⟨hvalid, hframes⟩ := h.valid.markAssigned name
  refine ⟨hvalid, ?_, ?_⟩
  · rw [hframes, m.layers_assign]
    exact h.frames.assign name
  · have hkinds : ∀ layers : List Layer,
        (Layer.assignFirst name layers).map Layer.kind = layers.map Layer.kind := by
      intro layers
      induction layers with
      | nil => rfl
      | cons l layers ih =>
          rw [Layer.assignFirst]
          split
          · rw [List.map_cons, List.map_cons, Layer.assign]
            split <;> rfl
          · rw [List.map_cons, List.map_cons, ih]
    rw [h.valid.kinds_markAssigned, h.kinds, m.layers_assign, hkinds]

/-- An operation answers the same on a table and on a stack that it shows, and leaves such a table and
such a stack. -/
theorem perform (h : t.Shows m) (operation : ScopeOperation) :
    (t.perform operation).1 = (m.perform operation).1 ∧
      (t.perform operation).2.Shows (m.perform operation).2 := by
  cases operation with
  | push kind => exact ⟨rfl, h.push kind⟩
  | pop => exact ⟨rfl, h.pop⟩
  | declare symbol =>
      obtain ⟨hanswer, hshows⟩ := h.declare symbol
      exact ⟨congrArg ScopeAnswer.flag hanswer, hshows⟩
  | lookup name => exact ⟨congrArg ScopeAnswer.symbol (h.lookup?_eq name), h⟩
  | assign name => exact ⟨congrArg ScopeAnswer.symbol (h.assigned?_eq name), h.assign name⟩
  | isVisible name =>
      refine ⟨congrArg ScopeAnswer.flag ?_, h⟩
      rw [ScopeTable.isVisible, h.lookup?_eq]
  | isLocal name => exact ⟨congrArg ScopeAnswer.flag (h.isLocal_eq name), h⟩

/-- So do all operations of a run. -/
theorem trace_eq (h : t.Shows m) (operations : List ScopeOperation) :
    scopeTrace ScopeTable.perform ScopeTable.currentKind t operations =
      scopeTrace ScopeStack.perform (·.inner.kind) m operations := by
  induction operations generalizing t m with
  | nil => rfl
  | cons operation rest ih =>
      obtain ⟨hanswer, hshows⟩ := h.perform operation
      rw [scopeTrace, scopeTrace, hanswer, hshows.currentKind_eq, ih hshows]

end Shows

/-! ## Closed scopes

The walk is given as a relation, without fuel, to say that it ends at the root. That it is what the
table computes follows from the order of the scopes. -/

/-- The walk from a scope along the parents, up to the root. -/
inductive Walk (t : ScopeTable) : Nat → List Nat → Prop where
  | root {s : Scope} (hs : t.scopes[0]? = some s) (hp : s.parent = none) : Walk t 0 [0]
  | step {i parent : Nat} {s : Scope} {walk : List Nat} (hs : t.scopes[i]? = some s)
      (hp : s.parent = some parent) (hwalk : Walk t parent walk) : Walk t i (i :: walk)

/-- A table in which every scope but the first one stands behind its parent. All tables that the
operations lead to are such tables. -/
structure Rooted (t : ScopeTable) : Prop extends t.Valid where
  root : ∀ {i : Nat} {s : Scope}, t.scopes[i]? = some s → s.parent = none → i = 0

theorem rooted_empty : empty.Rooted where
  toValid := valid_empty
  root {i s} hs _ := by
    cases i with
    | zero => rfl
    | succ i => cases hs

/-- From every scope the walk along the parents ends at the root. -/
theorem Rooted.walk (h : t.Rooted) {n i : Nat} (hi : i < t.scopes.size) (hn : i < n) :
    t.Walk i (t.chainFrom n i) := by
  induction n generalizing i with
  | zero => exact absurd hn (Nat.not_lt_zero i)
  | succ n ih =>
      have hs := Array.getElem?_eq_getElem hi
      rw [chainFrom, hs]
      dsimp only
      cases hp : t.scopes[i].parent with
      | none =>
          obtain rfl := h.root hs hp
          exact .root hs hp
      | some parent =>
          have hlt := h.parent_lt hs hp
          exact .step hs hp (ih (by omega) (by omega))

theorem Rooted.push (h : t.Rooted) (kind : ScopeKind) : (t.push kind).Rooted where
  toValid := h.toValid.push kind
  root {i s} hs hp := by
    by_cases hi : i = t.scopes.size
    · subst hi
      rw [getElem?_push_size] at hs
      cases hs
      cases hp
    · refine h.root (s := s) ?_ hp
      have hold : (t.push kind).scopes[i]? = t.scopes[i]? := by
        simp only [ScopeTable.push, Array.getElem?_push]
        rw [if_neg hi]
      rw [← hold, hs]

theorem Rooted.modify (h : t.Rooted) (i : Nat) {f : Scope → Scope}
    (hf : ∀ s, (f s).parent = s.parent) :
    ({ t with scopes := t.scopes.modify i f } : ScopeTable).Rooted where
  toValid := (h.toValid.modify i hf).1
  root {j s} hs hp := by
    have hs' : (t.scopes.modify i f)[j]? = some s := hs
    rw [getElem?_modify] at hs'
    split at hs'
    · obtain ⟨before, hbefore, rfl⟩ := Option.map_eq_some_iff.mp hs'
      exact h.root hbefore ((hf before).symm.trans hp)
    · exact h.root hs' hp

/-- A closed scope is in the table but not visible. A scope becomes one by `pop`, and nothing makes it
visible again, as a new scope has a new index. -/
def Closed (t : ScopeTable) (i : Nat) : Prop := i < t.scopes.size ∧ i ∉ t.chain

theorem Rooted.closed_modify (h : t.Rooted) {i j : Nat} {f : Scope → Scope}
    (hf : ∀ s, (f s).parent = s.parent) (hi : t.Closed i) :
    ({ t with scopes := t.scopes.modify j f } : ScopeTable).Closed i :=
  ⟨by simpa using hi.1, (h.toValid.modify j hf).2 ▸ hi.2⟩

theorem Rooted.declare (h : t.Rooted) (symbol : Symbol) :
    (t.declare symbol).2.Rooted ∧ ∀ i, t.Closed i → (t.declare symbol).2.Closed i := by
  rw [ScopeTable.declare]
  split
  · exact ⟨h, fun _ hi => hi⟩
  · exact ⟨h.modify t.current (f := (·.add symbol)) fun _ => rfl,
      fun _ => h.closed_modify (f := (·.add symbol)) fun _ => rfl⟩

theorem Rooted.assign (h : t.Rooted) (name : String) :
    (t.markAssigned name).Rooted ∧ ∀ i, t.Closed i → (t.markAssigned name).Closed i := by
  rw [ScopeTable.markAssigned]
  split
  · next j _ =>
    exact ⟨h.modify j (f := (·.markAssigned name)) fun _ => rfl,
      fun _ => h.closed_modify (f := (·.markAssigned name)) fun _ => rfl⟩
  · exact ⟨h, fun _ hi => hi⟩

/-- Closing a scope that is not the root makes it a closed one. -/
theorem Rooted.pop (h : t.Rooted) :
    t.pop.Rooted ∧ (∀ i, t.Closed i → t.pop.Closed i) ∧
      (t.current ≠ 0 → t.pop.Closed t.current) := by
  cases hp : t.scopes[t.current]?.bind Scope.parent with
  | none =>
      obtain ⟨hpop, -⟩ := h.toValid.pop_root hp
      have hs := Array.getElem?_eq_getElem h.current_lt
      rw [hs, Option.bind_some] at hp
      rw [hpop]
      exact ⟨h, fun _ hi => hi, fun hroot => absurd (h.root hs hp) hroot⟩
  | some parent =>
      obtain ⟨hpop, hchain⟩ := h.toValid.pop_inner hp
      have hsize : t.pop.scopes = t.scopes := by rw [hpop]
      have hnodup := h.toValid.chain_nodup
      rw [hchain, List.nodup_cons] at hnodup
      refine ⟨⟨h.toValid.pop, fun hs => h.root (hsize ▸ hs)⟩, fun i hi => ⟨hsize ▸ hi.1, ?_⟩,
        fun _ => ⟨hsize ▸ h.current_lt, hnodup.1⟩⟩
      exact fun hmem => hi.2 (hchain ▸ List.mem_cons_of_mem _ hmem)

/-- Every operation keeps the order of the scopes, and closed scopes closed. -/
theorem Rooted.perform (h : t.Rooted) (operation : ScopeOperation) :
    (t.perform operation).2.Rooted ∧ ∀ i, t.Closed i → (t.perform operation).2.Closed i := by
  cases operation with
  | push kind =>
      refine ⟨h.push kind, fun i hi => ⟨?_, ?_⟩⟩
      · exact Nat.lt_of_lt_of_le hi.1 (by simp [ScopeTable.perform, ScopeTable.push])
      · rw [ScopeTable.perform, h.toValid.chain_push, List.mem_cons, not_or]
        exact ⟨Nat.ne_of_lt hi.1, hi.2⟩
  | pop => exact ⟨h.pop.1, h.pop.2.1⟩
  | declare symbol => exact h.declare symbol
  | assign name => exact h.assign name
  | lookup | isVisible | isLocal => exact ⟨h, fun _ hi => hi⟩

theorem Rooted.performAll (h : t.Rooted) (operations : List ScopeOperation) :
    (t.performAll operations).Rooted ∧
      ∀ i, t.Closed i → (t.performAll operations).Closed i := by
  induction operations generalizing t with
  | nil => exact ⟨h, fun _ hi => hi⟩
  | cons operation rest ih =>
      obtain ⟨hrooted, hclosed⟩ := h.perform operation
      obtain ⟨hall, hrest⟩ := ih hrooted
      exact ⟨hall, fun i hi => hrest i (hclosed i hi)⟩

/-- From a new file on, no run of operations tells the table of scopes from a stack of maps: every
answer is the same, and so is the kind of the current scope behind every operation. In the table
that the run leaves, every scope stands behind its parent and the current one is there, so the walk
from each scope along the parents ends at the root, and the visible scopes are the walk from the
current one. A scope that is closed, now or before, is never visible again, whatever follows. -/
theorem trace_eq_stack (operations : List ScopeOperation) :
    scopeTrace ScopeTable.perform ScopeTable.currentKind .empty operations =
        scopeTrace ScopeStack.perform (·.inner.kind) .root operations ∧
      let t := empty.performAll operations
      t.Rooted ∧
        (∀ i < t.scopes.size, ∃ walk, t.Walk i walk) ∧
        t.Walk t.current t.chain ∧
        (t.current ≠ 0 → ∀ more, t.current ∉ (t.pop.performAll more).chain) ∧
        ∀ i, t.Closed i → ∀ more, i ∉ (t.performAll more).chain := by
  refine ⟨Shows.empty.trace_eq operations, ?_⟩
  intro t
  have hrooted : t.Rooted := (rooted_empty.performAll operations).1
  refine ⟨hrooted, fun i hi => ⟨_, hrooted.walk hi (Nat.lt_succ_self i)⟩,
    hrooted.walk hrooted.current_lt (Nat.lt_succ_self _), fun hcurrent more => ?_,
    fun i hi more => ((hrooted.performAll more).2 i hi).2⟩
  obtain ⟨hpop, -, hclosed⟩ := hrooted.pop
  exact ((hpop.performAll more).2 _ (hclosed hcurrent)).2

/-- A name is declared in a function that is closed, and assigned in a block behind it. -/
def reopened : List ScopeOperation :=
  [.push .function, .declare ⟨"x", .value, .mutable, false, ⟨"scopes.tp", ⟨1, 1⟩⟩⟩, .pop, .push .block,
    .assign "x", .isVisible "x"]

/-- The block does not see the name, and neither scope is visible once it is closed. -/
theorem trace_eq_stack_reopened :
    scopeTrace ScopeTable.perform ScopeTable.currentKind .empty reopened =
        scopeTrace ScopeStack.perform (·.inner.kind) .root reopened ∧
      (scopeTrace ScopeTable.perform ScopeTable.currentKind .empty reopened).getLast? =
        some (.flag false, .block) ∧
      ∀ more, 1 ∉ ((empty.performAll reopened).performAll more).chain ∧
        2 ∉ ((empty.performAll reopened).pop.performAll more).chain := by
  obtain ⟨htrace, -, -, -, hpop, hclosed⟩ := trace_eq_stack reopened
  have hcurrent : (empty.performAll reopened).current = 2 := by decide
  have hone : (empty.performAll reopened).Closed 1 := ⟨by decide, by decide⟩
  refine ⟨htrace, by decide, fun more => ⟨hclosed 1 hone more, ?_⟩⟩
  have htwo := hpop (by rw [hcurrent]; decide) more
  rwa [hcurrent] at htwo

end ScopeTable

end FrontEnd
