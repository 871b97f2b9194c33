import FrontEnd.Tree.Basic

set_option autoImplicit false

/-! # Nested scopes

A `ScopeTable` holds every scope that was ever opened, in the order of opening, and knows the
current one. Each scope but the first has a parent, which was opened before it. The scopes from
the current one out to the root, along the parents, are the visible ones (`ScopeTable.chain`).
Names are looked up in all of them, the innermost first, but are declared in the current one
alone. Closing a scope makes its parent the current one; the root is never closed.
-/

namespace FrontEnd

/-- What a name stands for. -/
inductive SymbolKind where
  | value
  | type
  | function
  | enum
  | struct
deriving DecidableEq, Repr

/-- A declared name. -/
structure Symbol where
  name : String
  kind : SymbolKind
  mutability : Mutability
  /-- The binding has received a value. -/
  assigned : Bool
  loc : Location
deriving DecidableEq, Repr

/-- What a scope belongs to. -/
inductive ScopeKind where
  | file
  | namespaceScope
  | function
  | block
deriving DecidableEq, Repr

/-- A scope: the names declared in it, and the index of the scope around it. -/
structure Scope where
  kind : ScopeKind
  parent : Option Nat
  symbols : List Symbol
deriving DecidableEq, Repr

namespace Scope

/-- The symbol that a name has in the scope itself. -/
def find? (s : Scope) (name : String) : Option Symbol := s.symbols.find? (·.name == name)

/-- The scope with one more symbol. -/
def add (s : Scope) (symbol : Symbol) : Scope := { s with symbols := symbol :: s.symbols }

/-- The scope with the symbol of that name marked as assigned. -/
def markAssigned (s : Scope) (name : String) : Scope :=
  { s with
    symbols := s.symbols.map fun x => if x.name = name then { x with assigned := true } else x }

end Scope

/-- All scopes in the order of opening, and the index of the current one. -/
structure ScopeTable where
  scopes : Array Scope
  current : Nat
deriving Repr

namespace ScopeTable

/-- The table of a new file: the root scope alone. -/
def empty : ScopeTable := ⟨#[⟨.file, none, []⟩], 0⟩

/-- The kind of the current scope. -/
def currentKind (t : ScopeTable) : ScopeKind :=
  match t.scopes[t.current]? with
  | some s => s.kind
  | none => .file

/-- Opens a scope within the current one. -/
def push (t : ScopeTable) (kind : ScopeKind) : ScopeTable :=
  ⟨t.scopes.push ⟨kind, some t.current, []⟩, t.scopes.size⟩

/-- Closes the current scope, unless it is the root. -/
def pop (t : ScopeTable) : ScopeTable :=
  match t.scopes[t.current]?.bind Scope.parent with
  | some parent => { t with current := parent }
  | none => t

/-- The indices of the scopes from index `i` out to the root, at most `fuel` of them. -/
def chainFrom (t : ScopeTable) : Nat → Nat → List Nat
  | 0, _ => []
  | fuel + 1, i =>
    match t.scopes[i]? with
    | none => []
    | some s =>
      match s.parent with
      | none => [i]
      | some parent => i :: t.chainFrom fuel parent

/-- The indices of the visible scopes, the current one first. A parent stands before its children,
so there are no more of them than scopes up to the current one. -/
def chain (t : ScopeTable) : List Nat := t.chainFrom (t.current + 1) t.current

/-- The symbol that a name has in the scope with an index. -/
def findIn? (t : ScopeTable) (name : String) (i : Nat) : Option Symbol :=
  t.scopes[i]?.bind (·.find? name)

/-- The symbol that a name stands for: that of the innermost visible scope that declares it. -/
def lookup? (t : ScopeTable) (name : String) : Option Symbol :=
  t.chain.findSome? (t.findIn? name)

/-- The name is visible. -/
def isVisible (t : ScopeTable) (name : String) : Bool := (t.lookup? name).isSome

/-- The name is declared in the current scope itself. -/
def isLocal (t : ScopeTable) (name : String) : Bool := (t.findIn? name t.current).isSome

/-- Declares a symbol in the current scope, unless the scope already has its name. -/
def declare (t : ScopeTable) (symbol : Symbol) : Bool × ScopeTable :=
  if t.isLocal symbol.name then (false, t)
  else (true, { t with scopes := t.scopes.modify t.current (·.add symbol) })

/-- Marks the symbol that a name stands for as assigned. -/
def markAssigned (t : ScopeTable) (name : String) : ScopeTable :=
  match t.chain.find? (fun i => (t.findIn? name i).isSome) with
  | some i => { t with scopes := t.scopes.modify i (·.markAssigned name) }
  | none => t

end ScopeTable

end FrontEnd
