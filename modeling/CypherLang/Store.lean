import CypherLang.Value

namespace CypherLang

structure Scope where
  parent : Option ScopeId
  bindings : List (String × Value)

namespace Scope

def empty : Scope := ⟨none, []⟩

def get? (s : Scope) (name : String) : Option Value := s.bindings.lookup name

def binds (s : Scope) (name : String) : Bool := (s.get? name).isSome

/-- Replaces the value bound to a name, or adds a binding at the end. -/
def bindIn (name : String) (value : Value) : List (String × Value) → List (String × Value)
  | [] => [(name, value)]
  | (n, v) :: rest => if name == n then (n, value) :: rest else (n, v) :: bindIn name value rest

def bind (s : Scope) (name : String) (value : Value) : Scope :=
  { s with bindings := bindIn name value s.bindings }

/-- The bound names in increasing order. -/
def names (s : Scope) : List String :=
  (s.bindings.map Prod.fst).mergeSort (· ≤ ·)

def describe (s : Scope) : String :=
  "Environment \x7b names: " ++ Text.quotedList s.names ++ ", has_parent: " ++
    (if s.parent.isSome then "true" else "false") ++ " \x7d"

/-- The functions that the scope binds, once for every binding. -/
def functions (s : Scope) : List Closure := s.bindings.filterMap fun (_, v) => v.closure?

/-- The scopes that this one refers to: its parent and those of the functions it binds. -/
def refs (s : Scope) : List ScopeId := s.parent.toList ++ s.functions.map Closure.scope

end Scope

/-- All scopes made so far. A scope is younger, and so has a larger number, than its parent. -/
structure Store where
  scopes : Array Scope
  /-- How many functions have been made. -/
  closures : Nat

namespace Store

def empty : Store := ⟨#[], 0⟩

/-- The scope with the given number; there is nothing in a scope that was never made. -/
def scope (st : Store) (s : ScopeId) : Scope := st.scopes.getD s .empty

/-- A new scope inside no other. -/
def newRoot (st : Store) : ScopeId × Store :=
  (st.scopes.size, { st with scopes := st.scopes.push .empty })

/-- A new scope inside `parent`. -/
def newChild (st : Store) (parent : ScopeId) : ScopeId × Store :=
  (st.scopes.size, { st with scopes := st.scopes.push ⟨some parent, []⟩ })

/-- Binds a name in the given scope itself. -/
def bind (st : Store) (s : ScopeId) (name : String) (value : Value) : Store :=
  { st with scopes := st.scopes.modify s (·.bind name value) }

/-- The nearest scope that binds a name, from `s` outward. -/
def owner? (st : Store) (s : ScopeId) (name : String) : Option ScopeId :=
  if (st.scope s).binds name then some s
  else
    match (st.scope s).parent with
    | none => none
    | some parent => if parent < s then owner? st parent name else none
termination_by s

/-- Looks a name up, from `s` outward. -/
def get? (st : Store) (s : ScopeId) (name : String) : Option Value :=
  (st.owner? s name).bind fun o => (st.scope o).get? name

/-- Changes the value of a name in the nearest scope that binds it, if one does. -/
def set? (st : Store) (s : ScopeId) (name : String) (value : Value) : Option Store :=
  (st.owner? s name).map fun o => st.bind o name value

/-- A new function declared in the scope `s`. -/
def capture (st : Store) (name : String) (params : List String) (body : List Stmt) (s : ScopeId) :
    Closure × Store :=
  (⟨st.closures, name, params, body, s⟩, { st with closures := st.closures + 1 })

/-- Drops the bindings and the parent of a scope. -/
def reset (st : Store) (s : ScopeId) : Store :=
  { st with scopes := st.scopes.modify s fun _ => .empty }

def resetAll (st : Store) (group : List ScopeId) : Store := group.foldl reset st

end Store

end CypherLang
