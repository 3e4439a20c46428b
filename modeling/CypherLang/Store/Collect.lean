import CypherLang.Store

namespace CypherLang

/-- References to scopes and to functions, with an entry for each of them. -/
structure References where
  scopes : List ScopeId := []
  functions : List Closure := []

namespace References

instance : Append References where
  append a b := ⟨a.scopes ++ b.scopes, a.functions ++ b.functions⟩

/-- How many references there are to the function with the given number. -/
def toFunction (r : References) (id : Nat) : Nat := r.functions.countP (·.id == id)

/-- How many references there are to a scope. A function refers to its scope once, however many
references there are to it. -/
def toScope (r : References) (s : ScopeId) : Nat :=
  r.scopes.count s + ((r.functions.filter (·.scope == s)).map Closure.id).eraseDups.length

/-- Leaves out the functions to which `all` has further references. -/
def exclusive (r all : References) : References :=
  { r with functions := r.functions.filter fun f => r.toFunction f.id == all.toFunction f.id }

end References

namespace Store

/-- The references that the scopes `owners` hold: their parent links and the functions they bind. -/
def references (st : Store) (owners : List ScopeId) : References where
  scopes := owners.filterMap fun o => (st.scope o).parent
  functions := owners.flatMap fun o => (st.scope o).functions

/-- The members of `remaining` that can be reached from `pending` inside `remaining`. -/
def reachable (st : Store) (remaining pending : List ScopeId) : List ScopeId :=
  match _ : pending.find? remaining.contains with
  | none => []
  | some s => s :: reachable st (remaining.erase s) ((st.scope s).refs ++ pending)
termination_by remaining.length
decreasing_by
  rename_i found
  have member := List.contains_iff_mem.1 (List.find?_some found)
  have := List.length_erase_of_mem member
  have := List.length_pos_of_mem member
  omega

/-- The members of `group` to which there are more references, of `all` that there are, than the
group accounts for itself. -/
def heldFromOutside (st : Store) (all : References) (group : List ScopeId) : List ScopeId :=
  let own := (st.references group).exclusive all
  group.filter fun s => 0 < all.toScope s - own.toScope s

/-- Clears the members of `group` to which nothing outside leads, and gives the others in their
order. All references that there are have an entry in `all`. -/
def collect (st : Store) (all : References) (group : List ScopeId) : List ScopeId × Store :=
  let live := st.reachable group (st.heldFromOutside all group)
  (group.filter live.contains, st.resetAll (group.filter fun s => !live.contains s))

end Store

end CypherLang
