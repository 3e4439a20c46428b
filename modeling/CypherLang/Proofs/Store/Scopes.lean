import Mathlib
import CypherLang.Store

namespace CypherLang

namespace Scope

theorem lookup_bindIn (name n : String) (v : Value) (bindings : List (String × Value)) :
    (bindIn name v bindings).lookup n = if n = name then some v else bindings.lookup n := by
  have ne {a b : String} (h : ¬ a = b) : (a == b) = false := by simpa using h
  induction bindings with
  | nil =>
    by_cases h : n = name
    · simp [bindIn, h]
    · simp [bindIn, List.lookup, h, ne h]
  | cons b rest ih =>
    obtain ⟨k, w⟩ := b
    unfold bindIn
    by_cases same : name = k
    · subst same
      by_cases h : n = name
      · simp [h]
      · simp [List.lookup, h, ne h]
    · rw [if_neg (by simpa using same)]
      by_cases h : n = k
      · subst h
        simp [List.lookup, Ne.symm same]
      · simp [List.lookup, ne h, ih]

theorem get?_bind (s : Scope) (name n : String) (v : Value) :
    (s.bind name v).get? n = if n = name then some v else s.get? n :=
  lookup_bindIn name n v s.bindings

theorem binds_bind (s : Scope) (name n : String) (v : Value) :
    (s.bind name v).binds n ↔ s.binds n ∨ n = name := by
  unfold binds
  rw [get?_bind]
  by_cases h : n = name <;> simp [h]

theorem mem_bindIn {name : String} {v : Value} {b : String × Value}
    {bindings : List (String × Value)} (h : b ∈ bindIn name v bindings) :
    b ∈ bindings ∨ b.2 = v := by
  induction bindings with
  | nil =>
    rw [bindIn, List.mem_singleton] at h
    exact .inr (h ▸ rfl)
  | cons a rest ih =>
    obtain ⟨n, w⟩ := a
    unfold bindIn at h
    split at h
    · rcases List.mem_cons.1 h with rfl | h
      · exact .inr rfl
      · exact .inl (List.mem_cons_of_mem _ h)
    · rcases List.mem_cons.1 h with rfl | h
      · exact .inl List.mem_cons_self
      · exact (ih h).imp_left (List.mem_cons_of_mem _)

theorem mem_of_get? {s : Scope} {name : String} {v : Value} (h : s.get? name = some v) :
    (name, v) ∈ s.bindings := by
  obtain ⟨_, _, split, -⟩ := List.lookup_eq_some_iff.1 h
  rw [split]
  simp

theorem not_binds_empty (n : String) : ¬ empty.binds n := by
  simp [binds, get?, empty]

theorem mem_refs {s : Scope} {r : ScopeId} :
    r ∈ s.refs ↔
      s.parent = some r ∨ ∃ b ∈ s.bindings, ∃ f, b.2.closure? = some f ∧ f.scope = r := by
  simp only [refs, functions, List.mem_append, Option.mem_toList, List.mem_map, List.mem_filterMap]
  constructor
  · rintro (parent | ⟨f, ⟨b, mem, closure⟩, scope⟩)
    · exact .inl parent
    · exact .inr ⟨b, mem, f, closure, scope⟩
  · rintro (parent | ⟨b, mem, f, closure, scope⟩)
    · exact .inl parent
    · exact .inr ⟨f, ⟨b, mem, closure⟩, scope⟩

/-- What a scope refers to with a name bound anew. -/
theorem mem_refs_bind {s : Scope} {name : String} {v : Value} {r : ScopeId}
    (h : r ∈ (s.bind name v).refs) : r ∈ s.refs ∨ ∃ f, v.closure? = some f ∧ f.scope = r := by
  rcases mem_refs.1 h with parent | ⟨b, mem, f, closure, scope⟩
  · exact .inl (mem_refs.2 (.inl parent))
  · rcases mem_bindIn mem with mem | rfl
    · exact .inl (mem_refs.2 (.inr ⟨b, mem, f, closure, scope⟩))
    · exact .inr ⟨f, closure, scope⟩

theorem not_mem_refs_empty (r : ScopeId) : r ∉ empty.refs := by
  simp [refs, functions, empty]

end Scope

namespace Store

variable {st : Store} {s t parent : ScopeId} {name n : String} {v : Value}

theorem scope_of_le (h : st.scopes.size ≤ s) : st.scope s = .empty := by
  unfold scope
  simp [Array.getD_eq_getD_getElem?, h]

@[simp]
theorem size_bind : (st.bind s name v).scopes.size = st.scopes.size := by
  simp [bind]

theorem scope_bind : (st.bind s name v).scope t =
    if t = s ∧ s < st.scopes.size then (st.scope t).bind name v else st.scope t := by
  unfold scope bind
  simp only [Array.getD_eq_getD_getElem?, Array.getElem?_modify]
  by_cases same : t = s
  · subst same
    by_cases h : t < st.scopes.size
    · simp [h]
    · simp [h]
  · simp [same, Ne.symm same]

theorem scope_bind_of_ne (h : t ≠ s) : (st.bind s name v).scope t = st.scope t := by
  rw [scope_bind, if_neg (fun both => h both.1)]

@[simp]
theorem parent_bind : ((st.bind s name v).scope t).parent = (st.scope t).parent := by
  rw [scope_bind]
  split <;> rfl

theorem binds_of_owner? {o : ScopeId} (h : st.owner? s name = some o) :
    (st.scope o).binds name := by
  fun_induction owner? st s name with
  | case1 s bound =>
    cases h
    exact bound
  | case2 => cases h
  | case3 s _ parent _ younger ih => exact ih h
  | case4 => cases h

/-- A name has a value where a scope binds it. -/
theorem isSome_get? : (st.get? s name).isSome = (st.owner? s name).isSome := by
  unfold get?
  cases h : st.owner? s name with
  | none => rfl
  | some o => exact binds_of_owner? h

theorem binds_bind_of_binds {o : ScopeId} (h : (st.scope s).binds n) :
    ((st.bind o name v).scope s).binds n := by
  rw [scope_bind]
  split
  · exact (Scope.binds_bind ..).2 (.inl h)
  · exact h

theorem binds_of_binds_bind {o : ScopeId} (h : ((st.bind o name v).scope s).binds n) :
    (st.scope s).binds n ∨ s = o ∧ n = name := by
  rw [scope_bind] at h
  split at h
  · rename_i both
    exact ((Scope.binds_bind ..).1 h).imp_right fun same => ⟨both.1, same⟩
  · exact .inl h

theorem mem_bindings_bind {b : String × Value} (h : b ∈ ((st.bind s name v).scope t).bindings) :
    b ∈ (st.scope t).bindings ∨ b.2 = v := by
  rw [scope_bind] at h
  split at h
  · exact Scope.mem_bindIn h
  · exact .inl h

@[simp]
theorem size_newChild : (st.newChild parent).2.scopes.size = st.scopes.size + 1 := by
  simp [newChild]

theorem scope_newChild : (st.newChild parent).2.scope s =
    if s = st.scopes.size then ⟨some parent, []⟩ else st.scope s := by
  unfold scope newChild
  simp only [Array.getD_eq_getD_getElem?, Array.getElem?_push]
  split <;> simp

theorem scope_newChild_of_lt (h : s < st.scopes.size) :
    (st.newChild parent).2.scope s = st.scope s := by
  rw [scope_newChild, if_neg (Nat.ne_of_lt h)]

/-- Binds several names, one after the other. -/
theorem size_bindAll (bindings : List (String × Value)) :
    (bindings.foldl (fun st b => st.bind s b.1 b.2) st).scopes.size = st.scopes.size := by
  induction bindings generalizing st with
  | nil => rfl
  | cons b bindings ih => rw [List.foldl_cons, ih, size_bind]

theorem scope_bindAll_of_ne (bindings : List (String × Value)) (h : t ≠ s) :
    (bindings.foldl (fun st b => st.bind s b.1 b.2) st).scope t = st.scope t := by
  induction bindings generalizing st with
  | nil => rfl
  | cons b bindings ih => rw [List.foldl_cons, ih, scope_bind_of_ne h]

@[simp]
theorem size_reset : (st.reset s).scopes.size = st.scopes.size := by
  simp [reset]

theorem scope_reset : (st.reset s).scope t = if t = s then .empty else st.scope t := by
  unfold scope reset
  simp only [Array.getD_eq_getD_getElem?, Array.getElem?_modify]
  by_cases same : t = s
  · subst same
    by_cases h : t < st.scopes.size
    · simp [h]
    · simp [h]
  · simp [same, Ne.symm same]

@[simp]
theorem size_resetAll (group : List ScopeId) :
    (st.resetAll group).scopes.size = st.scopes.size := by
  unfold resetAll
  induction group generalizing st with
  | nil => rfl
  | cons s group ih => rw [List.foldl_cons, ih, size_reset]

theorem closures_resetAll (group : List ScopeId) :
    (st.resetAll group).closures = st.closures := by
  unfold resetAll
  induction group generalizing st with
  | nil => rfl
  | cons s group ih =>
    rw [List.foldl_cons, ih]
    rfl

theorem scope_resetAll (group : List ScopeId) :
    (st.resetAll group).scope t = if t ∈ group then .empty else st.scope t := by
  unfold resetAll
  induction group generalizing st with
  | nil => simp
  | cons s group ih =>
    rw [List.foldl_cons, ih, scope_reset]
    by_cases mem : t ∈ group
    · simp [mem]
    · by_cases same : t = s
      · simp [same]
      · simp [mem, same]

end Store

end CypherLang
