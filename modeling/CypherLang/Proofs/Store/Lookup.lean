import CypherLang.Proofs.Store.Scopes

namespace CypherLang

namespace Store

variable {st : Store} {s t o p env : ScopeId} {name n m : String} {v : Value}

/-- The store after an assignment, which changes nothing if no scope binds the name. -/
def assign (st : Store) (s : ScopeId) (name : String) (v : Value) : Store :=
  (st.set? s name v).getD st

/-- A store together with the handles to its scopes that have been given out. A handle is the number
of a scope, so that a copy of it is a handle to the same scope. -/
inductive Built : Store → List ScopeId → Prop
  | start : Built .empty []
  | new {st : Store} {handles : List ScopeId} :
      Built st handles → Built st.newRoot.2 (st.newRoot.1 :: handles)
  | child {st : Store} {handles : List ScopeId} {env : ScopeId} :
      Built st handles → env ∈ handles →
        Built (st.newChild env).2 ((st.newChild env).1 :: handles)
  | clone {st : Store} {handles : List ScopeId} {env : ScopeId} :
      Built st handles → env ∈ handles → Built st (env :: handles)
  | define {st : Store} {handles : List ScopeId} {env : ScopeId} (name : String) (v : Value) :
      Built st handles → env ∈ handles → Built (st.bind env name v) handles
  | assign {st : Store} {handles : List ScopeId} {env : ScopeId} (name : String) (v : Value) :
      Built st handles → env ∈ handles → Built (st.assign env name v) handles

/-- Every scope is younger than its parent. -/
def Layered (st : Store) : Prop := ∀ s p, (st.scope s).parent = some p → p < s

theorem Layered.wellFounded (h : st.Layered) :
    WellFounded fun p s => (st.scope s).parent = some p :=
  Subrelation.wf (fun {p s} parent => h s p parent) Nat.lt_wfRel.wf

theorem scope_newRoot (s : ScopeId) : st.newRoot.2.scope s = st.scope s := by
  unfold scope newRoot
  simp only [Array.getD_eq_getD_getElem?, Array.getElem?_push]
  split
  · rename_i last
    simp [last]
  · rfl

theorem assign_cases (st : Store) (s : ScopeId) (name : String) (v : Value) :
    st.assign s name v = st ∨ ∃ o, st.assign s name v = st.bind o name v := by
  unfold assign set?
  cases st.owner? s name with
  | none => exact .inl rfl
  | some o => exact .inr ⟨o, rfl⟩

theorem Layered.bind (h : st.Layered) (s : ScopeId) (name : String) (v : Value) :
    (st.bind s name v).Layered := by
  intro t p parent
  rw [parent_bind] at parent
  exact h t p parent

theorem Layered.assign (h : st.Layered) (s : ScopeId) (name : String) (v : Value) :
    (st.assign s name v).Layered := by
  rcases st.assign_cases s name v with same | ⟨o, bound⟩
  · rwa [same]
  · rw [bound]
    exact h.bind o name v

namespace Built

variable {handles : List ScopeId}

theorem lt_size (h : st.Built handles) (mem : s ∈ handles) : s < st.scopes.size := by
  induction h with
  | start => cases mem
  | @new st _ _ ih =>
    have grown : st.newRoot.2.scopes.size = st.scopes.size + 1 := by simp [newRoot]
    rcases List.mem_cons.1 mem with rfl | old
    · exact grown ▸ Nat.lt_succ_self _
    · exact grown ▸ Nat.lt_succ_of_lt (ih old)
  | child _ _ ih =>
    rw [size_newChild]
    rcases List.mem_cons.1 mem with rfl | old
    · exact Nat.lt_succ_self _
    · exact Nat.lt_succ_of_lt (ih old)
  | clone _ here ih =>
    rcases List.mem_cons.1 mem with rfl | old
    · exact ih here
    · exact ih old
  | define _ _ _ _ ih =>
    rw [size_bind]
    exact ih mem
  | @assign st _ env name v _ _ ih =>
    rcases st.assign_cases env name v with same | ⟨o, bound⟩
    · rw [same]
      exact ih mem
    · rw [bound, size_bind]
      exact ih mem

theorem layered (h : st.Built handles) : st.Layered := by
  induction h with
  | start =>
    intro s p parent
    rw [scope_of_le (Nat.zero_le s)] at parent
    cases parent
  | new _ ih =>
    intro s p parent
    rw [scope_newRoot] at parent
    exact ih s p parent
  | child built here ih =>
    intro s p parent
    rw [scope_newChild] at parent
    split at parent
    · rename_i last
      cases parent
      exact last ▸ built.lt_size here
    · exact ih s p parent
  | clone _ _ ih => exact ih
  | define name v _ _ ih => exact ih.bind _ name v
  | assign name v _ _ ih => exact ih.assign _ name v

end Built

/-- Going outward from the scope `s` with a name, one comes to the scope `t`: none of the scopes
before it binds the name. -/
inductive Visits (st : Store) (name : String) : ScopeId → ScopeId → Prop
  | here {s : ScopeId} : Visits st name s s
  | outward {s p t : ScopeId} : ¬ (st.scope s).binds name → (st.scope s).parent = some p →
      Visits st name p t → Visits st name s t

/-- The way outward ends in a scope that binds the name or has no parent. -/
def Stops (st : Store) (name : String) (t : ScopeId) : Prop :=
  (st.scope t).binds name ∨ (st.scope t).parent = none

/-- The scope `o` is the nearest one, from `s` outward, that binds the name. -/
def Nearest (st : Store) (name : String) (s o : ScopeId) : Prop :=
  st.Visits name s o ∧ (st.scope o).binds name

theorem Visits.eq_of_stops (h : st.Visits name s t) (stops : st.Stops name t)
    (h' : st.Visits name s o) (stops' : st.Stops name o) : t = o := by
  induction h with
  | here =>
    cases h' with
    | here => rfl
    | outward free parent _ =>
      rcases stops with bound | root
      · exact absurd bound free
      · cases root.symm.trans parent
  | outward free parent _ ih =>
    cases h' with
    | here =>
      rcases stops' with bound | root
      · exact absurd bound free
      · cases root.symm.trans parent
    | outward _ parent' h' =>
      cases parent.symm.trans parent'
      exact ih stops h'

theorem Nearest.eq (h : st.Nearest name s o) (h' : st.Nearest name s t) : o = t :=
  h.1.eq_of_stops (.inl h.2) h'.1 (.inl h'.2)

/-- The way outward ends. -/
theorem Layered.exists_stop (h : st.Layered) (name : String) (s : ScopeId) :
    ∃ t, st.Visits name s t ∧ st.Stops name t := by
  induction s using Nat.strong_induction_on with
  | _ s ih =>
    by_cases bound : (st.scope s).binds name
    · exact ⟨s, .here, .inl bound⟩
    · cases parent : (st.scope s).parent with
      | none => exact ⟨s, .here, .inr parent⟩
      | some p =>
        obtain ⟨t, visits, stops⟩ := ih p (h s p parent)
        exact ⟨t, .outward bound parent visits, stops⟩

theorem owner?_of_binds (bound : (st.scope s).binds name) : st.owner? s name = some s := by
  rw [owner?, if_pos bound]

/-- A scope that does not bind a name leaves it to its parent. -/
theorem Layered.owner?_outward (h : st.Layered) (free : ¬ (st.scope s).binds name) :
    st.owner? s name = (st.scope s).parent.bind fun p => st.owner? p name := by
  rw [owner?, if_neg free]
  cases parent : (st.scope s).parent with
  | none => rfl
  | some p => exact if_pos (h s p parent)

theorem Layered.owner?_of_visits (h : st.Layered) (visits : st.Visits name s t) :
    st.owner? s name = st.owner? t name := by
  induction visits with
  | here => rfl
  | outward free parent _ ih => rw [h.owner?_outward free, parent, Option.bind_some, ih]

theorem Layered.owner?_eq_some_iff (h : st.Layered) :
    st.owner? s name = some o ↔ st.Nearest name s o := by
  constructor
  · intro owner
    obtain ⟨t, visits, stops⟩ := h.exists_stop name s
    rw [h.owner?_of_visits visits] at owner
    by_cases bound : (st.scope t).binds name
    · rw [owner?_of_binds bound] at owner
      cases owner
      exact ⟨visits, bound⟩
    · rw [h.owner?_outward bound, stops.resolve_left bound] at owner
      cases owner
  · rintro ⟨visits, bound⟩
    rw [h.owner?_of_visits visits, owner?_of_binds bound]

theorem get?_of_binds (bound : (st.scope s).binds name) :
    st.get? s name = (st.scope s).get? name := by
  rw [get?, owner?_of_binds bound, Option.bind_some]

theorem Layered.get?_of_visits (h : st.Layered) (visits : st.Visits name s t) :
    st.get? s name = st.get? t name := by
  rw [get?, h.owner?_of_visits visits, get?]

theorem Layered.get?_outward (h : st.Layered) (free : ¬ (st.scope s).binds name) :
    st.get? s name = (st.scope s).parent.bind fun p => st.get? p name := by
  rw [get?, h.owner?_outward free]
  cases (st.scope s).parent with
  | none => rfl
  | some p => rfl

theorem get?_scope_bind (hs : s < st.scopes.size) : ((st.bind s n v).scope t).get? m =
    if t = s ∧ m = n then some v else (st.scope t).get? m := by
  rw [scope_bind]
  by_cases same : t = s
  · subst same
    rw [if_pos ⟨rfl, hs⟩, Scope.get?_bind]
    simp
  · rw [if_neg (fun both => same both.1), if_neg (fun both => same both.1)]

/-- From where the way outward comes to the scope in which the name is bound, the new value is
found. -/
theorem Layered.get?_bind_of_visits (h : st.Layered) (ho : o < st.scopes.size)
    (visits : st.Visits n s o) : (st.bind o n v).get? s n = some v := by
  have here : ((st.bind o n v).scope o).get? n = some v := by
    rw [get?_scope_bind ho, if_pos ⟨rfl, rfl⟩]
  have found : (st.bind o n v).get? o n = some v := by
    rw [get?_of_binds (by rw [Scope.binds, here]; rfl), here]
  induction visits with
  | here => exact found
  | @outward s p o free parent visits ih =>
    by_cases same : s = o
    · rw [same]
      exact found
    · have free' : ¬ ((st.bind o n v).scope s).binds n := by
        rwa [scope_bind_of_ne same]
      rw [(h.bind o n v).get?_outward free', parent_bind, parent, Option.bind_some]
      exact ih ho here found

/-- From elsewhere, and with other names, nothing has changed. -/
theorem Layered.get?_bind_of_not (h : st.Layered) (ho : o < st.scopes.size)
    (away : ¬ (m = n ∧ st.Visits n s o)) : (st.bind o n v).get? s m = st.get? s m := by
  induction s using Nat.strong_induction_on with
  | _ s ih =>
    have same : ((st.bind o n v).scope s).get? m = (st.scope s).get? m := by
      rw [get?_scope_bind ho, if_neg]
      rintro ⟨rfl, rfl⟩
      exact away ⟨rfl, .here⟩
    by_cases bound : (st.scope s).binds m
    · rw [get?_of_binds bound, ← same, get?_of_binds (by rwa [Scope.binds, same])]
    · have free : ¬ ((st.bind o n v).scope s).binds m := by rwa [Scope.binds, same]
      rw [(h.bind o n v).get?_outward free, parent_bind, h.get?_outward bound]
      cases parent : (st.scope s).parent with
      | none => rfl
      | some p =>
        apply ih p (h s p parent)
        rintro ⟨rfl, visits⟩
        exact away ⟨rfl, .outward bound parent visits⟩

/-- With the name `n`, the value `v` is found from the scopes in `seen`; all other look-ups are as
they were in the store `st`. -/
def Shows (st st' : Store) (n : String) (v : Value) (seen : ScopeId → Prop) : Prop :=
  ∀ s m, (m = n ∧ seen s → st'.get? s m = some v) ∧
    (¬ (m = n ∧ seen s) → st'.get? s m = st.get? s m)

theorem Layered.shows_bind (h : st.Layered) (ho : o < st.scopes.size) (n : String) (v : Value) :
    st.Shows (st.bind o n v) n v (st.Visits n · o) := by
  intro s m
  constructor
  · rintro ⟨rfl, visits⟩
    exact h.get?_bind_of_visits ho visits
  · exact h.get?_bind_of_not ho

theorem lt_size_of_binds (bound : (st.scope s).binds name) : s < st.scopes.size := by
  refine Nat.lt_of_not_le fun beyond => ?_
  rw [scope_of_le beyond] at bound
  exact Scope.not_binds_empty name bound

/-- An assignment replaces the value of a name where it is bound, and nothing else. -/
theorem get?_scope_rebind (bound : (st.scope o).binds n) (v : Value) :
    ((st.bind o n v).scope o).get? n = some v ∧
      ∀ s m, ¬ (s = o ∧ m = n) → ((st.bind o n v).scope s).get? m = (st.scope s).get? m := by
  have ho := lt_size_of_binds bound
  constructor
  · rw [get?_scope_bind ho, if_pos ⟨rfl, rfl⟩]
  · intro s m other
    rw [get?_scope_bind ho, if_neg other]

theorem binds_rebind (bound : (st.scope o).binds n) (v : Value) (s : ScopeId) (m : String) :
    ((st.bind o n v).scope s).binds m = (st.scope s).binds m := by
  obtain ⟨here, elsewhere⟩ := get?_scope_rebind bound v
  unfold Scope.binds
  by_cases slot : s = o ∧ m = n
  · obtain ⟨rfl, rfl⟩ := slot
    rw [here]
    exact (bound : ((st.scope s).get? m).isSome = true).symm
  · rw [elsewhere s m slot]

/-- Parent chains end, and so does every look-up: at the nearest scope that binds the name, or at
one without a parent. An assignment is possible where a look-up finds a value. It replaces the value
of the one binding that the look-up comes to, and the new value is found from exactly those scopes
from which that binding is the nearest one. If it is not possible, nothing changes. A declaration is
found from exactly those scopes from which one comes to its scope before any other that binds the
name. -/
theorem Built.assignment_exact {handles : List ScopeId} (built : st.Built handles) :
    WellFounded (fun p s => (st.scope s).parent = some p) ∧
    (∀ name s, ∃ t, (st.Visits name s t ∧ st.Stops name t) ∧
      (∀ t', st.Visits name s t' → st.Stops name t' → t' = t) ∧
        st.get? s name = (st.scope t).get? name) ∧
    (∀ env ∈ handles, ∀ n v,
      (st.set? env n v).isSome = (st.get? env n).isSome ∧
      (∀ st', st.set? env n v = some st' → ∃ o, st.Nearest n env o ∧
        st'.scopes.size = st.scopes.size ∧ st'.closures = st.closures ∧
        (∀ s, (st'.scope s).parent = (st.scope s).parent) ∧
        (st'.scope o).get? n = some v ∧
        (∀ s m, ¬ (s = o ∧ m = n) → (st'.scope s).get? m = (st.scope s).get? m) ∧
        (∀ s m, (st'.scope s).binds m = (st.scope s).binds m) ∧
        st.Shows st' n v (st.Nearest n · o)) ∧
      (st.set? env n v = none → st.assign env n v = st)) ∧
    ∀ env ∈ handles, ∀ n v, st.Shows (st.bind env n v) n v (st.Visits n · env) := by
  have layered := built.layered
  refine ⟨layered.wellFounded, ?_, ?_, ?_⟩
  · intro name s
    obtain ⟨t, visits, stops⟩ := layered.exists_stop name s
    refine ⟨t, ⟨visits, stops⟩, fun _ visits' stops' => visits'.eq_of_stops stops' visits stops, ?_⟩
    rw [layered.get?_of_visits visits]
    by_cases bound : (st.scope t).binds name
    · exact get?_of_binds bound
    · rw [layered.get?_outward bound, stops.resolve_left bound]
      exact (Option.not_isSome_iff_eq_none.1 bound).symm
  · intro env _ n v
    refine ⟨by rw [set?, Option.isSome_map, isSome_get?], ?_, ?_⟩
    · intro st' changed
      obtain ⟨o, owner, rfl⟩ := Option.map_eq_some_iff.1 changed
      have nearest := layered.owner?_eq_some_iff.1 owner
      have bound := nearest.2
      obtain ⟨here, elsewhere⟩ := get?_scope_rebind bound v
      refine ⟨o, nearest, size_bind, rfl, fun _ => parent_bind, here, elsewhere,
        binds_rebind bound v, ?_⟩
      intro s m
      obtain ⟨found, kept⟩ := layered.shows_bind (lt_size_of_binds bound) n v s m
      refine ⟨fun ⟨name, near⟩ => found ⟨name, near.1⟩, fun other => kept ?_⟩
      exact fun ⟨name, visits⟩ => other ⟨name, visits, bound⟩
    · intro impossible
      rw [Store.assign, impossible, Option.getD_none]
  · intro env here n v
    exact layered.shows_bind (built.lt_size here) n v

/-- A name is bound in the outermost scope and again in one inside it. An assignment from further
inside, through either of two handles to the same scope, changes the inner binding only. -/
theorem Built.assignment_exact_shadowed :
    let outer := Store.empty.newRoot.2.bind 0 "x" (.int 1)
    let inner := (outer.newChild 0).2.bind 1 "x" (.int 2)
    let st := ((inner.newChild 1).2.newChild 0).2
    st.Built [2, 3, 2, 1, 0] ∧ (st.set? 2 "x" (.int 5)).isSome ∧ st.Nearest "x" 2 1 ∧
      (st.assign 2 "x" (.int 5)).get? 2 "x" = some (.int 5) ∧
      (st.assign 2 "x" (.int 5)).get? 3 "x" = some (.int 1) := by
  intro outer inner st
  have root : outer.Built [0] := .define "x" (.int 1) (.new .start) (by decide)
  have child : inner.Built [1, 0] := .define "x" (.int 2) (.child root (by decide)) (by decide)
  have built : st.Built [2, 3, 2, 1, 0] :=
    .clone (.child (.child child (by decide)) (by decide)) (by decide)
  have near : st.Nearest "x" 2 1 := ⟨.outward (by cbv; decide) (by rfl) .here, by cbv⟩
  have sibling : st.Nearest "x" 3 0 := ⟨.outward (by cbv; decide) (by rfl) .here, by cbv⟩
  have found : (st.get? 2 "x").isSome := by cbv
  obtain ⟨-, -, assignment, -⟩ := built.assignment_exact
  obtain ⟨possible, change, -⟩ := assignment 2 (by decide) "x" (.int 5)
  obtain ⟨st', changed⟩ := Option.isSome_iff_exists.1 (possible.trans found)
  have after : st.assign 2 "x" (.int 5) = st' := by
    rw [Store.assign, changed, Option.getD_some]
  obtain ⟨o, nearest, -, -, -, -, -, -, shows⟩ := change st' changed
  obtain rfl : o = 1 := nearest.eq near
  rw [after]
  refine ⟨built, possible.trans found, near, (shows 2 "x").1 ⟨rfl, near⟩, ?_⟩
  have unseen : ¬ ("x" = "x" ∧ st.Nearest "x" 3 1) := by
    rintro ⟨-, shadowed⟩
    cases shadowed.eq sibling
  rw [(shows 3 "x").2 unseen]
  cbv

end Store

end CypherLang
