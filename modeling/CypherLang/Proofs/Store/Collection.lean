import CypherLang.Proofs.Store.Release

namespace CypherLang

namespace References

/-- The scopes that are referred to, also by way of a function. -/
def targets (r : References) : List ScopeId := r.scopes ++ r.functions.map Closure.scope

/-- A function is known by its number: it has only one scope. -/
def Identified (r : References) : Prop :=
  ∀ f ∈ r.functions, ∀ g ∈ r.functions, f.id = g.id → f.scope = g.scope

theorem toScope_pos {r : References} {s : ScopeId} : 0 < r.toScope s ↔ s ∈ r.targets := by
  have function : 0 < (r.holders s).eraseDups.length ↔ s ∈ r.functions.map Closure.scope := by
    rw [List.length_pos_iff_exists_mem]
    constructor
    · rintro ⟨id, mem⟩
      obtain ⟨f, hf, scope, -⟩ := mem_holders.1 (List.mem_eraseDups.1 mem)
      exact List.mem_map.2 ⟨f, hf, scope⟩
    · intro mem
      obtain ⟨f, hf, scope⟩ := List.mem_map.1 mem
      exact ⟨f.id, List.mem_eraseDups.2 (mem_holders.2 ⟨f, hf, scope, rfl⟩)⟩
  rw [toScope_eq, Nat.add_pos_iff_pos_or_pos, List.count_pos_iff, function, targets,
    List.mem_append]

section Exclusive

variable {all own outside : References} {id : Nat} {s : ScopeId}

theorem mem_exclusive_holders : id ∈ (own.exclusive all).holders s ↔
    id ∈ own.holders s ∧ own.toFunction id = all.toFunction id := by
  simp only [mem_holders, exclusive, List.mem_filter, beq_iff_eq]
  constructor
  · rintro ⟨f, ⟨mem, same⟩, scope, rfl⟩
    exact ⟨⟨f, mem, scope, rfl⟩, same⟩
  · rintro ⟨⟨f, mem, scope, rfl⟩, same⟩
    exact ⟨f, ⟨mem, same⟩, scope, rfl⟩

/-- A function has no references besides those in `own` if there are none in `outside`. -/
theorem toFunction_eq_iff (split : all.functions.Perm (own.functions ++ outside.functions)) :
    own.toFunction id = all.toFunction id ↔ ∀ f ∈ outside.functions, f.id ≠ id := by
  have counts : all.toFunction id = own.toFunction id + outside.toFunction id := by
    unfold toFunction
    rw [split.countP_eq, List.countP_append]
  have none : outside.toFunction id = 0 ↔ ∀ f ∈ outside.functions, f.id ≠ id := by
    simp [toFunction, List.countP_eq_zero]
  rw [← none]
  omega

/-- Every function that refers to a scope is counted on exactly one of the two sides. -/
theorem length_holders (split : all.functions.Perm (own.functions ++ outside.functions))
    (identified : all.Identified) (s : ScopeId) :
    (all.holders s).eraseDups.length =
      ((own.exclusive all).holders s).eraseDups.length + (outside.holders s).eraseDups.length := by
  have left {f : Closure} (hf : f ∈ own.functions) : f ∈ all.functions :=
    split.mem_iff.2 (List.mem_append_left _ hf)
  have right {f : Closure} (hf : f ∈ outside.functions) : f ∈ all.functions :=
    split.mem_iff.2 (List.mem_append_right _ hf)
  have disjoint : ∀ id ∈ ((own.exclusive all).holders s).eraseDups,
      ∀ id' ∈ (outside.holders s).eraseDups, id ≠ id' := by
    intro id mem id' mem' same
    obtain ⟨-, exclusive⟩ := mem_exclusive_holders.1 (List.mem_eraseDups.1 mem)
    obtain ⟨f, hf, -, number⟩ := mem_holders.1 (List.mem_eraseDups.1 mem')
    exact (toFunction_eq_iff split).1 exclusive f hf (number.trans same.symm)
  have nodup := List.nodup_append.2 ⟨nodup_eraseDups _, nodup_eraseDups _, disjoint⟩
  rw [← List.length_append]
  refine ((List.perm_ext_iff_of_nodup (nodup_eraseDups _) nodup).2 fun id => ?_).length_eq
  simp only [List.mem_append, List.mem_eraseDups, mem_exclusive_holders,
    toFunction_eq_iff split]
  constructor
  · intro mem
    obtain ⟨f, hf, scope, number⟩ := mem_holders.1 mem
    by_cases alone : ∀ g ∈ outside.functions, g.id ≠ id
    · rcases List.mem_append.1 (split.mem_iff.1 hf) with hf | hf
      · exact .inl ⟨mem_holders.2 ⟨f, hf, scope, number⟩, alone⟩
      · exact absurd number (alone f hf)
    · push Not at alone
      obtain ⟨g, hg, number'⟩ := alone
      have scope' := identified g (right hg) f hf (number'.trans number.symm)
      exact .inr (mem_holders.2 ⟨g, hg, scope'.trans scope, number'⟩)
  · rintro (⟨mem, -⟩ | mem)
    · obtain ⟨f, hf, scope, number⟩ := mem_holders.1 mem
      exact mem_holders.2 ⟨f, left hf, scope, number⟩
    · obtain ⟨f, hf, scope, number⟩ := mem_holders.1 mem
      exact mem_holders.2 ⟨f, right hf, scope, number⟩

/-- The references to a scope are those that `own` accounts for and those from `outside`. -/
theorem toScope_eq_add (scopes : all.scopes.Perm (own.scopes ++ outside.scopes))
    (functions : all.functions.Perm (own.functions ++ outside.functions))
    (identified : all.Identified) (s : ScopeId) :
    all.toScope s = (own.exclusive all).toScope s + outside.toScope s := by
  have links : all.scopes.count s = own.scopes.count s + outside.scopes.count s := by
    rw [scopes.count_eq, List.count_append]
  have holders := length_holders functions identified s
  have same : (own.exclusive all).scopes = own.scopes := rfl
  rw [toScope_eq, toScope_eq, toScope_eq, same]
  omega

end Exclusive

end References

namespace Store

variable {st : Store} {elsewhere : References} {group : List ScopeId} {s r : ScopeId}

/-- All references that there are: those that the scopes of the store hold and those from
elsewhere. -/
def inventory (st : Store) (elsewhere : References) : References :=
  st.references (List.range st.scopes.size) ++ elsewhere

/-- The references that are not held by a member of the group. -/
def outside (st : Store) (elsewhere : References) (group : List ScopeId) : References :=
  st.references ((List.range st.scopes.size).filter fun s => !group.contains s) ++ elsewhere

/-- Going from scope to scope along references. -/
def Leads (st : Store) : ScopeId → ScopeId → Prop :=
  Relation.ReflTransGen fun s r => r ∈ (st.scope s).refs

/-- One of the references leads to the scope. -/
def Reached (st : Store) (refs : References) (s : ScopeId) : Prop :=
  ∃ r ∈ refs.targets, st.Leads r s

/-- The scopes of the store are members of the group and others. -/
theorem range_perm (st : Store) (distinct : group.Nodup) :
    (List.range st.scopes.size).Perm (group.filter (· < st.scopes.size) ++
      (List.range st.scopes.size).filter fun s => !group.contains s) := by
  have disjoint : ∀ s ∈ group.filter (· < st.scopes.size),
      ∀ r ∈ (List.range st.scopes.size).filter fun s => !group.contains s, s ≠ r := by
    intro s hs r hr same
    have member := List.mem_of_mem_filter hs
    simp [← same, member] at hr
  have nodup := List.nodup_append.2
    ⟨distinct.filter _, List.nodup_range.filter _, disjoint⟩
  refine (List.perm_ext_iff_of_nodup List.nodup_range nodup).2 fun s => ?_
  by_cases mem : s ∈ group <;> simp [mem]

/-- A scope that was never made holds no references. -/
theorem references_filter (group : List ScopeId) :
    st.references (group.filter (· < st.scopes.size)) = st.references group := by
  have beyond {s : ScopeId} (h : ¬ s < st.scopes.size) :
      (st.scope s).parent = none ∧ (st.scope s).functions = [] := by
    rw [scope_of_le (Nat.le_of_not_lt h)]
    exact ⟨rfl, rfl⟩
  induction group with
  | nil => rfl
  | cons s group ih =>
    obtain ⟨scopes, functions⟩ := References.mk.inj ih
    by_cases h : s < st.scopes.size
    · simp [references, List.filterMap_cons, h, scopes, functions]
    · simp [references, h, scopes, functions, beyond h]

theorem inventory_perm (st : Store) (elsewhere : References) (distinct : group.Nodup) :
    (st.inventory elsewhere).scopes.Perm
        ((st.references group).scopes ++ (st.outside elsewhere group).scopes) ∧
      (st.inventory elsewhere).functions.Perm
        ((st.references group).functions ++ (st.outside elsewhere group).functions) := by
  have parts := range_perm st distinct
  rw [← references_filter group]
  constructor
  · change ((List.range st.scopes.size).filterMap _ ++ elsewhere.scopes).Perm
      (_ ++ (_ ++ elsewhere.scopes))
    rw [← List.append_assoc]
    refine List.Perm.append_right _ ((parts.filterMap _).trans ?_)
    rw [List.filterMap_append]
    rfl
  · change ((List.range st.scopes.size).flatMap _ ++ elsewhere.functions).Perm
      (_ ++ (_ ++ elsewhere.functions))
    rw [← List.append_assoc]
    refine List.Perm.append_right _ ((parts.flatMap_right _).trans ?_)
    rw [List.flatMap_append]
    rfl

/-- What a scope outside the group refers to is referred to from outside. -/
theorem mem_targets_of_refs (hs : s ∉ group) (refs : r ∈ (st.scope s).refs) :
    r ∈ (st.outside elsewhere group).targets := by
  have made : s < st.scopes.size := by
    refine Nat.lt_of_not_le fun beyond => ?_
    rw [scope_of_le beyond] at refs
    exact Scope.not_mem_refs_empty r refs
  have other : s ∈ (List.range st.scopes.size).filter fun s => !group.contains s := by
    simp [made, hs]
  rcases List.mem_append.1 refs with parent | function
  · refine List.mem_append_left _ (List.mem_append_left _ ?_)
    exact List.mem_filterMap.2 ⟨s, other, Option.mem_toList.1 parent⟩
  · obtain ⟨f, mem, scope⟩ := List.mem_map.1 function
    refine List.mem_append_right _ (List.mem_map.2 ⟨f, List.mem_append_left _ ?_, scope⟩)
    exact List.mem_flatMap.2 ⟨s, other, mem⟩

theorem exists_pending_of_mem_reachable {remaining pending : List ScopeId}
    (h : s ∈ st.reachable remaining pending) : ∃ r ∈ pending, st.Leads r s := by
  fun_induction reachable st remaining pending with
  | case1 => cases h
  | case2 remaining pending t found ih =>
    have first := List.mem_of_find?_eq_some found
    rcases List.mem_cons.1 h with rfl | h
    · exact ⟨s, first, .refl⟩
    · obtain ⟨r, mem, leads⟩ := ih h
      rcases List.mem_append.1 mem with refs | mem
      · exact ⟨t, first, .head refs leads⟩
      · exact ⟨r, mem, leads⟩

section Group

variable (distinct : group.Nodup) (identified : (st.inventory elsewhere).Identified)

include distinct identified

/-- What is left after the subtraction are the references from outside. -/
theorem toScope_inventory (s : ScopeId) : (st.inventory elsewhere).toScope s =
    ((st.references group).exclusive (st.inventory elsewhere)).toScope s +
      (st.outside elsewhere group).toScope s := by
  obtain ⟨scopes, functions⟩ := inventory_perm st elsewhere distinct
  exact References.toScope_eq_add scopes functions identified s

theorem mem_heldFromOutside : s ∈ st.heldFromOutside (st.inventory elsewhere) group ↔
    s ∈ group ∧ s ∈ (st.outside elsewhere group).targets := by
  have counts := toScope_inventory distinct identified s
  rw [heldFromOutside, List.mem_filter, decide_eq_true_iff, counts, Nat.add_sub_cancel_left,
    References.toScope_pos]

/-- The members that are found to be needed are those that something outside leads to. -/
theorem mem_reachable_iff (hs : s ∈ group) :
    s ∈ st.reachable group (st.heldFromOutside (st.inventory elsewhere) group) ↔
      st.Reached (st.outside elsewhere group) s := by
  constructor
  · intro mem
    obtain ⟨r, held, leads⟩ := exists_pending_of_mem_reachable mem
    exact ⟨r, ((mem_heldFromOutside distinct identified).1 held).2, leads⟩
  · have direct {r : ScopeId} (target : r ∈ (st.outside elsewhere group).targets)
        (hr : r ∈ group) :
        r ∈ st.reachable group (st.heldFromOutside (st.inventory elsewhere) group) :=
      mem_reachable_of_pending ((mem_heldFromOutside distinct identified).2 ⟨hr, target⟩) hr
    rintro ⟨r, target, leads⟩
    -- The way may leave the group and come back: then it comes back by a reference from outside.
    induction leads with
    | refl => exact direct target hs
    | @tail t s _ refs ih =>
      by_cases ht : t ∈ group
      · exact mem_reachable_of_refs (ih ht) refs hs
      · exact direct (mem_targets_of_refs ht refs) hs

theorem mem_collect_iff : s ∈ (st.collect (st.inventory elsewhere) group).1 ↔
    s ∈ group ∧ st.Reached (st.outside elsewhere group) s := by
  change s ∈ group.filter _ ↔ _
  rw [List.mem_filter, List.contains_iff_mem]
  exact and_congr_right fun hs => mem_reachable_iff distinct identified hs

theorem scope_collect_of_reached (h : s ∈ group → st.Reached (st.outside elsewhere group) s) :
    (st.collect (st.inventory elsewhere) group).2.scope s = st.scope s := by
  change (st.resetAll (group.filter _)).scope s = _
  rw [scope_resetAll, if_neg]
  intro mem
  obtain ⟨hs, dead⟩ := List.mem_filter.1 mem
  have live := (mem_reachable_iff distinct identified hs).2 (h hs)
  simp [live] at dead

theorem scope_collect_of_not_reached (hs : s ∈ group)
    (h : ¬ st.Reached (st.outside elsewhere group) s) :
    (st.collect (st.inventory elsewhere) group).2.scope s = .empty := by
  change (st.resetAll (group.filter _)).scope s = _
  rw [scope_resetAll, if_pos]
  have dead := mt (mem_reachable_iff distinct identified hs).1 h
  simp [hs, dead]

/-- Names keep the scope that binds them wherever something outside leads. -/
theorem owner?_collect (name : String) (s : ScopeId)
    (h : s ∈ group → st.Reached (st.outside elsewhere group) s) :
    (st.collect (st.inventory elsewhere) group).2.owner? s name = st.owner? s name ∧
      ∀ o, st.owner? s name = some o →
        (st.collect (st.inventory elsewhere) group).2.scope o = st.scope o := by
  have same := scope_collect_of_reached distinct identified h
  unfold owner?
  rw [same]
  by_cases bound : (st.scope s).binds name
  · simp [bound, same]
  · cases inside : (st.scope s).parent with
    | none => simp [bound]
    | some parent =>
      by_cases younger : parent < s
      · have refs : parent ∈ (st.scope s).refs := Scope.mem_refs.2 (.inl inside)
        have outward : parent ∈ group → st.Reached (st.outside elsewhere group) parent := by
          intro _
          by_cases hs : s ∈ group
          · obtain ⟨r, target, leads⟩ := h hs
            exact ⟨r, target, leads.tail refs⟩
          · exact ⟨parent, mem_targets_of_refs hs refs, .refl⟩
        simpa [bound, younger] using owner?_collect name parent outward
      · simp [bound, younger]
termination_by s

theorem get?_collect {name : String} (h : s ∈ group → st.Reached (st.outside elsewhere group) s) :
    (st.collect (st.inventory elsewhere) group).2.get? s name = st.get? s name := by
  obtain ⟨owner, scope⟩ := owner?_collect distinct identified name s h
  unfold get?
  rw [owner]
  cases found : st.owner? s name with
  | none => rfl
  | some o =>
    rw [Option.bind_some, Option.bind_some, scope o found]

end Group

/-- Of a group of scopes, a collection empties those to which no reference from outside the group
leads, and gives the others in their order; it changes no other scope, and no look-up that starts
where something outside leads. What is subtracted from a count of references is never more than the
count. -/
theorem collect_exact (st : Store) (elsewhere : References) {group : List ScopeId}
    (distinct : group.Nodup) (identified : (st.inventory elsewhere).Identified) :
    let all := st.inventory elsewhere
    let outside := st.outside elsewhere group
    let (live, st') := st.collect all group
    live.Sublist group ∧ (∀ s ∈ group, s ∈ live ↔ st.Reached outside s) ∧
    (∀ s ∈ group, ¬ st.Reached outside s → st'.scope s = .empty) ∧
    (∀ s, s ∉ group ∨ st.Reached outside s → st'.scope s = st.scope s ∧
      ∀ name, st'.owner? s name = st.owner? s name ∧ st'.get? s name = st.get? s name) ∧
    ∀ s ∈ group, ((st.references group).exclusive all).toScope s ≤ all.toScope s ∧
      all.toScope s - ((st.references group).exclusive all).toScope s = outside.toScope s := by
  refine ⟨List.filter_sublist, ?_, ?_, ?_, ?_⟩
  · intro s hs
    exact (mem_collect_iff distinct identified).trans (and_iff_right hs)
  · intro s hs unreached
    exact scope_collect_of_not_reached distinct identified hs unreached
  · intro s h
    have reached : s ∈ group → st.Reached (st.outside elsewhere group) s := fun hs =>
      h.resolve_left (not_not_intro hs)
    refine ⟨scope_collect_of_reached distinct identified reached, fun name => ?_⟩
    exact ⟨(owner?_collect distinct identified name s reached).1,
      get?_collect distinct identified reached⟩
  · intro s _
    rw [toScope_inventory distinct identified s]
    exact ⟨Nat.le_add_right _ _, Nat.add_sub_cancel_left _ _⟩

/-- A scope that two names bound to one of its own functions keep alive is emptied. One that is held
by a function from elsewhere stays, and so does the scope around it. -/
theorem collect_exact_cycle :
    let f : Closure := ⟨0, "f", [], [], 1⟩
    let g : Closure := ⟨1, "g", [], [], 3⟩
    let st : Store := ⟨#[⟨none, []⟩, ⟨some 0, [("a", .verse f), ("b", .verse f)]⟩,
      ⟨some 0, [("x", .int 1)]⟩, ⟨some 2, [("g", .verse g)]⟩], 2⟩
    let elsewhere : References := ⟨[], [g]⟩
    let outside := st.outside elsewhere [1, 2, 3]
    let collected := st.collect (st.inventory elsewhere) [1, 2, 3]
    ([1, 2, 3] : List ScopeId).Nodup ∧ (st.inventory elsewhere).Identified ∧ collected.1 = [2, 3] ∧
      ¬ st.Reached outside 1 ∧ st.Reached outside 2 ∧ collected.2.scope 1 = .empty ∧
        collected.2.get? 3 "x" = st.get? 3 "x" := by
  intro f g st elsewhere outside collected
  have functions : (st.inventory elsewhere).functions = [f, f, g, g] := rfl
  have identified : (st.inventory elsewhere).Identified := by
    unfold References.Identified
    rw [functions]
    simp [f, g]
  have distinct : ([1, 2, 3] : List ScopeId).Nodup := by decide
  have kept : collected.1 = [2, 3] := by cbv
  obtain ⟨-, live, emptied, same, -⟩ :=
    collect_exact st elsewhere distinct identified
  have dead : ¬ st.Reached outside 1 := fun reached => by
    have mem : 1 ∈ collected.1 := (live 1 (by simp)).2 reached
    simp [kept] at mem
  have reached (s : ScopeId) (hs : s ∈ [2, 3]) : st.Reached outside s := by
    have mem : s ∈ collected.1 := by rwa [kept]
    exact (live s (List.mem_cons_of_mem 1 hs)).1 mem
  exact ⟨distinct, identified, kept, dead, reached 2 (by simp), emptied 1 (by simp) dead,
    ((same 3 (.inr (reached 3 (by simp)))).2 "x").2⟩

end Store

end CypherLang
