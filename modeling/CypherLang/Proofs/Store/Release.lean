import CypherLang.Machine
import CypherLang.Proofs.Store.Scopes

namespace CypherLang

namespace Store

variable {st : Store} {remaining pending : List ScopeId} {s r : ScopeId}

theorem mem_reachable_of_pending (h : s ∈ pending) (hs : s ∈ remaining) :
    s ∈ st.reachable remaining pending := by
  fun_induction reachable st remaining pending with
  | case1 remaining pending none =>
    have absent := List.find?_eq_none.1 none s h
    exact absurd (List.contains_iff_mem.2 hs) absent
  | case2 remaining pending t found ih =>
    by_cases same : s = t
    · exact same ▸ List.mem_cons_self
    · have left : s ∈ remaining.erase t := (List.mem_erase_of_ne same).2 hs
      exact List.mem_cons_of_mem _ (ih (List.mem_append_right _ h) left)

/-- What can be reached is closed under references. -/
theorem mem_reachable_of_refs (h : s ∈ st.reachable remaining pending)
    (refs : r ∈ (st.scope s).refs) (hr : r ∈ remaining) : r ∈ st.reachable remaining pending := by
  fun_induction reachable st remaining pending with
  | case1 => cases h
  | case2 remaining pending t found ih =>
    by_cases same : r = t
    · exact same ▸ List.mem_cons_self
    · have left : r ∈ remaining.erase t := (List.mem_erase_of_ne same).2 hr
      refine List.mem_cons_of_mem _ ?_
      rcases List.mem_cons.1 h with rfl | h
      · exact mem_reachable_of_pending (List.mem_append_left _ refs) left
      · exact ih h left

end Store

theorem nodup_eraseDups (ids : List Nat) : ids.eraseDups.Nodup := by
  cases ids with
  | nil => simp
  | cons a ids =>
    rw [List.eraseDups_cons, List.nodup_cons]
    refine ⟨?_, nodup_eraseDups _⟩
    simp [List.mem_eraseDups]
termination_by ids.length
decreasing_by
  have shorter := List.length_filter_le (fun b => !b == a) ids
  simp only [List.length_cons]
  omega

theorem length_eraseDups_le {ids ids' : List Nat} (h : ids ⊆ ids') :
    ids.eraseDups.length ≤ ids'.eraseDups.length := by
  have sub : ids.eraseDups ⊆ ids'.eraseDups := fun a ha =>
    List.mem_eraseDups.2 (h (List.mem_eraseDups.1 ha))
  exact (nodup_eraseDups ids).length_le_of_subset sub

theorem length_eraseDups_lt {ids ids' : List Nat} {a : Nat} (h : ids ⊆ ids') (ha : a ∈ ids')
    (missing : a ∉ ids) : ids.eraseDups.length < ids'.eraseDups.length := by
  have nodup : (a :: ids.eraseDups).Nodup :=
    List.nodup_cons.2 ⟨fun mem => missing (List.mem_eraseDups.1 mem), nodup_eraseDups ids⟩
  have sub : a :: ids.eraseDups ⊆ ids'.eraseDups := by
    intro b hb
    rcases List.mem_cons.1 hb with rfl | hb
    · exact List.mem_eraseDups.2 ha
    · exact List.mem_eraseDups.2 (h (List.mem_eraseDups.1 hb))
  exact nodup.length_le_of_subset sub

namespace References

/-- The numbers of the functions that refer to a scope. -/
def holders (r : References) (s : ScopeId) : List Nat :=
  (r.functions.filter (·.scope == s)).map Closure.id

theorem mem_holders {r : References} {s : ScopeId} {id : Nat} :
    id ∈ r.holders s ↔ ∃ f ∈ r.functions, f.scope = s ∧ f.id = id := by
  simp [holders, and_assoc]

theorem toScope_eq (r : References) (s : ScopeId) :
    r.toScope s = r.scopes.count s + (r.holders s).eraseDups.length := rfl

end References

namespace Store

variable {st : Store} {older group : List ScopeId} {held : Option Closure} {r : ScopeId}

/-- All references there are, when the scopes outside the group are the `older` ones. -/
def allReferences (st : Store) (older group : List ScopeId) (held : Option Closure) : References :=
  st.references (older ++ group) ++ ⟨[], held.toList⟩

theorem scopes_allReferences : (st.allReferences older group held).scopes =
    (st.references older).scopes ++ (st.references group).scopes := by
  change (older ++ group).filterMap _ ++ [] = _
  rw [List.append_nil, List.filterMap_append]
  rfl

theorem functions_allReferences : (st.allReferences older group held).functions =
    (st.references older).functions ++ (st.references group).functions ++ held.toList := by
  change (older ++ group).flatMap _ ++ _ = _
  rw [List.flatMap_append]
  rfl

/-- The references of the group that are left when functions with further references are not
counted. -/
theorem mem_holders_exclusive {id : Nat} {all : References}
    (h : id ∈ ((st.references group).exclusive all).holders r) :
    (st.references group).toFunction id = all.toFunction id ∧
      id ∈ (st.references group).holders r := by
  obtain ⟨f, mem, scope, rfl⟩ := References.mem_holders.1 h
  obtain ⟨mem, same⟩ := List.mem_filter.1 mem
  exact ⟨by simpa using same, References.mem_holders.2 ⟨f, mem, scope, rfl⟩⟩

theorem holders_exclusive_subset :
    ((st.references group).exclusive (st.allReferences older group held)).holders r ⊆
      (st.allReferences older group held).holders r := by
  intro id h
  obtain ⟨f, mem, scope, rfl⟩ := References.mem_holders.1 (mem_holders_exclusive h).2
  refine References.mem_holders.2 ⟨f, ?_, scope, rfl⟩
  rw [functions_allReferences]
  simp [mem]

/-- A member of the group to which a scope outside the group refers as its parent. -/
theorem heldFromOutside_of_parent {o : ScopeId} (ho : o ∈ older)
    (parent : (st.scope o).parent = some r) (hr : r ∈ group) :
    r ∈ st.heldFromOutside (st.allReferences older group held) group := by
  have outside : 0 < (st.references older).scopes.count r :=
    List.count_pos_iff.2 (List.mem_filterMap.2 ⟨o, ho, parent⟩)
  have subset : ((st.references group).exclusive (st.allReferences older group held)).holders r ⊆
      (st.allReferences older group held).holders r := holders_exclusive_subset
  have functions := length_eraseDups_le subset
  refine List.mem_filter.2 ⟨hr, ?_⟩
  rw [decide_eq_true_iff, References.toScope_eq, References.toScope_eq, scopes_allReferences,
    List.count_append]
  change 0 < _ - ((st.references group).scopes.count r + _)
  omega

/-- A member of the group in which a function was declared that has more references than those from
the group. -/
theorem heldFromOutside_of_function {f : Closure}
    (mem : f ∈ (st.references older).functions ++ held.toList) (hr : f.scope ∈ group) :
    f.scope ∈ st.heldFromOutside (st.allReferences older group held) group := by
  have more : (st.references group).toFunction f.id <
      (st.allReferences older group held).toFunction f.id := by
    unfold References.toFunction
    rw [functions_allReferences]
    simp only [List.countP_append]
    have : 0 < ((st.references older).functions ++ held.toList).countP (·.id == f.id) :=
      List.countP_pos_iff.2 ⟨f, mem, by simp⟩
    rw [List.countP_append] at this
    omega
  have missing : f.id ∉ ((st.references group).exclusive
      (st.allReferences older group held)).holders f.scope := by
    intro h
    have same := (mem_holders_exclusive h).1
    omega
  have present : f.id ∈ (st.allReferences older group held).holders f.scope := by
    refine References.mem_holders.2 ⟨f, ?_, rfl, rfl⟩
    rw [functions_allReferences]
    rcases List.mem_append.1 mem with h | h
    · simp [h]
    · simp [h]
  have functions := length_eraseDups_lt holders_exclusive_subset present missing
  refine List.mem_filter.2 ⟨hr, ?_⟩
  rw [decide_eq_true_iff, References.toScope_eq, References.toScope_eq, scopes_allReferences,
    List.count_append]
  change 0 < _ - ((st.references group).scopes.count f.scope + _)
  omega

end Store

namespace Machine

variable {H : Type} {m : Machine H} {mark : Nat} {held : Option Closure} {s o r : ScopeId}

/-- The scopes that have been tracked since `mark`. -/
def since (m : Machine H) (mark : Nat) : List ScopeId := (m.tracked.extract mark).toList

/-- The scopes outside the group of those tracked since `mark`. -/
def before (m : Machine H) (mark : Nat) : List ScopeId := m.globals :: (m.tracked.take mark).toList

/-- The scopes tracked since `mark` that a release finds to be needed. -/
def needed (m : Machine H) (mark : Nat) (held : Option Closure) : List ScopeId :=
  m.store.reachable (m.since mark) (m.store.heldFromOutside
    (m.store.allReferences (m.before mark) (m.since mark) held) (m.since mark))

/-- The scopes that a release empties. -/
def released (m : Machine H) (mark : Nat) (held : Option Closure) : List ScopeId :=
  (m.since mark).filter fun s => !(m.needed mark held).contains s

theorem mem_released : s ∈ m.released mark held ↔ s ∈ m.since mark ∧ s ∉ m.needed mark held := by
  simp [released]

theorem tracked_eq (m : Machine H) (mark : Nat) :
    m.tracked.toList = (m.tracked.take mark).toList ++ m.since mark := by
  have rest : (m.tracked.toList.drop mark).length ≤ m.tracked.size - mark := by simp
  simp [since, List.take_of_length_le rest]

theorem all_references (m : Machine H) (mark : Nat) (held : Option Closure) :
    m.store.references (m.globals :: m.tracked.toList) ++ ⟨[], held.toList⟩ =
      m.store.allReferences (m.before mark) (m.since mark) held := by
  rw [tracked_eq m mark]
  rfl

/-- A release in terms of the scopes it empties. -/
theorem collect_eq (m : Machine H) (mark : Nat) (held : Option Closure) : m.collect mark held =
    { m with
      store := m.store.resetAll (m.released mark held)
      tracked := m.tracked.take mark ++
        (m.since mark).filter (fun s => !(m.released mark held).contains s) } := by
  have live : (m.since mark).filter (m.needed mark held).contains =
      (m.since mark).filter fun s => !(m.released mark held).contains s := by
    apply List.filter_congr
    intro s hs
    simp [released, hs]
  unfold collect
  dsimp only
  rw [all_references, ← live]
  rfl

theorem scope_collect : (m.collect mark held).store.scope s =
    if s ∈ m.released mark held then .empty else m.store.scope s := by
  rw [collect_eq]
  exact Store.scope_resetAll _

theorem mem_tracked_of_released (h : s ∈ m.released mark held) : s ∈ m.tracked.toList := by
  rw [tracked_eq m mark]
  exact List.mem_append_right _ (mem_released.1 h).1

/-- A scope to which a scope that stays refers is not emptied. -/
theorem not_mem_released_of_refs (ho : o ∈ m.globals :: m.tracked.toList)
    (stays : o ∉ m.released mark held) (refs : r ∈ (m.store.scope o).refs) :
    r ∉ m.released mark held := by
  rw [mem_released]
  rintro ⟨member, dead⟩
  apply dead
  by_cases inside : o ∈ m.since mark
  · have live : o ∈ m.needed mark held := by
      simpa [mem_released, inside] using stays
    exact Store.mem_reachable_of_refs live refs member
  · have outside : o ∈ m.before mark := by
      rw [tracked_eq m mark, ← List.cons_append] at ho
      exact (List.mem_append.1 ho).resolve_right inside
    apply Store.mem_reachable_of_pending ?_ member
    rcases List.mem_append.1 refs with parent | function
    · exact Store.heldFromOutside_of_parent outside (Option.mem_toList.1 parent) member
    · obtain ⟨f, mem, rfl⟩ := List.mem_map.1 function
      refine Store.heldFromOutside_of_function (List.mem_append_left _ ?_) member
      exact List.mem_flatMap.2 ⟨o, outside, mem⟩

/-- The scope of the function that is held is not emptied. -/
theorem not_mem_released_of_held {f : Closure} (h : held = some f) :
    f.scope ∉ m.released mark held := by
  rw [mem_released]
  rintro ⟨member, dead⟩
  have mem : f ∈ (m.store.references (m.before mark)).functions ++ held.toList := by simp [h]
  exact dead (Store.mem_reachable_of_pending
    (Store.heldFromOutside_of_function mem member) member)

end Machine

end CypherLang
