import CypherLang.Proofs.Eval.Discipline
import CypherLang.Proofs.Store.Release

namespace CypherLang

variable {H : Type}

/-- What holds of the statements of a program holds of the functions they declare, and of the
statements in these. -/
structure Declares (function : Closure → Prop) (stmt : Stmt → Prop) : Prop where
  verse : ∀ {f : Closure}, stmt (.verse f.name f.params f.body) → function f
  body : ∀ {f : Closure}, function f → ∀ x ∈ f.body, stmt x
  branch : ∀ {c : Expr} {thenBranch : List Stmt} {elseBranch : Option (List Stmt)},
    stmt (.battle c thenBranch elseBranch) →
      (∀ x ∈ thenBranch, stmt x) ∧ ∀ body ∈ elseBranch, ∀ x ∈ body, stmt x

/-- Every function that there is has the property. -/
def Machine.Functions (m : Machine H) (function : Closure → Prop) : Prop :=
  ∀ s, ∀ b ∈ (m.store.scope s).bindings, ∀ f, b.2.closure? = some f → function f

/-- All functions have the one property and all statements the other one. -/
def provenance (function : Closure → Prop) (stmt : Stmt → Prop) : Discipline H where
  machine m := m.Functions function
  value _ v := ∀ f, v.closure? = some f → function f
  stmt x _ := stmt x

namespace Machine.Functions

variable {m : Machine H} {function : Closure → Prop} {s : ScopeId} {name : String} {v : Value}

theorem bind (s : ScopeId) (name : String) (h : m.Functions function)
    (hv : ∀ f, v.closure? = some f → function f) :
    Functions { m with store := m.store.bind s name v } function := by
  intro t b mem
  rcases Store.mem_bindings_bind mem with mem | rfl
  · exact h t b mem
  · exact hv

theorem withScope (h : m.Functions function) : (m.withScope s).Functions function := by
  intro t b mem
  change b ∈ ((m.store.newChild s).2.scope t).bindings at mem
  rw [Store.scope_newChild] at mem
  split at mem
  · cases mem
  · exact h t b mem

theorem bindAll (bindings : List (String × Value)) (h : m.Functions function)
    (hv : ∀ b ∈ bindings, ∀ f, b.2.closure? = some f → function f) :
    Functions { m with store := bindings.foldl (fun st b => st.bind s b.1 b.2) m.store }
      function := by
  induction bindings generalizing m with
  | nil => exact h
  | cons b bindings ih =>
    obtain ⟨hb, hrest⟩ := List.forall_mem_cons.1 hv
    exact ih (h.bind s b.1 hb) hrest

theorem collect (h : m.Functions function) (mark : Nat) (held : Option Closure) :
    (m.collect mark held).Functions function := by
  intro t b mem
  rw [scope_collect] at mem
  split at mem
  · cases mem
  · exact h t b mem

end Machine.Functions

theorem provenance_kept {function : Closure → Prop} {stmt : Stmt → Prop}
    (declares : Declares function stmt) :
    (provenance function stmt : Discipline H).Kept where
  refl _ := trivial
  trans _ _ := trivial
  valueLater _ hv := hv
  scopeLater _ _ := trivial
  plain hv f hf := by
    rw [hv] at hf
    cases hf
  found {m s name v} hm _ found := by
    obtain ⟨o, -, bound⟩ := Option.bind_eq_some_iff.1 found
    exact hm o _ (Scope.mem_of_get? bound)
  logs _ hm := ⟨hm, trivial⟩
  outside _ _ hm := ⟨hm, trivial⟩
  spit hm _ _ hv := ⟨hm.bind _ _ hv, trivial⟩
  verse {m s name params body} hm _ hx := by
    let counted := { m with store := (m.store.capture name params body s).2 }
    have functions : counted.Functions function := hm
    refine ⟨functions.bind s name ?_, trivial⟩
    intro f hf
    cases hf
    exact declares.verse hx
  assign hm _ _ hv _ := ⟨hm.bind _ _ hv, trivial⟩
  branch hm _ hx := ⟨⟨hm.withScope, trivial⟩, trivial, declares.branch hx⟩
  enter {m f args} hm hf hargs := by
    have opened : (m.withScope f.scope).Functions function := hm.withScope
    have values : ∀ b ∈ f.params.zip args, ∀ g, b.2.closure? = some g → function g := by
      rintro ⟨name, v⟩ mem
      exact hargs v (List.of_mem_zip mem).2
    exact ⟨⟨opened.bindAll _ values, trivial⟩, trivial, declares.body (hf f rfl)⟩
  leave {_ last} _ _ next := by
    have functions : Machine.Functions { last with calls := last.calls - 1 } function :=
      next.machine
    exact ⟨functions.collect _ _, trivial⟩
  returned _ _ hc := hc

/-- Before any program there are no functions but the built-in routines. -/
theorem Machine.functions_start (host : H) (log : Log) (function : Closure → Prop) :
    (start host log).Functions function := by
  intro s b mem
  cases s with
  | zero =>
    have bindings : ((start host log).store.scope 0).bindings =
        [("flow", .builtin .flow), ("listen", .builtin .listen)] := by cbv
    rw [bindings] at mem
    simp only [List.mem_cons, List.not_mem_nil, or_false] at mem
    rcases mem with rfl | rfl
    all_goals
      intro f closure
      cases closure
  | succ s =>
    have beyond : (start host log).store.scope (s + 1) = .empty :=
      Store.scope_of_le (Nat.succ_le_succ (Nat.zero_le s))
    rw [beyond] at mem
    cases mem

end CypherLang
