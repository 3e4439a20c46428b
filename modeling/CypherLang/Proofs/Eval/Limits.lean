import CypherLang.Proofs.Console.Requests
import CypherLang.Proofs.Eval.Simulation
import CypherLang.Session

namespace CypherLang

/-- The lines written so far. -/
def Machine.written (m : Machine Console) : List String := m.host.output.toList

/-- The ways in which limits end a run. -/
def Limits.Stop (limits : Limits) (h : Halt) : Prop :=
  h = .error (.recursionLimit limits.calls) ∨ h = .error (.stackOverflow limits.levels) ∨
    h = .outOfFuel

namespace Run

/-- Nothing that was written is taken back. -/
def Appends (x : Run Console α) : Prop := ∀ m, m.written <+: (x.final m).written

theorem appends_of_host {x : Run Console α} (h : ∀ m, (x.final m).host = m.host) :
    x.Appends := by
  intro m
  unfold Machine.written
  rewrite [h]
  exact List.prefix_refl _

theorem final_hostCall {H : Type} (f : H → Except String α × H) (m : Machine H) :
    ((hostCall f).final m).host = (f m.host).2 := by
  rcases h : f m.host with ⟨a | reason, host⟩
  · rw [final_of_error (hostCall_of_error h)]
  · rw [final_of_ok (hostCall_of_ok h)]

theorem Primitive.appends {x : Run Console α} (h : x.Primitive) : x.Appends := by
  cases h with
  | write line =>
    intro m
    unfold Machine.written
    rw [final_hostCall]
    exact m.host.output_write line
  | read =>
    intro m
    unfold Machine.written
    rewrite [final_hostCall]
    change _ <+: m.host.read.2.output.toList
    rewrite [Console.output_read]
    exact List.prefix_refl _
  | lookup s name =>
    apply appends_of_host
    intro m
    cases h : m.store.get? s name with
    | some v => rw [final_of_ok (lookup_of_some h)]
    | none => rw [final_of_error (lookup_of_none h)]
  | assign s name v =>
    apply appends_of_host
    intro m
    cases h : m.store.owner? s name with
    | some o => rw [final_of_ok (assign_of_some v h)]
    | none => rw [final_of_error (assign_of_none v h)]
  | _ => exact appends_of_host fun _ => rfl

/-- A run goes on from where its first part ends. -/
theorem final_bind (x : Run Console α) {f : α → Run Console β} (hf : ∀ a, (f a).Appends)
    (m : Machine Console) :
    (x.final m).written <+: ((x >>= f).final m).written := by
  cases h : x m with
  | ok a last =>
    rw [final_of_ok h, final, bind_of_ok h]
    exact hf a last
  | error e last =>
    rewrite [final_of_error h, final_of_error (bind_of_error h)]
    exact List.prefix_refl _

theorem final_ensuring {after : Option α → Machine Console → Machine Console}
    (h : ∀ c last, (after c last).written = last.written) (x : Run Console α)
    (m : Machine Console) :
    ((ensuring after x).final m).written = (x.final m).written := by
  cases hx : x m with
  | ok a last => rw [final_of_ok hx, final_of_ok (ensuring_of_ok hx), h]
  | error e last => rw [final_of_error hx, final_of_error (ensuring_of_error hx), h]

end Run

namespace Run

/-- The run `x` is the run `x'`, cut short where the limits stop it. -/
structure CutShort (limits : Limits) (x x' : Run Console α) : Prop where
  appends : x'.Appends
  agrees : ∀ m, x m = x' m ∨
    ∃ e last, x m = .error e last ∧ limits.Stop e ∧ last.written <+: (x'.final m).written

namespace CutShort

variable {limits : Limits}

theorem refl {x : Run Console α} (h : x.Appends) : CutShort limits x x := ⟨h, fun _ => .inl rfl⟩

theorem outOfFuel {x : Run Console α} (h : x.Appends) : CutShort limits (throw .outOfFuel) x :=
  ⟨h, fun m => .inr ⟨.outOfFuel, m, rfl, .inr (.inr rfl), h m⟩⟩

theorem bind {x x' : Run Console α} {f f' : α → Run Console β} (hx : CutShort limits x x')
    (hf : ∀ a, CutShort limits (f a) (f' a)) : CutShort limits (x >>= f) (x' >>= f') := by
  have more := final_bind x' fun a => (hf a).appends
  refine ⟨fun m => (hx.appends m).trans (more m), fun m => ?_⟩
  obtain same | ⟨e, last, h, stop, written⟩ := hx.agrees m
  -- The first parts agree and the second ones are compared, or nothing follows the cut.
  · cases h' : x' m with
    | ok a last =>
      rw [h'] at same
      have rest := (hf a).agrees last
      unfold final at rest ⊢
      rwa [bind_of_ok same, bind_of_ok h']
    | error e last =>
      rw [h'] at same
      exact .inl ((bind_of_error same).trans (bind_of_error h').symm)
  · exact .inr ⟨e, last, bind_of_error h, stop, written.trans (more m)⟩

theorem ensuring {x x' : Run Console α} (hx : CutShort limits x x')
    (after : Option α → Machine Console → Machine Console)
    (keeps : ∀ c last, (after c last).written = last.written) :
    CutShort limits (Run.ensuring after x) (Run.ensuring after x') := by
  constructor
  · intro m
    rw [final_ensuring keeps]
    exact hx.appends m
  · intro m
    obtain same | ⟨e, last, h, stop, written⟩ := hx.agrees m
    · left
      unfold Run.ensuring
      rw [same]
    · right
      refine ⟨e, after none last, ensuring_of_error h, stop, ?_⟩
      rw [final_ensuring keeps, keeps]
      exact written

/-- Runs that a limit keeps from starting, and that otherwise start on the same machine. -/
theorem limited {x x' : Run Console α} {inner inner' : Machine Console → Run Console α}
    (next : Machine Console → Machine Console)
    (keeps : ∀ m, (next m).written = m.written)
    (within : ∀ m, CutShort limits (inner m) (inner' m))
    (large : ∀ m, (∃ e, x' m = .error e m) ∨ x' m = inner' m (next m))
    (small : ∀ m, (∃ e, limits.Stop e ∧ x m = .error e m) ∨
      x m = inner m (next m) ∧ x' m = inner' m (next m)) : CutShort limits x x' := by
  have added : x'.Appends := by
    intro m
    obtain ⟨e, h⟩ | h := large m
    · rewrite [final_of_error h]
      exact List.prefix_refl _
    · rw [final, h, ← keeps m]
      exact (within m).appends (next m)
  refine ⟨added, fun m => ?_⟩
  obtain ⟨e, stop, h⟩ | ⟨h, h'⟩ := small m
  · exact .inr ⟨e, m, h, stop, added m⟩
  · rw [h, h', final, h']
    exact (within m).agrees (next m)

end CutShort

end Run

section Larger

variable {small large : Limits}

theorem cutShort_deeper (levels : small.levels ≤ large.levels) {x x' : Run Console α}
    (hx : Run.CutShort small x x') :
    Run.CutShort small (Run.deeper small x) (Run.deeper large x') := by
  have inner := hx.ensuring (fun _ m => { m with levels := m.levels - 1 }) fun _ _ => rfl
  apply Run.CutShort.limited (fun m => { m with levels := m.levels + 1 }) (fun _ => rfl)
    (fun _ => inner)
  · intro m
    by_cases h : large.levels ≤ m.levels
    · exact .inl ⟨_, Run.deeper_of_le h⟩
    · exact .inr (Run.deeper_of_lt (Nat.not_le.1 h))
  · intro m
    by_cases h : small.levels ≤ m.levels
    · exact .inl ⟨_, .inr (.inl rfl), Run.deeper_of_le h⟩
    · have lt := Nat.not_le.1 h
      exact .inr ⟨Run.deeper_of_lt lt, Run.deeper_of_lt (Nat.lt_of_lt_of_le lt levels)⟩

theorem cutShort_activate (calls : small.calls ≤ large.calls) {below below' : Evaluator Console}
    (f : Closure) (args : List Value)
    (block : ∀ body s, Run.CutShort small (below.block body s) (below'.block body s)) :
    Run.CutShort small (Eval.activate small below f args) (Eval.activate large below' f args) := by
  have inner (m : Machine Console) :=
    (block f.body m.store.scopes.size).ensuring m.leave fun _ _ => rfl
  apply Run.CutShort.limited (fun m => m.enter f args) (fun _ => rfl) inner
  · intro m
    by_cases h : large.calls ≤ m.calls
    · exact .inl ⟨_, Eval.activate_of_le h⟩
    · exact .inr (Eval.activate_of_lt (Nat.not_le.1 h))
  · intro m
    by_cases h : small.calls ≤ m.calls
    · exact .inl ⟨_, .inl rfl, Eval.activate_of_le h⟩
    · have lt := Nat.not_le.1 h
      exact .inr ⟨Eval.activate_of_lt lt, Eval.activate_of_lt (Nat.lt_of_lt_of_le lt calls)⟩

theorem cutShort_simulation (calls : small.calls ≤ large.calls)
    (levels : small.levels ≤ large.levels) : Simulation small large (Run.CutShort small) where
  primitive h := .refl h.appends
  bind hx hf := hx.bind hf
  deeper hx := cutShort_deeper levels hx
  activate f args block := cutShort_activate calls f args block

end Larger

/-- With less fuel an evaluation is cut short, too. -/
theorem evaluator_cutShort {large : Limits} (n' : Nat) : ∀ {small : Limits} {n : Nat},
    small.calls ≤ large.calls → small.levels ≤ large.levels → n ≤ n' →
      Evaluator.Related (Run.CutShort small) (evaluator small n) (evaluator large n') := by
  induction n' with
  | zero =>
    intro small n _ _ hn
    obtain rfl := Nat.le_zero.1 hn
    have none {α : Type} : (throw .outOfFuel : Run Console α).Appends :=
      Run.appends_of_host fun _ => rfl
    exact ⟨fun _ _ => .outOfFuel none, fun _ _ => .outOfFuel none⟩
  | succ n' ih =>
    intro small n calls levels hn
    cases n with
    | zero =>
      -- The run without fuel stops at once; what the other one writes is known from comparing it
      -- with itself, which is why the smaller limits are not fixed in the induction.
      have same := (cutShort_simulation (Nat.le_refl _) (Nat.le_refl _)).evaluator_succ
        (ih (Nat.le_refl large.calls) (Nat.le_refl large.levels) (Nat.le_refl n'))
      exact ⟨fun e s => .outOfFuel (same.expr e s).appends,
        fun body s => .outOfFuel (same.block body s).appends⟩
    | succ n =>
      exact (cutShort_simulation calls levels).evaluator_succ
        (ih calls levels (Nat.le_of_succ_le_succ hn))

theorem Program.exec_cutShort {small large : Limits} (calls : small.calls ≤ large.calls)
    (levels : small.levels ≤ large.levels) (p : Program) :
    Run.CutShort small (p.exec small) (p.exec large) := by
  have related := evaluator_cutShort (large.levels + 1) calls levels (Nat.succ_le_succ levels)
  exact (cutShort_simulation calls levels).exec related p

namespace Session

theorem machine_run {H : Type} [Host H] (limits : Limits) (m : Machine H) (p : Program) :
    (run ⟨limits, m⟩ p).2.machine = (p.exec limits).final m := by
  cases h : p.exec limits m with
  | ok v last => simp only [run, Run.final, h]
  | error e last => cases e <;> simp only [run, Run.final, h]

theorem result_of_stop {limits : Limits} {m last : Machine Console} {p : Program} {e : Halt}
    (h : p.exec limits m = .error e last) (stop : limits.Stop e) :
    (run ⟨limits, m⟩ p).1 = .error (.recursionLimit limits.calls) ∨
      (run ⟨limits, m⟩ p).1 = .error (.stackOverflow limits.levels) := by
  obtain rfl | rfl | rfl := stop
  · left
    simp only [run, h]
  · right
    simp only [run, h]
  · right
    simp only [run, h]

theorem result_of_exec_eq {small large : Limits} {m : Machine Console} {p : Program}
    (same : p.exec small m = p.exec large m)
    (fuel : (run ⟨small, m⟩ p).1 ≠ .error (.stackOverflow small.levels)) :
    (run ⟨large, m⟩ p).1 = (run ⟨small, m⟩ p).1 := by
  cases h : p.exec small m with
  | ok v last => simp only [run, ← same, h]
  | error e last =>
    cases e with
    | error e => simp only [run, ← same, h]
    | outOfFuel =>
      simp only [run, h] at fuel
      exact absurd rfl fuel

/-- A run that no limit stops has the same result and leaves the same machine behind under larger
limits. A run that a limit stops has written a part of what it writes under larger limits. -/
theorem run_larger_limits {small large : Limits} (calls : small.calls ≤ large.calls)
    (levels : small.levels ≤ large.levels) (m : Machine Console) (p : Program) :
    let cut := run ⟨small, m⟩ p
    let full := run ⟨large, m⟩ p
    (cut.1 ≠ .error (.recursionLimit small.calls) → cut.1 ≠ .error (.stackOverflow small.levels) →
      full.1 = cut.1 ∧ full.2.machine = cut.2.machine) ∧
    (cut.1 = .error (.recursionLimit small.calls) ∨ cut.1 = .error (.stackOverflow small.levels) →
      cut.2.machine.written <+: full.2.machine.written) := by
  intro cut full
  have machine : cut.2.machine = (p.exec small).final m := machine_run small m p
  have machine' : full.2.machine = (p.exec large).final m := machine_run large m p
  obtain same | ⟨e, last, h, stop, written⟩ := (Program.exec_cutShort calls levels p).agrees m
  · have machines : full.2.machine = cut.2.machine := by
      rw [machine, machine', Run.final, Run.final, same]
    refine ⟨fun _ fuel => ⟨result_of_exec_eq same fuel, machines⟩, fun _ => ?_⟩
    rewrite [machines]
    exact List.prefix_refl _
  · constructor
    · intro recursion overflow
      obtain stopped | stopped := result_of_stop h stop
      · exact absurd stopped recursion
      · exact absurd stopped overflow
    · intro _
      rw [machine, machine', Run.final_of_error h]
      exact written

/-- A function that writes its argument and then calls itself, without end. -/
def endless : Program :=
  [.verse "f" ["n"]
    [.expr (.call "flow" [.identifier "n"]),
      .expr (.call "f" [.binary (.identifier "n") .add (.literal (.int 1))])],
    .expr (.call "f" [.literal (.int 0)])]

theorem run_larger_limits_endless :
    (run ⟨⟨1, 20⟩, .start ({} : Console)⟩ endless).1 = .error (.recursionLimit 1) ∧
      (run ⟨⟨1, 20⟩, .start ({} : Console)⟩ endless).2.machine.written <+:
        (run ⟨⟨2, 20⟩, .start ({} : Console)⟩ endless).2.machine.written ∧
      (run ⟨⟨1, 20⟩, .start (Console.ofInput ["x"])⟩ [.ret (some (.call "listen" []))]).1 =
        .ok (some (.text "x")) ∧
      (run ⟨⟨2, 20⟩, .start (Console.ofInput ["x"])⟩ [.ret (some (.call "listen" []))]).1 =
        .ok (some (.text "x")) := by
  have stopped : (run ⟨⟨1, 20⟩, .start ({} : Console)⟩ endless).1 = .error (.recursionLimit 1) := by
    cbv
  have finished :
      (run ⟨⟨1, 20⟩, .start (Console.ofInput ["x"])⟩ [.ret (some (.call "listen" []))]).1 =
        .ok (some (.text "x")) := by cbv
  have larger (m : Machine Console) (p : Program) :=
    @run_larger_limits ⟨1, 20⟩ ⟨2, 20⟩ (by decide) (by decide) m p
  refine ⟨stopped, (larger _ endless).2 (.inl stopped), finished, ?_⟩
  obtain ⟨same, -⟩ := (larger (.start (Console.ofInput ["x"])) [.ret (some (.call "listen" []))]).1
    (by simp [finished]) (by simp [finished])
  exact same.trans finished

end Session

end CypherLang
