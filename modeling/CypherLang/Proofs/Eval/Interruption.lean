import CypherLang.Proofs.Eval.Limits
import CypherLang.Proofs.Eval.Points

namespace CypherLang

/-- The machine with the request `n` of the routine set to fail. -/
def Machine.failingAt (m : Machine Console) (b : Builtin) (n : Nat) : Machine Console :=
  { m with host := m.host.failingAt b n }

namespace Run

/-- The same end of a run on a host on which a request is set to fail. -/
def failingAt (b : Builtin) (n : Nat) :
    EStateM.Result Halt (Machine Console) α → EStateM.Result Halt (Machine Console) α
  | .ok a last => .ok a (last.failingAt b n)
  | .error e last => .error e (last.failingAt b n)

/-- The run on `m` makes no request of the routine after the first `n`, and it does the same on a
host on which the next one is set to fail. -/
structure Spared (b : Builtin) (n : Nat) (x : Run Console α) (m : Machine Console) : Prop where
  count : (x.final m).host.count b ≤ n
  same : x (m.failingAt b n) = failingAt b n (x m)

/-- The run on `m` makes another request of the routine after the first `n`. On a host on which
that one is set to fail it comes to the same host `c` and ends there. -/
structure Cut (b : Builtin) (n : Nat) (x : Run Console α) (m : Machine Console) (c : Console)
    (last : Machine Console) : Prop where
  count : n < (x.final m).host.count b
  fails : x (m.failingAt b n) = .error (.error (.io b.complaint)) last
  before : m.host.Leads c
  after : c.Leads (x.final m).host
  reached : c.count b = n
  host : last.host = (c.refused b).failingAt b n

/-- A run that does nothing to the host but make requests, and that ends at one that fails. -/
structure Interruptible (b : Builtin) (n : Nat) (x : Run Console α) : Prop where
  leads : ∀ m : Machine Console, m.host.Leads (x.final m).host
  ends : ∀ m : Machine Console, m.host.Ready b n → x.Spared b n m ∨ ∃ c last, x.Cut b n m c last

variable {b : Builtin} {n : Nat} {x : Run Console α} {m : Machine Console}

/-- A run on which the host has no influence and which does nothing to it. -/
theorem interruptible_of_host (host : ∀ m, (x.final m).host = m.host)
    (same : ∀ m, x (m.failingAt b n) = failingAt b n (x m)) : x.Interruptible b n := by
  constructor
  · intro m
    rw [host]
    exact .refl
  · intro m ready
    refine .inl ⟨?_, same m⟩
    rw [host]
    exact ready.count

/-- A run that consists of a single request. -/
theorem interruptible_hostCall {f : Console → Except String α × Console} {r : Builtin}
    (asked : ∀ c : Console, c.Asked (f c).2) (counts : ∀ c, (f c).2.count r = c.count r + 1)
    (others : ∀ c, r ≠ b → (f c).2.count b = c.count b)
    (refused : ∀ c : Console, c.Ready b n → r = b → c.count b = n →
      f (c.failingAt b n) = (.error b.complaint, (c.refused b).failingAt b n))
    (served : ∀ c : Console, c.Ready b n → (r = b → c.count b ≠ n) →
      f (c.failingAt b n) = ((f c).1, (f c).2.failingAt b n)) :
    (hostCall f).Interruptible b n := by
  have host (m : Machine Console) : ((hostCall f).final m).host = (f m.host).2 :=
    final_hostCall f m
  constructor
  · intro m
    rw [host]
    exact .single (asked m.host)
  · intro m ready
    by_cases next : r = b ∧ m.host.count b = n
    · obtain ⟨rfl, reached⟩ := next
      right
      refine ⟨m.host, { m with host := (m.host.refused r).failingAt r n }, ?_⟩
      exact {
        count := by rw [host, counts, reached]; exact Nat.lt_succ_self n
        fails := hostCall_of_error (m := m.failingAt r n) (refused _ ready rfl reached)
        before := .refl
        after := by rw [host]; exact .single (asked m.host)
        reached
        host := rfl }
    · left
      constructor
      · rw [host]
        by_cases same : r = b
        · have := ready.count
          have waits : m.host.count b ≠ n := fun reached => next ⟨same, reached⟩
          rw [← same, counts, same]
          omega
        · rw [others _ same]
          exact ready.count
      · have answer := served m.host ready fun same reached => next ⟨same, reached⟩
        rcases result : f m.host with ⟨reason | a, c⟩
        · rw [result] at answer
          rw [hostCall_of_error result]
          exact hostCall_of_error (m := m.failingAt b n) answer
        · rw [result] at answer
          rw [hostCall_of_ok result]
          exact hostCall_of_ok (m := m.failingAt b n) answer

theorem interruptible_write (line : String) :
    (hostCall fun c => c.write line).Interruptible b n := by
  refine interruptible_hostCall (r := .flow) (fun c => .write line)
    (fun c => c.writes_write line) ?_ ?_ ?_
  · intro c other
    cases b with
    | flow => exact absurd rfl other
    | listen => exact (c.frame_write line).2.1
  · rintro c ready rfl rfl
    exact Console.write_refused line
  · intro c ready other
    refine Console.write_failingAt ready ?_ line
    rintro rfl
    exact other rfl

theorem interruptible_read : (hostCall Console.read).Interruptible b n := by
  refine interruptible_hostCall (r := .listen) (fun c => .read) (fun c => c.reads_read) ?_ ?_ ?_
  · intro c other
    cases b with
    | flow => exact c.frame_read.2.1
    | listen => exact absurd rfl other
  · rintro c ready rfl rfl
    exact Console.read_refused
  · intro c ready other
    refine Console.read_failingAt ready ?_
    rintro rfl
    exact other rfl

theorem Primitive.interruptible (h : x.Primitive) : x.Interruptible b n := by
  cases h with
  | lookup s name =>
    apply interruptible_of_host
    · intro m
      cases found : m.store.get? s name with
      | some v => rw [final_of_ok (lookup_of_some found)]
      | none => rw [final_of_error (lookup_of_none found)]
    · intro m
      cases found : m.store.get? s name with
      | some v =>
        rw [lookup_of_some found]
        exact lookup_of_some (m := m.failingAt b n) found
      | none =>
        rw [lookup_of_none found]
        exact lookup_of_none (m := m.failingAt b n) found
  | assign s name v =>
    apply interruptible_of_host
    · intro m
      cases owner : m.store.owner? s name with
      | some o => rw [final_of_ok (assign_of_some v owner)]
      | none => rw [final_of_error (assign_of_none v owner)]
    · intro m
      cases owner : m.store.owner? s name with
      | some o =>
        rw [assign_of_some v owner]
        exact assign_of_some (m := m.failingAt b n) v owner
      | none =>
        rw [assign_of_none v owner]
        exact assign_of_none (m := m.failingAt b n) v owner
  | write line => exact interruptible_write line
  | read => exact interruptible_read
  | _ => exact interruptible_of_host (fun _ => rfl) fun _ => rfl

/-- What follows in a sequence only makes more requests. -/
theorem leads_bind (x : Run Console α) {f : α → Run Console β}
    (hf : ∀ a, (f a).Interruptible b n) (m : Machine Console) :
    (x.final m).host.Leads ((x >>= f).final m).host := by
  cases h : x m with
  | ok a last =>
    rw [final_of_ok h, final_bind_of_ok h]
    exact (hf a).leads last
  | error e last =>
    rw [final_of_error h, final_of_error (bind_of_error h)]
    exact .refl

namespace Interruptible

/-- A run that has been spared is followed by another one. -/
theorem bind_spared {f : α → Run Console β} (hx : x.Interruptible b n)
    (hf : ∀ a, (f a).Interruptible b n) (ready : m.host.Ready b n) (spared : x.Spared b n m) :
    (x >>= f).Spared b n m ∨ ∃ c last, (x >>= f).Cut b n m c last := by
  have leads := hx.leads m
  obtain ⟨count, same⟩ := spared
  cases h : x m with
  | error e m' =>
    rw [h] at same
    rw [final_of_error h] at count
    have whole : (x >>= f) m = .error e m' := bind_of_error h
    refine .inl ⟨?_, ?_⟩
    · rw [final_of_error whole]
      exact count
    · rw [whole]
      exact bind_of_error same
  | ok a m' =>
    rw [h] at same
    rw [final_of_ok h] at count leads
    have whole : (x >>= f) m = f a m' := bind_of_ok h
    have failing : (x >>= f) (m.failingAt b n) = f a (m'.failingAt b n) := bind_of_ok same
    have final : (x >>= f).final m = (f a).final m' := final_bind_of_ok h
    have ready' : m'.host.Ready b n := ⟨leads.failing.trans ready.failing, count⟩
    rcases (hf a).ends m' ready' with ⟨count, same⟩ | ⟨c, last, cut⟩
    · left
      exact ⟨by rwa [final], by rw [failing, whole, same]⟩
    · right
      exact ⟨c, last, {
        count := by rw [final]; exact cut.count
        fails := failing.trans cut.fails
        before := leads.trans cut.before
        after := by rw [final]; exact cut.after
        reached := cut.reached
        host := cut.host }⟩

theorem bind {f : α → Run Console β} (hx : x.Interruptible b n)
    (hf : ∀ a, (f a).Interruptible b n) : (x >>= f).Interruptible b n := by
  have more := leads_bind x hf
  refine ⟨fun m => (hx.leads m).trans (more m), fun m ready => ?_⟩
  rcases hx.ends m ready with spared | ⟨c, last, cut⟩
  · exact hx.bind_spared hf ready spared
  · right
    exact ⟨c, last, {
      count := Nat.lt_of_lt_of_le cut.count (more m).count_le
      fails := bind_of_error cut.fails
      before := cut.before
      after := cut.after.trans (more m)
      reached := cut.reached
      host := cut.host }⟩

/-- Nothing that is done at the end of a run has to do with the host. -/
theorem ensuring (hx : x.Interruptible b n) (after : Option α → Machine Console → Machine Console)
    (host : ∀ c last, (after c last).host = last.host)
    (same : ∀ c last, after c (last.failingAt b n) = (after c last).failingAt b n) :
    (ensuring after x).Interruptible b n := by
  have final (m : Machine Console) : ((Run.ensuring after x).final m).host = (x.final m).host := by
    cases h : x m with
    | ok a last => rw [final_of_ok h, final_of_ok (ensuring_of_ok h), host]
    | error e last => rw [final_of_error h, final_of_error (ensuring_of_error h), host]
  constructor
  · intro m
    rw [final]
    exact hx.leads m
  · intro m ready
    rcases hx.ends m ready with ⟨count, agrees⟩ | ⟨c, last, cut⟩
    · refine .inl ⟨by rwa [final], ?_⟩
      cases h : x m with
      | ok a last =>
        rw [h] at agrees
        rw [ensuring_of_ok agrees, ensuring_of_ok h, same]
        rfl
      | error e last =>
        rw [h] at agrees
        rw [ensuring_of_error agrees, ensuring_of_error h, same]
        rfl
    · right
      exact ⟨c, after none last, {
        count := by rw [final]; exact cut.count
        fails := ensuring_of_error cut.fails
        before := cut.before
        after := by rw [final]; exact cut.after
        reached := cut.reached
        host := (host none last).trans cut.host }⟩

/-- A run that does not start, or that starts as another one on a machine with the same host. -/
theorem opened {inner : Machine Console → Run Console α} (next : Machine Console → Machine Console)
    (within : ∀ m, (inner m).Interruptible b n) (host : ∀ m, (next m).host = m.host)
    (opens : ∀ m : Machine Console,
      (∃ e, x m = .error e m ∧ x (m.failingAt b n) = .error e (m.failingAt b n)) ∨
        x m = inner m (next m) ∧ x (m.failingAt b n) = inner m ((next m).failingAt b n)) :
    x.Interruptible b n := by
  constructor
  · intro m
    rcases opens m with ⟨e, stops, -⟩ | ⟨starts, -⟩
    · rw [final_of_error stops]
      exact .refl
    · rw [final, starts, ← host m]
      exact (within m).leads (next m)
  · intro m ready
    rcases opens m with ⟨e, stops, failing⟩ | ⟨starts, failing⟩
    · refine .inl ⟨?_, ?_⟩
      · rw [final_of_error stops]
        exact ready.count
      · rw [stops, failing]
        rfl
    · have final : x.final m = (inner m).final (next m) := by
        unfold Run.final
        rw [starts]
      rw [← host m] at ready
      rcases (within m).ends (next m) ready with ⟨count, same⟩ | ⟨c, last, cut⟩
      · left
        exact ⟨by rwa [final], by rw [failing, starts, same]⟩
      · right
        exact ⟨c, last, {
          count := by rw [final]; exact cut.count
          fails := failing.trans cut.fails
          before := by rw [← host m]; exact cut.before
          after := by rw [final]; exact cut.after
          reached := cut.reached
          host := cut.host }⟩

end Interruptible

end Run

section Evaluation

variable {limits : Limits} {b : Builtin} {n : Nat}

theorem interruptible_deeper {x : Run Console α} (hx : x.Interruptible b n) :
    (Run.deeper limits x).Interruptible b n := by
  have inner := hx.ensuring (fun _ m => { m with levels := m.levels - 1 })
    (fun _ _ => rfl) fun _ _ => rfl
  refine Run.Interruptible.opened Machine.descend (fun _ => inner) (fun _ => rfl) ?_
  intro m
  by_cases room : limits.levels ≤ m.levels
  · exact .inl ⟨_, Run.deeper_of_le room, Run.deeper_of_le (m := m.failingAt b n) room⟩
  · have room := Nat.not_le.1 room
    exact .inr ⟨Run.deeper_of_lt room, Run.deeper_of_lt (m := m.failingAt b n) room⟩

theorem interruptible_activate {below : Evaluator Console} (f : Closure) (args : List Value)
    (block : ∀ body s, (below.block body s).Interruptible b n) :
    (Eval.activate limits below f args).Interruptible b n := by
  have inner (m : Machine Console) := (block f.body m.store.scopes.size).ensuring m.leave
    (fun _ _ => rfl) fun _ _ => rfl
  refine Run.Interruptible.opened (fun m => m.enter f args) inner (fun _ => rfl) ?_
  intro m
  by_cases room : limits.calls ≤ m.calls
  · exact .inl ⟨_, Eval.activate_of_le room, Eval.activate_of_le (m := m.failingAt b n) room⟩
  · have room := Nat.not_le.1 room
    exact .inr ⟨Eval.activate_of_lt room, Eval.activate_of_lt (m := m.failingAt b n) room⟩

theorem interruptible_simulation :
    Simulation limits limits fun x _ => x.Interruptible b n where
  primitive h := h.interruptible
  bind hx hf := hx.bind hf
  deeper hx := interruptible_deeper hx
  activate f args block := interruptible_activate f args block

theorem interruptible_evaluator (limits : Limits) (fuel : Nat) :
    Evaluator.Related (fun x _ => x.Interruptible b n) (evaluator limits fuel)
      (evaluator limits fuel) := by
  induction fuel with
  | zero =>
    have none {α : Type} : (throw .outOfFuel : Run Console α).Interruptible b n :=
      Run.interruptible_of_host (fun _ => rfl) fun _ => rfl
    exact ⟨fun _ _ => none, fun _ _ => none⟩
  | succ fuel ih => exact interruptible_simulation.evaluator_succ ih

theorem Task.interruptible (limits : Limits) (fuel : Nat) (t : Task) :
    (t.run limits fuel).Interruptible b n :=
  interruptible_simulation.task (interruptible_evaluator limits fuel) t

theorem Program.interruptible (limits : Limits) (p : Program) :
    (p.exec limits).Interruptible b n :=
  interruptible_simulation.exec (interruptible_evaluator limits (limits.levels + 1)) p

end Evaluation

section Places

variable {limits : Limits} {b : Builtin} {n : Nat}

/-- What succeeds on a host on which a request is set to fail has not come to that request. -/
theorem Run.Interruptible.of_ok {x : Run Console α} {m last : Machine Console} {a : α}
    (hx : x.Interruptible b n) (ready : m.host.Ready b n) (ran : x (m.failingAt b n) = .ok a last) :
    ∃ m', last = m'.failingAt b n ∧ x m = .ok a m' ∧ m'.host.Ready b n := by
  rcases hx.ends m ready with ⟨count, same⟩ | ⟨_, _, cut⟩
  · have leads := hx.leads m
    rw [ran] at same
    cases h : x m with
    | ok a' m' =>
      rw [h] at same
      cases same
      rw [Run.final_of_ok h] at count leads
      exact ⟨m', rfl, rfl, leads.failing.trans ready.failing, count⟩
    | error e m' =>
      rw [h] at same
      cases same
  · have fails := cut.fails
    rw [ran] at fails
    cases fails

namespace Moment

/-- The same task on a machine on which a request is set to fail. -/
def failingAt (p : Moment Console) (b : Builtin) (n : Nat) : Moment Console :=
  { p with machine := p.machine.failingAt b n }

/-- A task starts the same ones as long as it does not come to the request that is set to fail. -/
theorem Calls.of_failingAt {p q : Moment Console} (calls : (p.failingAt b n).Calls limits q)
    (ready : p.machine.host.Ready b n) :
    ∃ p', q = p'.failingAt b n ∧ p.Calls limits p' ∧ p'.machine.host.Ready b n := by
  obtain ⟨fuel, t, m⟩ := p
  change Calls limits ⟨fuel, t, m.failingAt b n⟩ q at calls
  have ran {t : Task} {fuel : Nat} {a : t.Result} {last : Machine Console}
      (h : t.run limits fuel (m.failingAt b n) = .ok a last) :
      ∃ m', last = m'.failingAt b n ∧ t.run limits fuel m = .ok a m' ∧ m'.host.Ready b n :=
    (Task.interruptible limits fuel t).of_ok ready h
  cases calls with
  | exprLevel room => exact ⟨⟨_, _, m.descend⟩, rfl, .exprLevel room, ready⟩
  | left => exact ⟨⟨_, _, m⟩, rfl, .left, ready⟩
  | @right _ l _ _ s _ _ _ h =>
    obtain ⟨m', rfl, h, ready⟩ := ran (t := .expr l s) h
    exact ⟨⟨_, _, m'⟩, rfl, .right h, ready⟩
  | operand => exact ⟨⟨_, _, m⟩, rfl, .operand, ready⟩
  | call => exact ⟨⟨_, _, m⟩, rfl, .call, ready⟩
  | arguments found accepts => exact ⟨⟨_, _, m⟩, rfl, .arguments found accepts, ready⟩
  | firstArgument => exact ⟨⟨_, _, m⟩, rfl, .firstArgument, ready⟩
  | @moreArguments _ e _ s _ _ _ h =>
    obtain ⟨m', rfl, h, ready⟩ := ran (t := .expr e s) h
    exact ⟨⟨_, _, m'⟩, rfl, .moreArguments h, ready⟩
  | @activation _ _ args s _ _ _ _ found arity h =>
    obtain ⟨m', rfl, h, ready⟩ := ran h
    exact ⟨⟨_, _, m'⟩, rfl, .activation found arity h, ready⟩
  | @body _ f vs _ room => exact ⟨⟨_, _, m.enter f vs⟩, rfl, .body room, ready⟩
  | blockLevel room => exact ⟨⟨_, _, m.descend⟩, rfl, .blockLevel room, ready⟩
  | first => exact ⟨⟨_, _, m⟩, rfl, .first, ready⟩
  | more h =>
    obtain ⟨m', rfl, h, ready⟩ := ran h
    exact ⟨⟨_, _, m'⟩, rfl, .more h, ready⟩
  | value operand => exact ⟨⟨_, _, m⟩, rfl, .value operand, ready⟩
  | @branch _ c _ _ _ s _ _ _ h chosen =>
    obtain ⟨m', rfl, h, ready⟩ := ran (t := .expr c s) h
    exact ⟨⟨_, _, m'.withScope s⟩, rfl, .branch h chosen, ready⟩

theorem Reaches.of_failingAt {p q : Moment Console} (reaches : (p.failingAt b n).Reaches limits q)
    (ready : p.machine.host.Ready b n) :
    ∃ p', q = p'.failingAt b n ∧ p.Reaches limits p' ∧ p'.machine.host.Ready b n := by
  induction reaches with
  | refl => exact ⟨p, rfl, .refl, ready⟩
  | tail _ calls ih =>
    obtain ⟨p', rfl, reaches, ready⟩ := ih
    obtain ⟨q', same, calls, ready⟩ := calls.of_failingAt ready
    exact ⟨q', same, reaches.tail calls, ready⟩

theorem Asks.of_failingAt {p : Moment Console} {r : Builtin} {vs : List Value} {c : Console}
    (asks : (p.failingAt b n).Asks limits r vs c) (ready : p.machine.host.Ready b n) :
    ∃ c', c = c'.failingAt b n ∧ p.Asks limits r vs c' ∧ c'.Ready b n := by
  obtain ⟨name, args, s, last, task, found, ran, rfl⟩ := asks
  have interruptible := Task.interruptible limits p.fuel (.arguments args s) (b := b) (n := n)
  obtain ⟨m', rfl, ran, ready⟩ := interruptible.of_ok ready ran
  exact ⟨m'.host, rfl, ⟨name, args, s, m', task, found, ran, rfl⟩, ready⟩

end Moment

/-- A program comes to the same moments as long as it does not come to the request that is set to
fail. -/
theorem Program.Comes.of_failingAt {p : Program} {m : Machine Console} {q : Moment Console}
    (comes : p.Comes limits (m.failingAt b n) q) (ready : m.host.Ready b n) :
    ∃ q', q = q'.failingAt b n ∧ p.Comes limits m q' ∧ q'.machine.host.Ready b n := by
  have starts {first : Moment Console} (starts : p.Starts limits (m.failingAt b n) first) :
      ∃ q', first = q'.failingAt b n ∧ p.Starts limits m q' ∧ q'.machine.host.Ready b n := by
    cases starts with
    | statements => exact ⟨_, rfl, .statements, ready⟩
    | entry ran bound =>
      let logged := { m with log := m.log.add (.executing p.length) }
      have interruptible :=
        Task.interruptible limits (limits.levels + 1) (.block p m.globals) (b := b) (n := n)
      obtain ⟨m', rfl, ran, ready⟩ := interruptible.of_ok (m := logged) ready ran
      exact ⟨⟨_, _, { m' with log := m'.log.add .dispatching }⟩, rfl, .entry ran bound, ready⟩
  obtain ⟨first, begun, reaches⟩ := comes
  obtain ⟨first, rfl, begun, ready⟩ := starts begun
  obtain ⟨q', same, reaches, ready⟩ := reaches.of_failingAt ready
  exact ⟨q', same, ⟨first, begun, reaches⟩, ready⟩

/-- A request is counted also if it is refused. -/
theorem Builtin.Refused.count {r : Builtin} {vs : List Value} {c c' : Console} {reason : String}
    (refused : r.Refused c reason c' vs) : c'.count b = c.count b + if r = b then 1 else 0 := by
  cases r with
  | flow =>
    have result : (c.write (" ".intercalate (vs.map Value.display))).2 = c' :=
      congrArg Prod.snd refused
    rw [← result]
    cases b with
    | flow => exact Console.writes_write ..
    | listen => exact (Console.frame_write ..).2.1
  | listen =>
    have result : c.read.2 = c' := congrArg Prod.snd refused.2
    rw [← result]
    cases b with
    | flow => exact (Console.frame_read ..).2.1
    | listen => exact Console.reads_read ..

/-- A refusal with which the request `n` of the routine has been made is the refusal of that
request. -/
theorem Builtin.Refused.of_failingAt {r : Builtin} {vs : List Value} {c c' : Console}
    {reason : String} (refused : r.Refused (c.failingAt b n) reason c' vs) (ready : c.Ready b n)
    (made : c'.count b = n + 1) :
    r = b ∧ c.count b = n ∧ c' = (c.refused b).failingAt b n ∧ (b = .listen → vs = []) := by
  have within := ready.count
  have count := refused.count (b := b)
  rw [made, Console.count_failingAt] at count
  by_cases same : r = b
  · subst same
    have reached : c.count r = n := by
      rw [if_pos rfl] at count
      omega
    refine ⟨rfl, reached, ?_⟩
    cases r with
    | flow =>
      subst reached
      exact ⟨congrArg Prod.snd (refused.symm.trans (Console.write_refused _)), nofun⟩
    | listen =>
      subst reached
      exact ⟨congrArg Prod.snd (refused.2.symm.trans Console.read_refused), fun _ => refused.1⟩
  · rw [if_neg same] at count
    omega

/-- The run of a program that is cut short is cut short at a call of the routine. -/
theorem Program.exists_asks {p : Program} {m last : Machine Console} {c : Console}
    (ready : m.host.Ready b n) (cut : (p.exec limits).Cut b n m c last) :
    ∃ q vs c', p.Comes limits m q ∧ q.Asks limits b vs c' ∧ (b = .listen → vs = []) ∧
      c'.count b = n ∧ last.host = (c'.refused b).failingAt b n := by
  have failed : (p.exec limits).fault? (m.failingAt b n) =
      some (.error (.io b.complaint), last.host) := by
    rw [Run.fault?, cut.fails]
  have made : last.host.count b = n + 1 := by
    rw [cut.host, Console.count_failingAt, Console.count_refused, cut.reached]
  obtain ⟨first, starts, failed⟩ := fault?_exec failed
  obtain ⟨q', reaches, faults⟩ := Moment.exists_faults first failed
  have comes : p.Comes limits (m.failingAt b n) q' := ⟨first, starts, reaches⟩
  obtain ⟨q, rfl, located, ready⟩ := comes.of_failingAt ready
  cases faults with
  | raised raises => exact raises.limited.elim
  | complaint complaint => exact complaint.elim
  | @refused r vs c₁ _ asks refused _ =>
    obtain ⟨c', rfl, asked, ready⟩ := asks.of_failingAt ready
    obtain ⟨rfl, reached, host, empty⟩ := refused.of_failingAt ready made
    exact ⟨q, vs, c', located, asked, empty, reached, host⟩

end Places

namespace Session

/-- A program on a host on which a request of a routine is set to fail, which is the one after
the next `n`. If the program does not make it, then nothing is different. If it does, then the run
is the same up to that request and ends there, on the host as it was then: with the lines that
were written before, and with what was left to read. -/
theorem run_failing_request (limits : Limits) (m : Machine Console) (p : Program) (b : Builtin)
    (n : Nat) (reliable : m.host.failing b = none) :
    let number := m.host.count b + n
    let full := run ⟨limits, m⟩ p
    let cut := run ⟨limits, m.failingAt b number⟩ p
    (full.2.machine.host.count b ≤ number →
      cut.1 = full.1 ∧ cut.2.machine = full.2.machine.failingAt b number) ∧
    (number < full.2.machine.host.count b →
      cut.1 = .error (.io b.complaint) ∧
      (∃ q vs c, p.Comes limits m q ∧ q.Asks limits b vs c ∧ (b = .listen → vs = []) ∧
        c.count b = number ∧ cut.2.machine.host = (c.refused b).failingAt b number) ∧
      cut.2.machine.written <+: full.2.machine.written ∧
      (b = .flow → cut.2.machine.written = full.2.machine.written.take (m.written.length + n)) ∧
      (b = .listen → cut.2.machine.host.input = m.host.input.drop n)) := by
  intro number full cut
  have ready : m.host.Ready b number := ⟨reliable, Nat.le_add_right _ n⟩
  have machine : full.2.machine = (p.exec limits).final m := machine_run limits m p
  have machine' : cut.2.machine = (p.exec limits).final (m.failingAt b number) :=
    machine_run limits _ p
  rw [machine, machine']
  rcases (p.interruptible limits).ends m ready with ⟨count, same⟩ | ⟨c, last, stopped⟩
  · refine ⟨fun _ => ?_, fun more => absurd count (Nat.not_le.2 more)⟩
    have result : cut.1 = full.1 := by
      dsimp only [cut, full, run]
      rw [same]
      rcases p.exec limits m with ⟨v, last⟩ | ⟨_ | _, last⟩ <;> rfl
    refine ⟨result, ?_⟩
    unfold Run.final
    rw [same]
    cases p.exec limits m <;> rfl
  · refine ⟨fun few => absurd few (Nat.not_le.2 stopped.count), fun _ => ?_⟩
    have result : cut.1 = .error (.io b.complaint) := by
      dsimp only [cut, run]
      rw [stopped.fails]
    have output : last.host.output = c.output := by
      rw [stopped.host, Console.output_failingAt, Console.output_refused]
    have kept : last.written <+: ((p.exec limits).final m).written := by
      unfold Machine.written
      rw [output]
      exact stopped.after.output
    rw [Run.final_of_error stopped.fails]
    refine ⟨result, Program.exists_asks ready stopped, kept, ?_, ?_⟩
    · rintro rfl
      have written := stopped.before.writes reliable
      have length : last.written.length = m.written.length + n := by
        have reached : c.writes = m.host.writes + n := stopped.reached
        unfold Machine.written
        rw [output]
        omega
      rw [← length]
      exact List.prefix_iff_eq_take.1 kept
    · rintro rfl
      have taken := stopped.before.reads reliable
      have reached : c.reads = m.host.reads + n := stopped.reached
      rw [reached, Nat.add_sub_cancel_left] at taken
      rw [stopped.host]
      exact taken

/-- A program that writes, reads, writes what it has read and reads again. -/
def echo : Program :=
  [.expr (.call outputName [.literal (.text "a")]),
    .expr (.call outputName [.call "listen" []]), .expr (.call "listen" [])]

/-- Its second write fails, or else its first read. -/
theorem run_failing_request_echo :
    let m := Machine.start (.ofInput ["x", "y"])
    let full := run ⟨⟨1, 8⟩, m⟩ echo
    let unwritten := run ⟨⟨1, 8⟩, m.failingAt .flow 1⟩ echo
    let unread := run ⟨⟨1, 8⟩, m.failingAt .listen 0⟩ echo
    full.1 = .ok none ∧ full.2.machine.written = ["a", "x"] ∧
      unwritten.1 = .error (.io "host write failed") ∧ unwritten.2.machine.written = ["a"] ∧
      unread.1 = .error (.io "host read failed") ∧ unread.2.machine.written <+: ["a", "x"] ∧
        unread.2.machine.host.input = [.ok "x", .ok "y"] := by
  have finished : (run ⟨⟨1, 8⟩, .start (Console.ofInput ["x", "y"])⟩ echo).1 = .ok none := by cbv
  have written : (run ⟨⟨1, 8⟩, .start (Console.ofInput ["x", "y"])⟩ echo).2.machine.written =
      ["a", "x"] := by cbv
  have host : (run ⟨⟨1, 8⟩, .start (Console.ofInput ["x", "y"])⟩ echo).2.machine.host.writes = 2 ∧
      (run ⟨⟨1, 8⟩, .start (Console.ofInput ["x", "y"])⟩ echo).2.machine.host.reads = 2 := by cbv
  have failing := run_failing_request ⟨1, 8⟩ (.start (Console.ofInput ["x", "y"])) echo
  obtain ⟨refused, -, -, lines, -⟩ :=
    (failing .flow 1 rfl).2 (Nat.lt_of_lt_of_eq (Nat.lt_succ_self 1) host.1.symm)
  obtain ⟨refused', -, before, -, left⟩ :=
    (failing .listen 0 rfl).2 (Nat.lt_of_lt_of_eq Nat.two_pos host.2.symm)
  refine ⟨finished, written, refused, ?_, refused', ?_, left rfl⟩
  · exact (lines rfl).trans (congrArg (List.take 1) written)
  · exact written ▸ before

end Session

end CypherLang
