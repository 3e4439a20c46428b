import Mathlib
import CypherLang.Console
import CypherLang.Value

namespace CypherLang

/-- Why a request of the routine fails that is set to fail. -/
def Builtin.complaint : Builtin → String
  | flow => "host write failed"
  | listen => "host read failed"

namespace Console

variable {c c' : Console} {b b' : Builtin} {n : Nat}

/-- How many requests of the routine the console has been given. -/
def count (c : Console) : Builtin → Nat
  | .flow => c.writes
  | .listen => c.reads

/-- The number of the request of the routine that is set to fail. -/
def failing (c : Console) : Builtin → Option Nat
  | .flow => c.failingWrite
  | .listen => c.failingRead

/-- The console with the request `n` of the routine set to fail. -/
def failingAt (c : Console) (b : Builtin) (n : Nat) : Console :=
  match b with
  | .flow => { c with failingWrite := some n }
  | .listen => { c with failingRead := some n }

/-- The console after a request of the routine that has failed without effect. -/
def refused (c : Console) : Builtin → Console
  | .flow => { c with writes := c.writes + 1 }
  | .listen => { c with reads := c.reads + 1 }

@[simp]
theorem count_failingAt : (c.failingAt b n).count b' = c.count b' := by
  cases b <;> cases b' <;> rfl

@[simp]
theorem output_failingAt : (c.failingAt b n).output = c.output := by
  cases b <;> rfl

@[simp]
theorem count_refused : (c.refused b).count b = c.count b + 1 := by
  cases b <;> rfl

@[simp]
theorem output_refused : (c.refused b).output = c.output := by
  cases b <;> rfl

/-- No request of the routine is set to fail, and no more than `n` have been made. -/
structure Ready (b : Builtin) (n : Nat) (c : Console) : Prop where
  failing : c.failing b = none
  count : c.count b ≤ n

theorem output_write (c : Console) (line : String) :
    c.output.toList <+: (c.write line).2.output.toList := by
  unfold write
  by_cases h : c.failingWrite = some c.writes
  · rewrite [if_pos h]
    exact List.prefix_refl _
  · rw [if_neg h]
    simp

/-- A write on a console on which no write is set to fail. -/
theorem write_of_none (h : c.failingWrite = none) (line : String) :
    c.write line = (.ok (), { c with writes := c.writes + 1, output := c.output.push line }) := by
  simp [write, h]

theorem writes_write (c : Console) (line : String) : (c.write line).2.writes = c.writes + 1 := by
  unfold write
  split <;> rfl

theorem reads_read (c : Console) : c.read.2.reads = c.reads + 1 := by
  unfold read
  split
  · rfl
  · split <;> rfl

/-- A read takes the next line, if there is one, on a console on which no read is set to fail. -/
theorem input_read (h : c.failingRead = none) : c.read.2.input = c.input.drop 1 := by
  unfold read
  rw [h, if_neg nofun]
  split <;> simp [*]

/-- All that a write does not change. -/
theorem frame_write (c : Console) (line : String) :
    (c.write line).2.input = c.input ∧ (c.write line).2.reads = c.reads ∧
      (c.write line).2.failingWrite = c.failingWrite ∧
        (c.write line).2.failingRead = c.failingRead := by
  unfold write
  split <;> exact ⟨rfl, rfl, rfl, rfl⟩

/-- All that a read does not change. -/
theorem frame_read (c : Console) :
    c.read.2.output = c.output ∧ c.read.2.writes = c.writes ∧
      c.read.2.failingWrite = c.failingWrite ∧ c.read.2.failingRead = c.failingRead := by
  unfold read
  split
  · exact ⟨rfl, rfl, rfl, rfl⟩
  · split <;> exact ⟨rfl, rfl, rfl, rfl⟩

theorem output_read (c : Console) : c.read.2.output = c.output := c.frame_read.1

/-- On a console on which a request is set to fail, any other one is answered as before. -/
theorem write_failingAt (h : c.Ready b n) (other : b = .flow → c.writes ≠ n) (line : String) :
    (c.failingAt b n).write line = ((c.write line).1, (c.write line).2.failingAt b n) := by
  cases b with
  | flow =>
    have waits : ¬ some n = some c.writes := fun same => other rfl (Option.some.inj same).symm
    rw [write_of_none h.failing]
    exact if_neg waits
  | listen =>
    by_cases fails : c.failingWrite = some c.writes
    · simp [write, failingAt, fails]
    · simp [write, failingAt, fails]

theorem read_failingAt (h : c.Ready b n) (other : b = .listen → c.reads ≠ n) :
    (c.failingAt b n).read = (c.read.1, c.read.2.failingAt b n) := by
  cases b with
  | flow =>
    by_cases fails : c.failingRead = some c.reads
    · simp [read, failingAt, fails]
    · have waits : (c.failingAt .flow n).failingRead ≠ some (c.failingAt .flow n).reads := fails
      unfold read
      rw [if_neg fails, if_neg waits]
      rcases input : c.input with _ | ⟨line | reason, rest⟩ <;> simp [failingAt, input]
  | listen =>
    have waits : (c.failingAt .listen n).failingRead ≠ some (c.failingAt .listen n).reads :=
      fun same => other rfl (Option.some.inj same).symm
    have reliable : c.failingRead ≠ some c.reads := by
      rw [show c.failingRead = none from h.failing]
      exact Option.some_ne_none c.reads ∘ Eq.symm
    unfold read
    rw [if_neg reliable, if_neg waits]
    rcases input : c.input with _ | ⟨line | reason, rest⟩ <;> simp [failingAt, input]

/-- The request that is set to fail. -/
theorem write_refused (line : String) : (c.failingAt .flow c.writes).write line =
    (.error Builtin.flow.complaint, (c.refused .flow).failingAt .flow c.writes) :=
  if_pos rfl

theorem read_refused : (c.failingAt .listen c.reads).read =
    (.error Builtin.listen.complaint, (c.refused .listen).failingAt .listen c.reads) :=
  if_pos rfl

/-- What a single request makes of a console. -/
inductive Asked (c : Console) : Console → Prop
  | write (line : String) : Asked c (c.write line).2
  | read : Asked c c.read.2

/-- Requests lead from the first console to the second one. -/
def Leads : Console → Console → Prop := Relation.ReflTransGen Asked

theorem Asked.failing (h : c.Asked c') : c'.failing b = c.failing b := by
  cases h with
  | write line =>
    obtain ⟨-, -, forWrites, forReads⟩ := c.frame_write line
    cases b
    · exact forWrites
    · exact forReads
  | read =>
    obtain ⟨-, -, forWrites, forReads⟩ := c.frame_read
    cases b
    · exact forWrites
    · exact forReads

namespace Leads

theorem failing (h : c.Leads c') : c'.failing b = c.failing b := by
  induction h with
  | refl => rfl
  | tail _ asked ih => exact asked.failing.trans ih

theorem count_le (h : c.Leads c') : c.count b ≤ c'.count b := by
  induction h with
  | refl => exact Nat.le_refl _
  | @tail c₁ _ _ asked ih =>
    refine ih.trans ?_
    cases asked with
    | write line =>
      cases b
      · exact (Nat.le_succ _).trans_eq (c₁.writes_write line).symm
      · exact (c₁.frame_write line).2.1.ge
    | read =>
      cases b
      · exact c₁.frame_read.2.1.ge
      · exact (Nat.le_succ _).trans_eq c₁.reads_read.symm

theorem output (h : c.Leads c') : c.output.toList <+: c'.output.toList := by
  induction h with
  | refl => exact List.prefix_refl _
  | tail _ asked ih =>
    refine ih.trans ?_
    cases asked with
    | write line => exact output_write _ line
    | read => rw [output_read]

/-- As many lines have been added as there were writes. -/
theorem writes (h : c.Leads c') (reliable : c.failingWrite = none) :
    c'.output.toList.length + c.writes = c.output.toList.length + c'.writes := by
  induction h with
  | refl => rfl
  | @tail c₁ _ leads asked ih =>
    have reliable : c₁.failingWrite = none := (failing (b := .flow) leads).trans reliable
    cases asked with
    | write line =>
      rw [write_of_none reliable]
      simp only [Array.toList_push, List.length_append, List.length_singleton]
      omega
    | read =>
      obtain ⟨output, writes, -, -⟩ := c₁.frame_read
      rw [output, writes]
      exact ih

/-- As many lines have been taken, as long as there were any, as there were reads. -/
theorem reads (h : c.Leads c') (reliable : c.failingRead = none) :
    c'.input = c.input.drop (c'.reads - c.reads) := by
  induction h with
  | refl => simp
  | @tail c₁ _ leads asked ih =>
    have reliable : c₁.failingRead = none := (failing (b := .listen) leads).trans reliable
    have later : c.reads ≤ c₁.reads := count_le (b := .listen) leads
    cases asked with
    | write line =>
      obtain ⟨input, reads, -, -⟩ := c₁.frame_write line
      rw [input, reads]
      exact ih
    | read =>
      rw [input_read reliable, reads_read, ih, List.drop_drop]
      congr 1
      omega

end Leads

end Console

end CypherLang
