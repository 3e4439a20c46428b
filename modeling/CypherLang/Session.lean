import CypherLang.Eval
import CypherLang.Failure

namespace CypherLang

structure Session (H : Type) where
  limits : Limits
  machine : Machine H

variable {H : Type}

namespace Session

def start (limits : Limits) (host : H) : Session H := ⟨limits, .start host {}⟩

/-- Runs a program; the session goes on also if it fails. -/
def run [Host H] (s : Session H) (p : Program) :
    Except RuntimeError (Option Value) × Session H :=
  match p.exec s.limits s.machine with
  | .ok v m => (.ok v, { s with machine := m })
  | .error (.error e) m => (.error e, { s with machine := m })
  | .error .outOfFuel m => (.error (.stackOverflow s.limits.levels), { s with machine := m })

/-- Ends the session, which empties every scope it has made. -/
def close (s : Session H) : Session H := { s with machine := s.machine.shutdown }

end Session

/-- What is left of a run of one program text. -/
structure Outcome (H : Type) where
  result : Except Failure (Option Value)
  host : H
  log : Log
  /-- The scopes after the end of the session. -/
  store : Store

/-- Reads and runs a program text in a session of its own. -/
def runSource [Host H] (source : String) (limits : Limits) (host : H) (log : Log) : Outcome H :=
  let log := log.add (.running source.utf8ByteSize)
  match Token.lex source with
  | .error e => { result := .error (.lex e), host, log, store := .empty }
  | .ok tokens =>
    let log := log.add (.lexed tokens.length ((tokens.getLast?.map Token.line).getD 1))
    match Program.ofTokens tokens with
    | .error e => { result := .error (.parse e), host, log, store := .empty }
    | .ok p =>
      let log := log.add (.parsed p.length)
      let (result, session) := Session.run ⟨limits, .start host log⟩ p
      let machine := session.close.machine
      { result := result.mapError .eval, host := machine.host, log := machine.log,
        store := machine.store }

end CypherLang
