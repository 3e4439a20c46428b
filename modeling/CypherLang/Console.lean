import CypherLang.Host

namespace CypherLang

structure Console where
  /-- The lines written, oldest first. -/
  output : Array String := #[]
  /-- The lines left to read; an entry may instead hold the reason why it cannot be read. -/
  input : List (Except String String) := []
  writes : Nat := 0
  reads : Nat := 0
  /-- The number of the write that fails, counted from 0. -/
  failingWrite : Option Nat := none
  /-- The number of the read that fails, counted from 0. -/
  failingRead : Option Nat := none

namespace Console

/-- A console with the given lines to read, on which nothing fails. -/
def ofInput (lines : List String) : Console := { input := lines.map .ok }

/-- Writes a line. A failing write adds none. -/
def write (c : Console) (line : String) : Except String Unit × Console :=
  if c.failingWrite = some c.writes then
    (.error "host write failed", { c with writes := c.writes + 1 })
  else (.ok (), { c with writes := c.writes + 1, output := c.output.push line })

/-- Reads a line, and nothing once all lines are read. A failing read takes none. -/
def read (c : Console) : Except String (Option String) × Console :=
  if c.failingRead = some c.reads then
    (.error "host read failed", { c with reads := c.reads + 1 })
  else
    match c.input with
    | [] => (.ok none, { c with reads := c.reads + 1 })
    | .ok line :: rest => (.ok (some line), { c with reads := c.reads + 1, input := rest })
    | .error reason :: rest => (.error reason, { c with reads := c.reads + 1, input := rest })

instance : Host Console := ⟨write, read⟩

end Console

end CypherLang
