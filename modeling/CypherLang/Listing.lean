namespace CypherLang

structure Listing where
  name : String
  text : String

namespace Listing

/-- Drops the carriage returns at the end of a line. -/
def trimReturns (line : List Char) : List Char :=
  (line.reverse.dropWhile (· == '\r')).reverse

/-- The byte offsets of the line breaks in a text that starts at `offset`. -/
def breakOffsets (offset : Nat) : List Char → List Nat
  | [] => []
  | c :: cs =>
    if c = '\n' then offset :: breakOffsets (offset + c.utf8Size) cs
    else breakOffsets (offset + c.utf8Size) cs

/-- The byte offsets at which the lines start. -/
def lineStarts (s : Listing) : List Nat := 0 :: (breakOffsets 0 s.text.toList).map (· + 1)

/-- The characters from the byte offset `n` on. -/
def dropBytes : Nat → List Char → List Char
  | _, [] => []
  | n, c :: cs => if n = 0 then c :: cs else dropBytes (n - c.utf8Size) cs

/-- The characters in the first `n` bytes. -/
def takeBytes : Nat → List Char → List Char
  | _, [] => []
  | n, c :: cs => if n = 0 then [] else c :: takeBytes (n - c.utf8Size) cs

def numLines (s : Listing) : Nat := s.lineStarts.length

/-- The line with the given number, counted from 1. It reaches up to the line break before the start
of the next one. -/
def line? (s : Listing) (number : UInt32) : Option String :=
  if number = 0 then none
  else do
    let index := number.toNat - 1
    let start ← s.lineStarts[index]?
    let stop := (s.lineStarts[index + 1]?.map (· - 1)).getD s.text.utf8ByteSize
    return .ofList (trimReturns (takeBytes (stop - start) (dropBytes start s.text.toList)))

end Listing

end CypherLang
