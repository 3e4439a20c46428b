import CypherLang.CommandLine

namespace CypherLang.CommandLine

def readFile (path : String) : IO (Except ReadError ByteArray) := do
  match ← (IO.FS.readBinFile path).toBaseIO with
  | .ok content => return .ok content
  | .error (.noFileOrDirectory ..) => return .error .notFound
  | .error (.inappropriateType _ code _) =>
    return .error (if code = 21 then .isDirectory else .notDirectory)
  | .error (.permissionDenied ..) => return .error (.other "Permission denied (os error 13)")
  | .error e => return .error (.other (toString e))

/-- The standard input is read ahead, and only for a program that asks for it. -/
def readInput (content : Except ReadError ByteArray) : IO ByteArray := do
  match sourceOf "" content with
  | .ok source => if asksForInput source.text then (← IO.getStdin).readBinToEnd else return .empty
  | .error _ => return .empty

def run (args : List String) : IO Result := do
  match Command.ofArguments args with
  | .run { input := some path, .. } =>
    let content ← readFile path
    return execute args (fun _ => content) (← readInput content)
  | _ => return execute args (fun _ => .error .notFound) .empty

end CypherLang.CommandLine

def main (args : List String) : IO UInt32 := do
  let result ← CypherLang.CommandLine.run args
  for line in result.log do
    IO.eprintln line
  IO.print result.stdout
  return result.exit
