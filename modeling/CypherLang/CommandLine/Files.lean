namespace CypherLang

inductive ReadError
  | notFound | isDirectory | notDirectory | notText | other (reason : String)

def ReadError.message : ReadError → String
  | notFound => "No such file or directory (os error 2)"
  | isDirectory => "Is a directory (os error 21)"
  | notDirectory => "Not a directory (os error 20)"
  | notText => "stream did not contain valid UTF-8"
  | other reason => reason

/-- The files below a directory, by their path from it. -/
structure Directory where
  files : List (List String × ByteArray)

namespace Directory

/-- A place on the way along a path. Nothing is known of what lies outside the directory. -/
inductive Place
  | outside
  | folder (path : List String)
  | file (content : ByteArray)

def enter (d : Directory) (path : List String) (name : String) : Except ReadError Place :=
  let path := path ++ [name]
  match d.files.lookup path with
  | some content => .ok (.file content)
  | none =>
    if d.files.any fun f => path.isPrefixOf f.1 then .ok (.folder path) else .error .notFound

def step (d : Directory) (place : Place) (name : String) : Except ReadError Place :=
  match place with
  | .file _ => .error .notDirectory
  | .outside => if name = "" ∨ name = "." ∨ name = ".." then .ok .outside else .error .notFound
  | .folder path =>
    if name = "" ∨ name = "." then .ok (.folder path)
    else if name = ".." then .ok (if path.isEmpty then .outside else .folder path.dropLast)
    else d.enter path name

/-- Follows a path and reads the file at its end. -/
def read (d : Directory) (path : String) : Except ReadError ByteArray := do
  let start := if path.startsWith "/" then Place.outside else .folder []
  match ← (path.splitOn "/").foldlM d.step start with
  | .file content => .ok content
  | _ => .error .isDirectory

end Directory

end CypherLang
