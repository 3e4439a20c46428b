import CypherLang.Diagnostic
import CypherLang.JsonLibrary

namespace CypherLang.Diagnostic

variable (lib : JsonLibrary)

/-- The fields as they are written; the line and its text are skipped unless they are known. -/
def fields (d : Diagnostic) : List (String × Option String) :=
  [("file", lib.string d.file), ("code", lib.u16 d.code),
    ("category", lib.variant d.category.name), ("message", lib.string d.message),
    ("line", d.line.map lib.u32), ("source_line", d.sourceLine.map lib.string)]

def toJson (d : Diagnostic) : String := lib.record false (d.fields lib)

def toPrettyJson (d : Diagnostic) : String := lib.record true (d.fields lib)

def fieldNames : List String := ["file", "code", "category", "message", "line", "source_line"]

def readCategory? (v : lib.Value) : Option Category :=
  (lib.variant? (Category.all.map Category.name) v).bind Category.ofName?

def ofJson? (text : String) : Option Diagnostic := do
  match ← lib.fields? fieldNames (← lib.parse? text) with
  | [some file, some code, some category, some message, line, sourceLine] =>
    return {
      file := ← lib.string? file
      code := ← lib.u16? code
      category := ← readCategory? lib category
      message := ← lib.string? message
      line := ← lib.optional? lib.u32? line
      sourceLine := ← lib.optional? lib.string? sourceLine }
  | _ => none

end CypherLang.Diagnostic
