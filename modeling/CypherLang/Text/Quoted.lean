import CypherLang.Text.Shapeless

namespace CypherLang.Text

/-- A code point as `\u` and hexadecimal digits in braces. -/
def codePoint (c : Char) : String :=
  "\\u\x7b" ++ String.ofList (Nat.toDigits 16 c.toNat) ++ "\x7d"

def showChar (c : Char) : String :=
  match c with
  | '"' => "\\\""
  | '\\' => "\\\\"
  | '\n' => "\\n"
  | '\r' => "\\r"
  | '\t' => "\\t"
  | '\x00' => "\\0"
  | c => if isShapeless c then codePoint c else c.toString

def quoted (s : String) : String :=
  "\"" ++ String.join (s.toList.map showChar) ++ "\""

/-- A list of quoted texts in brackets. -/
def quotedList (items : List String) : String :=
  "[" ++ ", ".intercalate (items.map quoted) ++ "]"

end CypherLang.Text
