namespace CypherLang

/-- What a running program writes its lines to and reads lines from. It may refuse a request with
a reason, and answer differently after each one. -/
class Host (H : Type) where
  write : H → String → Except String Unit × H
  /-- The next line, or nothing where the input ends. -/
  read : H → Except String (Option String) × H

end CypherLang
