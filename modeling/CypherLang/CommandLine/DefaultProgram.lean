import CypherLang.Listing

namespace CypherLang

def defaultLines : List String := [
  "// Built-in sample, run when no file is given.",
  "",
  "spit crew = \"the cypher\"",
  "spit rounds = 0",
  "",
  "verse fact(n) \x7b",
  "    battle (n < 2) \x7b",
  "        return 1",
  "    \x7d",
  "    defeat \x7b",
  "        return n * fact(n - 1)",
  "    \x7d",
  "\x7d",
  "",
  "verse hype(name) \x7b",
  "    rounds = rounds + 1",
  "    return \"give it up for \" + name",
  "\x7d",
  "",
  "cypher \x7b",
  "    flow hype(crew)",
  "    flow \"5! =\", fact(5)",
  "    flow \"half of 7 is\", 7 / 2",
  "    battle (rounds == 1) \x7b",
  "        flow \"one round down\"",
  "    \x7d defeat \x7b",
  "        flow \"lost count\"",
  "    \x7d",
  "\x7d"]

def defaultProgram : Listing where
  name := "<sample>"
  text := String.join (defaultLines.map (· ++ "\n"))

end CypherLang
