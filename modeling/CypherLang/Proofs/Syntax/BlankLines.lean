import CypherLang.Proofs.Syntax.CorrectPrefix
import CypherLang.Proofs.Syntax.Likeness

namespace CypherLang

open Yield (Breaks firstKind)

/-- The tokens of two lists are the same, but for lines and for the number of breaks wherever one or
more of them stand in a row. -/
inductive Respaced : List Token → List Token → Prop
  | nil : Respaced [] []
  | token {t u : Token} {ts us : List Token} : t.kind = u.kind → t.text = u.text →
    Respaced ts us → Respaced (t :: ts) (u :: us)
  | breaks {v w ts us : List Token} : Breaks v → v ≠ [] → Breaks w → w ≠ [] →
    Respaced ts us → Respaced (v ++ ts) (w ++ us)

namespace Respaced

variable {ts us : List Token}

theorem refl (ts : List Token) : Respaced ts ts := by
  induction ts with
  | nil => exact .nil
  | cons t ts ih => exact .token rfl rfl ih

/-- What comes before and after a row of breaks may stay as it is. -/
theorem of_run {v w : List Token} (hv : Breaks v) (nonempty : v ≠ []) (hw : Breaks w)
    (nonempty' : w ≠ []) (before after : List Token) :
    Respaced (before ++ v ++ after) (before ++ w ++ after) := by
  induction before with
  | nil => exact .breaks hv nonempty hw nonempty' (refl after)
  | cons t before ih => exact .token rfl rfl ih

theorem firstKind_breaks {v : List Token} (h : Breaks v) (nonempty : v ≠ []) (ts : List Token) :
    firstKind (v ++ ts) = .newline := by
  obtain ⟨t, v, rfl⟩ := List.exists_cons_of_ne_nil nonempty
  exact h t List.mem_cons_self

theorem firstKind_eq (h : Respaced ts us) : firstKind ts = firstKind us := by
  cases h with
  | nil => rfl
  | token kind => exact kind
  | breaks hv nonempty hw nonempty' =>
    rw [firstKind_breaks hv nonempty, firstKind_breaks hw nonempty']

/-- A token that is no break is the same on both sides, and so is what follows it. -/
theorem next (h : Respaced ts us) (plain : (firstKind ts).Plain) :
    ∃ t u ts' us', ts = t :: ts' ∧ us = u :: us' ∧ t.text = u.text ∧ Respaced ts' us' := by
  cases h with
  | nil => exact absurd rfl plain.2
  | token kind text rest => exact ⟨_, _, _, _, rfl, rfl, text, rest⟩
  | breaks hv nonempty => exact absurd (firstKind_breaks hv nonempty _) plain.1

theorem afterBreaks (h : Respaced ts us) : Respaced (ts.dropWhile (·.kind == .newline))
    (us.dropWhile (·.kind == .newline)) := by
  induction h with
  | nil => exact .nil
  | @token t u ts us kind text rest ih =>
    rw [List.dropWhile_cons, List.dropWhile_cons, ← kind]
    split
    · exact ih
    · exact .token kind text rest
  | breaks hv _ hw _ _ ih =>
    rw [List.dropWhile_append_of_pos (by simpa [Breaks] using hv),
      List.dropWhile_append_of_pos (by simpa [Breaks] using hw)]
    exact ih

theorem upToEof (h : Respaced ts us) : Respaced (ts.takeWhile (·.kind != .eof))
    (us.takeWhile (·.kind != .eof)) := by
  have inner {v : List Token} (h : Breaks v) : ∀ t ∈ v, (t.kind != .eof) = true := by
    intro t mem
    rw [h t mem]
    rfl
  induction h with
  | nil => exact .nil
  | @token t u ts us kind text rest ih =>
    rw [List.takeWhile_cons, List.takeWhile_cons, ← kind]
    split
    · exact .token kind text ih
    · exact .nil
  | breaks hv nonempty hw nonempty' _ ih =>
    rw [List.takeWhile_append_of_pos (inner hv), List.takeWhile_append_of_pos (inner hw)]
    exact .breaks hv nonempty hw nonempty' ih

end Respaced

/-- The same depth, and before it tokens that are the same but for lines and breaks in a row. -/
structure Cursor.Respaced (c d : Cursor) : Prop where
  depth : c.depth = d.depth
  rest : CypherLang.Respaced c.rest d.rest

/-- No parser finds out how many breaks stand in a row: it skips them all, or it stops at the
first. -/
theorem Cursor.respaced_likeness : Parser.Likeness (fun _ => 0) Cursor.Respaced where
  depth alike := alike.depth
  withDepth _ alike := ⟨rfl, alike.rest⟩
  kind alike := by
    rw [Parser.kind_eq_firstKind, Parser.kind_eq_firstKind, alike.rest.firstKind_eq]
  line _ := rfl
  text {c d} alike plain := by
    rw [Parser.kind_eq_firstKind] at plain
    obtain ⟨t, u, ts, us, hc, hd, text, -⟩ := alike.rest.next plain
    rw [Cursor.token, Cursor.token, hc, hd]
    exact text
  afterNext {c d} alike plain := by
    rw [Parser.kind_eq_firstKind] at plain
    obtain ⟨t, u, ts, us, hc, hd, -, rest⟩ := alike.rest.next plain
    refine ⟨alike.depth, ?_⟩
    rw [Cursor.afterNext, Cursor.afterNext, hc, hd]
    exact rest
  afterBreaks alike := ⟨alike.depth, alike.rest.afterBreaks⟩

/-- However many line breaks stand in each row of them, the program is the same, or the error is,
but for its line. -/
theorem Program.ofTokens_respaced {ts us : List Token} (h : Respaced ts us) :
    (Program.ofTokens ts).mapError (SyntaxError.mapLine fun _ => 0) =
      (Program.ofTokens us).mapError (SyntaxError.mapLine fun _ => 0) := by
  have alike : (Cursor.ofTokens ts).Respaced (.ofTokens us) := ⟨rfl, h.upToEof⟩
  rw [Program.ofTokens_eq_answer, Program.ofTokens_eq_answer]
  exact Cursor.respaced_likeness.answer_program alike (Cursor.proper_ofTokens ts)
    (Cursor.proper_ofTokens us)

/-- Three line breaks instead of one before `defeat`, where the branch is still found. -/
theorem Program.ofTokens_respaced_defeat :
    let tokens (breaks : Nat) : List Token := [⟨.keyword .battle, "battle", 1⟩,
      ⟨.symbol .lparen, "(", 1⟩, ⟨.identifier, "a", 1⟩, ⟨.symbol .rparen, ")", 1⟩,
      ⟨.symbol .lbrace, "\x7b", 1⟩, ⟨.symbol .rbrace, "\x7d", 1⟩] ++
      List.replicate breaks ⟨.newline, "\n", 1⟩ ++ [⟨.keyword .defeat, "defeat", 2⟩,
      ⟨.symbol .lbrace, "\x7b", 2⟩, ⟨.symbol .rbrace, "\x7d", 2⟩]
    Respaced (tokens 1) (tokens 3) ∧
      Program.ofTokens (tokens 1) = .ok [.battle (.identifier "a") [] (some [])] ∧
      (Program.ofTokens (tokens 1)).mapError (SyntaxError.mapLine fun _ => 0) =
        (Program.ofTokens (tokens 3)).mapError (SyntaxError.mapLine fun _ => 0) := by
  intro tokens
  have gap (breaks : Nat) : Breaks (List.replicate breaks ⟨.newline, "\n", 1⟩) := by
    intro t mem
    rw [List.eq_of_mem_replicate mem]
  have respaced : Respaced (tokens 1) (tokens 3) := .of_run (gap 1) nofun (gap 3) nofun _ _
  refine ⟨respaced, ?_, Program.ofTokens_respaced respaced⟩
  dsimp only [tokens]
  cbv

end CypherLang
