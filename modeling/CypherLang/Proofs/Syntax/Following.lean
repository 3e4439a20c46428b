import CypherLang.Proofs.Syntax.RoundTrip
import CypherLang.Proofs.Token.Joining

namespace CypherLang.Yield

variable {k : UInt32} {rest rest' : List Token}

theorem later_kind {t : Token} {kind : Token.Kind} (h : t.kind = kind) : (t.later k).kind = kind :=
  h

theorem map_later_zero (w : List Token) : w.map (Token.later 0) = w := by
  rw [funext Token.later_zero, List.map_id']

/-- The kinds of token that end an expression, whatever it stands in. -/
def closesPhrase : Token.Kind → Bool
  | .symbol .rparen | .symbol .rbrace | .newline | .eof => true
  | _ => false

/-- An expression before `rest` is one before `rest'` as well: these start alike, or the second
ones with what ends every expression. -/
def Fits (rest rest' : List Token) : Prop :=
  firstKind rest' = firstKind rest ∨ closesPhrase (firstKind rest')

namespace Fits

theorem later {t : Token} {x y : List Token} : Fits (t :: x) (t.later k :: y) := .inl rfl

theorem ne_kind {kind : Token.Kind} (fits : Fits rest rest') (inner : closesPhrase kind = false)
    (h : firstKind rest ≠ kind) : firstKind rest' ≠ kind := by
  rcases fits with same | closes
  · rwa [same]
  · rintro rfl
    rw [inner] at closes
    cases closes

theorem not_continues {tier : Tier} (fits : Fits rest rest') (h : ¬ Continues tier rest) :
    ¬ Continues tier rest' := by
  rintro ⟨op, same, kind⟩
  have inner : closesPhrase (.symbol op.sign) = false := by cases op <;> rfl
  exact fits.ne_kind inner (fun first => h ⟨op, same, first⟩) kind

end Fits

mutual

theorem Primary.moved {n e w rest rest'} (fits : Fits rest rest') :
    Primary n e w rest → Primary n e (w.map (Token.later k)) rest'
  | .number ht hl => .number (later_kind ht) hl
  | .string ht => .string (later_kind ht)
  | .word ht hl => .word (later_kind ht) hl
  | .identifier ht stop => .identifier (later_kind ht) (fits.ne_kind rfl stop)
  | .callEmpty ht ho hc => .callEmpty (later_kind ht) (later_kind ho) (later_kind hc)
  | .call ht ho args hc => by
    rw [List.map_append]
    exact .call (later_kind ht) (later_kind ho) (args.moved .later) (later_kind hc)
  | .group ho inner hc => by
    rw [List.map_append]
    exact .group (later_kind ho) (inner.moved .later) (later_kind hc)
  | .neg ht operand => .neg (later_kind ht) (operand.moved fits)

theorem Operand.moved {tier n e w rest rest'} (fits : Fits rest rest') :
    Operand tier n e w rest → Operand tier n e (w.map (Token.later k)) rest'
  | .primary h => .primary (h.moved fits)
  | .product h stop => .product (h.moved fits) (fits.not_continues stop)
  | .sum h stop => .sum (h.moved fits) (fits.not_continues stop)

theorem Chain.moved {tier i n e w rest rest'} (fits : Fits rest rest') :
    Chain tier i n e w rest → Chain tier i n e (w.map (Token.later k)) rest'
  | .operand h => .operand (h.moved fits)
  | .operator left same ho right => by
    rw [List.map_append]
    exact .operator (left.moved .later) same (later_kind ho) (right.moved fits)

theorem Expression.moved {n e w rest rest'} (fits : Fits rest rest') :
    Expression n e w rest → Expression n e (w.map (Token.later k)) rest'
  | .comparison h stop => .comparison (h.moved fits) (fits.not_continues stop)

theorem Arguments.moved {n es w rest rest'} (fits : Fits rest rest') :
    Arguments n es w rest → Arguments n es (w.map (Token.later k)) rest'
  | .last h => .last (h.moved fits)
  | .more h hc args => by
    rw [List.map_append]
    exact .more (h.moved .later) (later_kind hc) (args.moved fits)

end

/-- What may come where a statement ends: nothing that continues it, nor a `defeat` further on. -/
structure Ends (tail : List Token) : Prop where
  kind : (firstKind tail).closesStatement
  noDefeat : NoDefeat tail

theorem ends_of_closesBlock (h : Parser.closesBlock (firstKind rest)) : Ends rest := by
  refine ⟨?_, ?_⟩
  · revert h
    cases firstKind rest with
    | symbol s => cases s <;> simp [Parser.closesBlock, Token.Kind.closesStatement]
    | _ => simp [Parser.closesBlock, Token.Kind.closesStatement]
  · have empty : Body 0 [] [] rest := .nil (by simp [Breaks])
    exact empty.noDefeat h

theorem noDefeat_iff :
    NoDefeat rest ↔ firstKind (rest.dropWhile (·.kind == .newline)) ≠ .keyword .defeat := by
  constructor
  · intro h
    exact h _ _ List.takeWhile_append_dropWhile.symm (breaks_takeWhile rest)
  · exact Parser.firstKind_after_breaks (by simp)

/-- A statement before the first tokens is one before the second ones as well: these agree up to a
token that is no line break, or up to where the second ones end a statement. -/
def Replaces (k : UInt32) (rest rest' : List Token) : Prop :=
  ∃ u x x', rest = u ++ x ∧ rest' = u.map (Token.later k) ++ x' ∧
    ((∃ t ∈ u, t.kind ≠ .newline) ∨ Ends x')

namespace Replaces

theorem token {t : Token} {x x' : List Token} (h : t.kind ≠ .newline) :
    Replaces k (t :: x) (t.later k :: x') :=
  ⟨[t], x, x', rfl, rfl, .inl ⟨t, List.mem_singleton_self t, h⟩⟩

theorem tail {x : List Token} (ends : Ends x) : Replaces k [] x :=
  ⟨[], [], x, rfl, rfl, .inr ends⟩

theorem same {u x x' : List Token} (stop : (∃ t ∈ u, t.kind ≠ .newline) ∨ Ends x') :
    Replaces 0 (u ++ x) (u ++ x') :=
  ⟨u, x, x', rfl, by rw [map_later_zero], stop⟩

theorem prepend (v : List Token) (h : Replaces k rest rest') :
    Replaces k (v ++ rest) (v.map (Token.later k) ++ rest') := by
  obtain ⟨u, x, x', rfl, rfl, stop⟩ := h
  refine ⟨v ++ u, x, x', by simp, by simp, stop.imp_left ?_⟩
  rintro ⟨t, mem, kind⟩
  exact ⟨t, List.mem_append_right v mem, kind⟩

theorem kind (h : Replaces k rest rest') :
    firstKind rest' = firstKind rest ∨ (firstKind rest').closesStatement := by
  obtain ⟨u, x, x', rfl, rfl, stop⟩ := h
  cases u with
  | nil =>
    obtain ⟨t, mem, -⟩ | tail := stop
    · cases mem
    · exact .inr tail.kind
  | cons t u => exact .inl rfl

theorem fits (h : Replaces k rest rest') : Fits rest rest' := by
  refine h.kind.imp_right fun closes => ?_
  revert closes
  cases firstKind rest' with
  | symbol s => cases s <;> simp [closesPhrase, Token.Kind.closesStatement]
  | _ => simp [closesPhrase, Token.Kind.closesStatement]

theorem closesStatement (h : Replaces k rest rest') (closes : (firstKind rest).closesStatement) :
    (firstKind rest').closesStatement := by
  rcases h.kind with same | closes
  · rwa [same]
  · exact closes

theorem noDefeat (h : Replaces k rest rest') (none : NoDefeat rest) : NoDefeat rest' := by
  obtain ⟨u, x, x', rfl, rfl, stop⟩ := h
  have later : (u.map (Token.later k)).dropWhile (·.kind == .newline) =
      (u.dropWhile (·.kind == .newline)).map (Token.later k) := List.dropWhile_map
  rw [noDefeat_iff, List.dropWhile_append] at none ⊢
  rw [later]
  cases first : u.dropWhile (·.kind == .newline) with
  | cons t v =>
    rw [first] at none
    exact none
  | nil =>
    obtain ⟨t, mem, other⟩ | tail := stop
    · exact absurd (by simpa using List.dropWhile_eq_nil_iff.1 first t mem) other
    · exact noDefeat_iff.1 tail.noDefeat

theorem not_startsAssignment {w : List Token} (h : Replaces k rest rest')
    (starts : startsOperand (firstKind w)) (plain : ¬ StartsAssignment (w ++ rest)) :
    ¬ StartsAssignment (w.map (Token.later k) ++ rest') := by
  rintro ⟨first, second⟩
  cases w with
  | nil => cases starts
  | cons t w =>
    refine plain ⟨first, ?_⟩
    cases w with
    | nil => exact not_not.1 fun other => h.fits.ne_kind rfl other second
    | cons u w => exact second

end Replaces

theorem breaks_later {gap : List Token} (h : Breaks gap) : Breaks (gap.map (Token.later k)) := by
  intro t mem
  obtain ⟨u, mem', same⟩ := List.mem_map.1 mem
  subst same
  exact h u mem'

theorem Names.later {names w} (h : Names names w) : Names names (w.map (Token.later k)) := by
  induction h with
  | last ht => exact .last (later_kind ht)
  | more ht hc _ ih => exact .more (later_kind ht) (later_kind hc) ih

theorem Parameters.later {names w} (h : Parameters names w) :
    Parameters names (w.map (Token.later k)) := by
  cases h with
  | none => exact .none
  | some h => exact .some h.later

mutual

theorem Statement.moved {n s w rest rest'} (next : Replaces k rest rest') :
    Statement n s w rest → Statement n s (w.map (Token.later k)) rest'
  | .spit hs hn he h => .spit (later_kind hs) (later_kind hn) (later_kind he) (h.moved next.fits)
  | .verse hv hn ho params hc body => by
    rw [List.map_append]
    exact .verse (later_kind hv) (later_kind hn) (later_kind ho) params.later (later_kind hc)
      (body.moved rest')
  | .cypher hc body => .cypher (later_kind hc) (body.moved rest')
  | .flowEmpty hf stop => .flowEmpty (later_kind hf) (next.closesStatement stop)
  | .flow hf args stop =>
    .flow (later_kind hf) (args.moved next.fits) (next.fits.ne_kind rfl stop)
  | .battle hb ho cond hc body noDefeat => by
    rw [List.map_append]
    exact .battle (later_kind hb) (later_kind ho) (cond.moved .later) (later_kind hc)
      (body.moved rest') (next.noDefeat noDefeat)
  | .battleDefeat hb ho cond hc body breaks hd other => by
    rw [List.map_append, List.map_append, List.map_append]
    exact .battleDefeat (later_kind hb) (later_kind ho) (cond.moved .later) (later_kind hc)
      (body.moved _) (breaks_later breaks) (later_kind hd) (other.moved rest')
  | .retEmpty hr stop => .retEmpty (later_kind hr) (next.closesStatement stop)
  | .ret hr h => .ret (later_kind hr) (h.moved next.fits)
  | .assign hn he h => .assign (later_kind hn) (later_kind he) (h.moved next.fits)
  | .expr h stop => .expr (h.moved next.fits) (next.not_startsAssignment h.starts stop)

/-- Nothing that follows a block belongs to it. -/
theorem Block.moved {n body w rest} (rest' : List Token) :
    Block n body w rest → Block n body (w.map (Token.later k)) rest'
  | .braces ho h hc => by
    rw [List.map_append]
    exact .braces (later_kind ho) (h.moved (.token (by simp [hc]))) (later_kind hc)

theorem Body.moved {n ss w rest rest'} (next : Replaces k rest rest') :
    Body n ss w rest → Body n ss (w.map (Token.later k)) rest'
  | .nil breaks => .nil (breaks_later breaks)
  | .cons breaks h more => by
    rw [List.map_append, List.map_append]
    exact .cons (breaks_later breaks) (h.moved (next.prepend _)) (more.moved next)

end

theorem Chain.before {tier i n e w} (h : Chain tier i n e w rest) (fits : Fits rest rest') :
    Chain tier i n e w rest' := by
  have moved := h.moved (k := 0) fits
  rwa [map_later_zero] at moved

theorem Expression.before {n e w} (h : Expression n e w rest) (fits : Fits rest rest') :
    Expression n e w rest' := by
  have moved := h.moved (k := 0) fits
  rwa [map_later_zero] at moved

theorem Arguments.before {n es w} (h : Arguments n es w rest) (fits : Fits rest rest') :
    Arguments n es w rest' := by
  have moved := h.moved (k := 0) fits
  rwa [map_later_zero] at moved

theorem Statement.before {n s w} (h : Statement n s w rest) (next : Replaces 0 rest rest') :
    Statement n s w rest' := by
  have moved := h.moved next
  rwa [map_later_zero] at moved

theorem Block.before {n body w} (h : Block n body w rest) (rest' : List Token) :
    Block n body w rest' := by
  have moved := h.moved (k := 0) rest'
  rwa [map_later_zero] at moved

theorem Body.before {n ss w} (h : Body n ss w rest) (next : Replaces 0 rest rest') :
    Body n ss w rest' := by
  have moved := h.moved next
  rwa [map_later_zero] at moved

end CypherLang.Yield
