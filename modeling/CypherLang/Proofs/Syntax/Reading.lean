import CypherLang.Proofs.Syntax.Yield

namespace CypherLang.Parser

open Yield (firstKind Breaks)

/-- On a cursor at depth `d` before `w ++ rest` the parser takes `w`, gives `a` and goes on at
depth `d'`. The deepest level on the way is `top`; if it is beyond the limit, the parser fails. -/
def Reads (p : Parser α) (d : Nat) (w rest : List Token) (a : α) (d' top : Nat) : Prop :=
  ∀ c : Cursor, c.rest = w ++ rest → c.depth = d → c.rest.length ≤ c.size →
    if top ≤ maxNesting then p c = .ok a { c with rest := rest, depth := d' }
    else ∃ line c', p c = .error (.nestingTooDeep line) c'

theorem kind_eq_firstKind (c : Cursor) : c.kind = firstKind c.rest := by
  unfold Cursor.kind Cursor.token
  cases c.rest <;> rfl

theorem secondKind_eq_firstKind (c : Cursor) : c.secondKind = firstKind c.rest.tail :=
  kind_eq_firstKind _

theorem dropWhile_breaks {v w : List Token} (breaks : Breaks v) (stop : firstKind w ≠ .newline) :
    (v ++ w).dropWhile (·.kind == .newline) = w := by
  rw [List.dropWhile_append_of_pos (by simpa [Breaks] using breaks)]
  cases w with
  | nil => rfl
  | cons t w => rw [List.dropWhile_cons_of_neg (by simpa [firstKind] using stop)]

theorem enter_apply (c : Cursor) : enter c =
    if c.depth < maxNesting then .ok () { c with depth := c.depth + 1 }
    else .error (.nestingTooDeep c.token.line) c := by
  change (if c.depth < maxNesting then _ else _ : Parser Unit) c = _
  split <;> rfl

theorem acceptAfterBreaks_apply (k : Token.Kind) (c : Cursor) : acceptAfterBreaks k c =
    if firstKind (c.rest.dropWhile (·.kind == .newline)) = k then
      .ok true { c with rest := (c.rest.dropWhile (·.kind == .newline)).tail }
    else .ok false c := by
  change (if Cursor.kind { c with rest := c.rest.dropWhile (·.kind == .newline) } = k then _
    else _ : Parser Bool) c = _
  rw [kind_eq_firstKind]
  split <;> rfl

section

variable {α β : Type} {p : Parser α} {f : α → Parser β} {a : α} {c c' : Cursor}

theorem bind_apply_of_ok (run : p c = .ok a c') : (p >>= f) c = f a c' := by
  change EStateM.bind p f c = _
  unfold EStateM.bind
  rw [run]

theorem bind_apply_of_error {e : SyntaxError} (run : p c = .error e c') :
    (p >>= f) c = .error e c' := by
  change EStateM.bind p f c = _
  unfold EStateM.bind
  rw [run]

end

namespace Reads

variable {α β : Type} {p : Parser α} {f : α → Parser β} {a : α} {b : β}
variable {d d' d'' top top' : Nat} {t : Token} {v w rest : List Token} {k : Token.Kind}

/-- Only whether the deepest level is within the limit matters. -/
theorem of_iff (h : Reads p d w rest a d' top) (same : top ≤ maxNesting ↔ top' ≤ maxNesting) :
    Reads p d w rest a d' top' := by
  intro c hw hd hs
  simpa only [same] using h c hw hd hs

/-- A parser that enters no level is within any limit. -/
theorem shallow (h : Reads p d w rest a d' 0) (within : top ≤ maxNesting) :
    Reads p d w rest a d' top :=
  h.of_iff (by omega)

theorem pure (a : α) : Reads (pure a) d [] rest a d 0 := by
  intro c hw hd hs
  rw [if_pos (Nat.zero_le _), ← hd, ← List.nil_append rest, ← hw]
  rfl

/-- If the first parser nests too deep, what would come after it does not matter. -/
theorem bind_within (hp : Reads p d v (w ++ rest) a d' top)
    (hf : top ≤ maxNesting → Reads (f a) d' w rest b d'' top') :
    Reads (p >>= f) d (v ++ w) rest b d'' (max top top') := by
  intro c hw hd hs
  have first := hp c (by rw [hw, List.append_assoc]) hd hs
  change if _ then EStateM.bind p f c = _ else ∃ line c', EStateM.bind p f c = _
  unfold EStateM.bind
  split at first
  · have second := hf ‹_› { c with rest := w ++ rest, depth := d' } rfl rfl (by
      rw [hw] at hs
      simp only [List.length_append] at hs ⊢
      omega)
    rw [first]
    simpa only [show max top top' ≤ maxNesting ↔ top' ≤ maxNesting by omega] using second
  · obtain ⟨line, c', fails⟩ := first
    rw [if_neg (by omega), fails]
    exact ⟨line, c', rfl⟩

theorem bind (hp : Reads p d v (w ++ rest) a d' top) (hf : Reads (f a) d' w rest b d'' top') :
    Reads (p >>= f) d (v ++ w) rest b d'' (max top top') :=
  bind_within hp fun _ => hf

/-- A parser followed by one that takes nothing. -/
theorem bind_nil (hp : Reads p d w rest a d' top) (hf : Reads (f a) d' [] rest b d'' top') :
    Reads (p >>= f) d w rest b d'' (max top top') := by
  have h := bind (v := w) (w := []) hp hf
  rwa [List.append_nil] at h

theorem map (hp : Reads p d w rest a d' top) (g : α → β) :
    Reads (p >>= fun x => Pure.pure (g x)) d w rest (g a) d' top := by
  have last : Reads (Pure.pure (g a)) d' [] rest (g a) d' 0 := pure (g a)
  have h := bind_nil (f := fun x => Pure.pure (g x)) hp last
  exact h.of_iff (by omega)

theorem peek_bind {f : Token.Kind → Parser β}
    (h : Reads (f (firstKind (w ++ rest))) d w rest b d' top) :
    Reads (peek >>= f) d w rest b d' top := by
  intro c hw hd hs
  have h := h c hw hd hs
  rw [← hw, ← kind_eq_firstKind] at h
  exact h

theorem peek_first_bind {f : Token.Kind → Parser β} {k : Token.Kind} (kind : t.kind = k)
    (h : Reads (f k) d (t :: w) rest b d' top) : Reads (peek >>= f) d (t :: w) rest b d' top := by
  apply peek_bind
  rwa [← kind] at h

theorem get_bind {f : Cursor → Parser β}
    (h : ∀ c : Cursor, c.rest = w ++ rest → Reads (f c) d w rest b d' top) :
    Reads (get >>= f) d w rest b d' top :=
  fun c hw hd hs => h c hw c hw hd hs

theorem next_bind {f : Token → Parser β} (h : Reads (f t) d w rest b d' top) :
    Reads (next >>= f) d (t :: w) rest b d' top := by
  intro c hw hd hs
  have token : c.token = t := by rw [Cursor.token, hw]; rfl
  have tail : c.rest.tail = w ++ rest := by rw [hw]; rfl
  have shorter : c.rest.tail.length ≤ c.size := by
    rw [List.length_tail]
    omega
  have h := h { c with rest := c.rest.tail } tail hd shorter
  rw [← token] at h
  exact h

theorem require_bind {f : Token → Parser β} (kind : t.kind = k)
    (h : Reads (f t) d w rest b d' top) : Reads (require k >>= f) d (t :: w) rest b d' top := by
  unfold require
  rw [bind_assoc]
  apply peek_bind
  rw [if_pos (show firstKind (t :: w ++ rest) = k from kind)]
  exact next_bind h

theorem identifier {t : Token} (kind : t.kind = .identifier) :
    Reads identifier d [t] rest t.text d 0 :=
  require_bind kind (pure t.text)

theorem identifier_bind {f : String → Parser β} (kind : t.kind = .identifier)
    (h : Reads (f t.text) d w rest b d' top) :
    Reads (Parser.identifier >>= f) d (t :: w) rest b d' top :=
  (bind (v := [t]) (identifier kind) h).of_iff (by omega)

/-- A parser up to a closing token. -/
theorem require_after (hp : Reads p d w (t :: rest) a d' top) (kind : t.kind = k) (g : α → β) :
    Reads (p >>= fun x => require k >>= fun _ => Pure.pure (g x)) d (w ++ [t]) rest (g a) d'
      top := by
  have close : Reads (require k >>= fun _ => Pure.pure (g a)) d' [t] rest (g a) d' 0 :=
    require_bind kind (pure (g a))
  have h := bind (f := fun x => require k >>= fun _ => Pure.pure (g x)) (w := [t]) hp close
  exact h.of_iff (by omega)

theorem accept_true_bind {f : Bool → Parser β} (kind : t.kind = k)
    (h : Reads (f true) d w rest b d' top) :
    Reads (accept k >>= f) d (t :: w) rest b d' top := by
  unfold accept
  rw [bind_assoc]
  apply peek_bind
  rw [if_pos (show firstKind (t :: w ++ rest) = k from kind), bind_assoc]
  apply next_bind
  rw [pure_bind]
  exact h

theorem accept_false_bind {f : Bool → Parser β} (kind : firstKind (w ++ rest) ≠ k)
    (h : Reads (f false) d w rest b d' top) : Reads (accept k >>= f) d w rest b d' top := by
  unfold accept
  rw [bind_assoc]
  apply peek_bind
  rw [if_neg kind, pure_bind]
  exact h

theorem enter : Reads enter d [] rest () (d + 1) (d + 1) := by
  intro c hw hd hs
  rw [enter_apply, hd, ← List.nil_append rest, ← hw]
  split
  · rw [if_pos (by omega)]
  · rw [if_neg (by omega)]
    exact ⟨_, _, rfl⟩

/-- What a parser leaves as depth does not change what it reads. -/
theorem leaving {depth : Cursor → Nat} (h : Reads p d w rest a d' top)
    (left : ∀ c : Cursor, c.depth = d' → depth c = d'') :
    Reads (leaving depth p) d w rest a d'' top := by
  intro c hw hd hs
  have h := h c hw hd hs
  unfold Parser.leaving
  split at h
  · rw [if_pos ‹_›, h]
    simp only [left]
  · obtain ⟨line, c', fails⟩ := h
    rw [if_neg ‹_›, fails]
    exact ⟨line, _, rfl⟩

theorem deeper (h : d + 1 ≤ maxNesting → Reads p (d + 1) w rest a (d + 1) top) :
    Reads (deeper p) d w rest a d (max (d + 1) top) := by
  refine bind_within (v := []) enter fun within => ?_
  exact (h within).leaving fun c hd => Nat.sub_eq_of_eq_add hd

theorem restoringDepth (h : Reads p d w rest a d' top) :
    Reads (restoringDepth p) d w rest a d top := by
  intro c hw hd hs
  exact h.leaving (fun _ _ => hd) c hw hd hs

theorem skipBreaks_bind {f : Unit → Parser β} (breaks : Breaks v)
    (stop : firstKind (w ++ rest) ≠ .newline) (h : Reads (f ()) d w rest b d' top) :
    Reads (skipBreaks >>= f) d (v ++ w) rest b d' top := by
  intro c hw hd hs
  have drop : c.rest.dropWhile (·.kind == .newline) = w ++ rest := by
    rw [hw, List.append_assoc, dropWhile_breaks breaks stop]
  have shorter : (c.rest.dropWhile (·.kind == .newline)).length ≤ c.size :=
    Nat.le_trans (List.dropWhile_suffix _).length_le hs
  exact h { c with rest := c.rest.dropWhile (·.kind == .newline) } drop hd shorter

theorem acceptAfterBreaks_true_bind {f : Bool → Parser β} (breaks : Breaks v) (kind : t.kind = k)
    (notBreak : k ≠ .newline) (h : Reads (f true) d w rest b d' top) :
    Reads (acceptAfterBreaks k >>= f) d (v ++ t :: w) rest b d' top := by
  intro c hw hd hs
  have drop : c.rest.dropWhile (·.kind == .newline) = t :: w ++ rest := by
    rw [hw, List.append_assoc, dropWhile_breaks breaks (by simpa [firstKind, kind] using notBreak)]
  have run : acceptAfterBreaks k c = .ok true { c with rest := w ++ rest } := by
    rw [acceptAfterBreaks_apply, drop, if_pos (show firstKind (t :: w ++ rest) = k from kind)]
    rfl
  have shorter : (w ++ rest).length ≤ c.size := by
    rw [hw] at hs
    simp only [List.length_append, List.length_cons] at hs ⊢
    omega
  rw [bind_apply_of_ok run]
  exact h { c with rest := w ++ rest } rfl hd shorter

theorem acceptAfterBreaks_false_bind {f : Bool → Parser β}
    (kind : firstKind ((w ++ rest).dropWhile (·.kind == .newline)) ≠ k)
    (h : Reads (f false) d w rest b d' top) :
    Reads (acceptAfterBreaks k >>= f) d w rest b d' top := by
  intro c hw hd hs
  have run : acceptAfterBreaks k c = .ok false c := by
    rw [acceptAfterBreaks_apply, hw, if_neg kind]
  rw [bind_apply_of_ok run]
  exact h c hw hd hs

end Reads

/-- Repeating a step reads `w`, for any bound on the number of steps that the word allows. -/
def Repeats (step : α → Parser (Option α)) (a : α) (d : Nat) (w rest : List Token) (b : α)
    (d' top : Nat) : Prop :=
  ∀ n, w.length ≤ n → Reads (repeatUpTo step n a) d w rest b d' top

namespace Repeats

variable {α : Type} {step : α → Parser (Option α)} {a b e : α}
variable {d d' d'' top top' : Nat} {v w rest : List Token}

theorem of_iff (h : Repeats step a d w rest b d' top)
    (same : top ≤ maxNesting ↔ top' ≤ maxNesting) : Repeats step a d w rest b d' top' :=
  fun n hn => (h n hn).of_iff same

theorem stop (h : Reads (step a) d w rest none d 0) : Repeats step a d w rest a d 0 := by
  intro n hn
  cases n with
  | zero =>
    have empty : w = [] := List.eq_nil_of_length_eq_zero (by omega)
    subst empty
    exact Reads.pure a
  | succ n =>
    have again : Reads (pure a) d [] rest a d 0 := Reads.pure a
    unfold repeatUpTo
    exact Reads.bind_nil h again

theorem go (h : Reads (step a) d v (w ++ rest) (some b) d' top) (consumes : v ≠ [])
    (hr : Repeats step b d' w rest e d'' top') :
    Repeats step a d (v ++ w) rest e d'' (max top top') := by
  intro n hn
  have := List.length_pos_iff.2 consumes
  rw [List.length_append] at hn
  cases n with
  | zero => omega
  | succ n =>
    unfold repeatUpTo
    exact Reads.bind h (hr n (by omega))

theorem iterate (h : Repeats step a d w rest b d' top) :
    Reads (iterate step a) d w rest b d' top := by
  intro c hw hd hs
  have bound : w.length ≤ c.size := by
    rw [hw, List.length_append] at hs
    omega
  exact h c.size bound c hw hd hs

end Repeats

variable {α : Type} {item : Parser α} {a : α} {items : List α}
variable {d top : Nat} {comma : Token} {w rest : List Token}

theorem commaStep_reads (h : Reads item d w rest a d top) (kind : comma.kind = .symbol .comma)
    (items : List α) : Reads (commaStep item items) d (comma :: w) rest (some (a :: items)) d top :=
  Reads.accept_true_bind kind (h.map fun a => some (a :: items))

theorem commaStep_stops (kind : firstKind rest ≠ .symbol .comma) :
    Reads (commaStep item items) d [] rest none d 0 :=
  Reads.accept_false_bind kind (Reads.pure none)

theorem commaList_reads {v : List Token} {top' : Nat} (h : Reads item d v (w ++ rest) a d top)
    (more : Repeats (commaStep item) [a] d w rest items d top') :
    Reads (commaList item) d (v ++ w) rest items.reverse d (max top top') :=
  Reads.bind h (more.iterate.map List.reverse)

theorem commaListUnless_reads {closing : Token.Kind → Bool}
    (kind : closing (firstKind (w ++ rest)) = false)
    (h : Reads (commaList item) d w rest items d top) :
    Reads (commaListUnless closing item) d w rest items d top := by
  apply Reads.peek_bind
  rw [if_neg (by simpa using kind)]
  exact h

theorem commaListUnless_reads_nil {closing : Token.Kind → Bool}
    (kind : closing (firstKind rest) = true) :
    Reads (commaListUnless closing item) d [] rest [] d 0 := by
  apply Reads.peek_bind
  rw [if_pos (by simpa using kind)]
  exact Reads.pure []

/-- The operators of a precedence, as the parser knows them. -/
def operatorOf : Tier → Token.Kind → Option BinOp
  | .comparison => comparisonOp
  | .additive => additiveOp
  | .multiplicative => multiplicativeOp

/-- What the parser reads between the operators of a precedence. -/
def operandOf (primary : Parser Expr) : Tier → Parser Expr
  | .multiplicative => primary
  | .additive => chain multiplicativeOp primary
  | .comparison => chain additiveOp (chain multiplicativeOp primary)

theorem operatorOf_eq_some_iff {tier : Tier} {kind : Token.Kind} {op : BinOp} :
    operatorOf tier kind = some op ↔ op.tier = tier ∧ kind = .symbol op.sign := by
  constructor
  · intro h
    cases kind with
    | symbol s => cases tier <;> cases s <;> cases h <;> exact ⟨rfl, rfl⟩
    | _ => cases tier <;> cases h
  · rintro ⟨rfl, rfl⟩
    cases op <;> rfl

theorem operatorOf_eq_none_iff {tier : Tier} {rest : List Token} :
    operatorOf tier (firstKind rest) = none ↔ ¬ Yield.Continues tier rest := by
  rw [Option.eq_none_iff_forall_ne_some]
  simp only [ne_eq, operatorOf_eq_some_iff, Yield.Continues, not_exists]

section Chains

variable {tier : Tier} {operand : Parser Expr} {l r : Expr} {op : BinOp} {o : Token}

theorem chainStep_stops (stop : ¬ Yield.Continues tier rest) :
    Repeats (chainStep (operatorOf tier) operand) l d [] rest l d 0 := by
  refine Repeats.stop (Reads.peek_bind ?_)
  rw [List.nil_append, operatorOf_eq_none_iff.2 stop]
  exact Reads.pure none

theorem chainStep_reads (ht : op.tier = tier) (ho : o.kind = .symbol op.sign)
    (h : d + 1 ≤ maxNesting → Reads operand (d + 1) w rest r (d + 1) top) :
    Reads (chainStep (operatorOf tier) operand l) d (o :: w) rest (some (.binary l op r)) (d + 1)
      (max (d + 1) top) := by
  apply Reads.peek_bind
  rw [show operatorOf tier (firstKind (o :: w ++ rest)) = some op from
    operatorOf_eq_some_iff.2 ⟨ht, ho⟩]
  refine Reads.bind_within (v := []) Reads.enter fun within => ?_
  exact Reads.next_bind ((h within).map fun r => some (Expr.binary l op r))

end Chains

end CypherLang.Parser
