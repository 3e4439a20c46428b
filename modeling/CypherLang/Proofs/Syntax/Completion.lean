import CypherLang.Proofs.Syntax.Following

namespace CypherLang.Yield

variable {rest : List Token}

theorem not_continues_of_closesPhrase (h : closesPhrase (firstKind rest)) (tier : Tier) :
    ¬ Continues tier rest := by
  have fits : Fits [] rest := .inr h
  exact fits.not_continues fun ⟨_, _, kind⟩ => nomatch kind

theorem ne_comma_of_closesPhrase (h : closesPhrase (firstKind rest)) :
    firstKind rest ≠ .symbol .comma := by
  intro kind
  rw [kind] at h
  cases h

theorem closesPhrase_of_closesBlock {kind : Token.Kind} (h : Parser.closesBlock kind) :
    closesPhrase kind := by
  revert h
  cases kind with
  | symbol s => cases s <;> simp [Parser.closesBlock, closesPhrase]
  | _ => simp [Parser.closesBlock, closesPhrase]

mutual

theorem Primary.not_startsAssignment {n e w rest} (h : firstKind rest ≠ .symbol .assign) :
    Primary n e w rest → ¬ StartsAssignment (w ++ rest)
  | .number ht _, starts => by simp [StartsAssignment, firstKind, ht] at starts
  | .string ht, starts => by simp [StartsAssignment, firstKind, ht] at starts
  | .word ht _, starts => by simp [StartsAssignment, firstKind, ht] at starts
  | .identifier _ _, starts => h starts.2
  | .callEmpty _ ho _, starts => by simp [StartsAssignment, firstKind, ho] at starts
  | .call _ ho _ _, starts => by simp [StartsAssignment, firstKind, ho] at starts
  | .group ho _ _, starts => by simp [StartsAssignment, firstKind, ho] at starts
  | .neg ht _, starts => by simp [StartsAssignment, firstKind, ht] at starts

theorem Operand.not_startsAssignment {tier n e w rest} (h : firstKind rest ≠ .symbol .assign) :
    Operand tier n e w rest → ¬ StartsAssignment (w ++ rest)
  | .primary operand => operand.not_startsAssignment h
  | .product chain _ => chain.not_startsAssignment h
  | .sum chain _ => chain.not_startsAssignment h

theorem Chain.not_startsAssignment {tier k n e w rest} (h : firstKind rest ≠ .symbol .assign) :
    Chain tier k n e w rest → ¬ StartsAssignment (w ++ rest)
  | .operand operand => operand.not_startsAssignment h
  | @Chain.operator _ _ _ _ _ _ _ v _ o op left _ ho _ => by
    have other : firstKind (o :: v ++ rest) ≠ .symbol .assign := by
      rw [List.cons_append, firstKind, ho]
      cases op <;> simp [BinOp.sign]
    have plain := left.not_startsAssignment other
    rwa [← List.append_assoc] at plain

end

theorem Expression.not_startsAssignment {n e w} (h : firstKind rest ≠ .symbol .assign) :
    Expression n e w rest → ¬ StartsAssignment (w ++ rest)
  | .comparison chain _ => chain.not_startsAssignment h

theorem Statement.ne_newline {n s t w rest} (h : Statement n s (t :: w) rest) :
    t.kind ≠ .newline := by
  intro newline
  have starts := h.starts
  rw [firstKind, newline] at starts
  cases starts

def nullToken : Token := Keyword.nullWord.token 1

theorem primary_null (rest : List Token) : Primary 0 (.literal .null) [nullToken] rest :=
  .word rfl rfl

theorem expression_null (h : closesPhrase (firstKind rest)) :
    Expression 1 (.literal .null) [nullToken] rest :=
  (primary_null rest).expression (not_continues_of_closesPhrase h)

def emptyBlock : List Token := [Symbol.lbrace.token 1, Symbol.rbrace.token 1]

theorem block_emptyBlock (rest : List Token) : Block 1 [] emptyBlock rest :=
  .braces (w := []) rfl (.nil (by simp [Breaks])) rfl

/-- More tokens make the word `w` a phrase, wherever a token of one of the `closing` kinds
follows. -/
def Completes {α : Type} (R : Nat → α → List Token → List Token → Prop)
    (closing : Token.Kind → Bool) (w : List Token) : Prop :=
  ∃ n a v, (∀ t ∈ v, t.kind ≠ .eof) ∧ ∀ rest, closing (firstKind rest) → R n a (w ++ v) rest

/-- The tokens up to `r` start a phrase that can be completed. -/
def Unfinished {α : Type} (R : Nat → α → List Token → List Token → Prop)
    (closing : Token.Kind → Bool) (tokens r : List Token) : Prop :=
  ∃ w, tokens = w ++ r ∧ Completes R closing w

namespace Unfinished

variable {α β : Type} {R : Nat → α → List Token → List Token → Prop}
variable {S : Nat → β → List Token → List Token → Prop}
variable {closing closing' : Token.Kind → Bool} {tokens tokens' r v : List Token}

/-- An unfinished phrase between the words `v` and `x`. -/
theorem wrap (h : Unfinished R closing tokens' r) (split : tokens = v ++ tokens')
    (x : List Token) (inner : ∀ t ∈ x, t.kind ≠ .eof)
    (closes : ∀ rest, closing' (firstKind rest) → closing (firstKind (x ++ rest)))
    (rule : ∀ n a, ∃ m b, ∀ u rest, closing' (firstKind rest) → R n a u (x ++ rest) →
      S m b (v ++ (u ++ x)) rest) : Unfinished S closing' tokens r := by
  obtain ⟨w, hw, n, a, y, inner', derived⟩ := h
  obtain ⟨m, b, rule⟩ := rule n a
  refine ⟨v ++ w, by rw [split, hw, List.append_assoc], m, b, y ++ x, ?_, ?_⟩
  · intro t mem
    exact (List.mem_append.1 mem).elim (inner' t) (inner t)
  · intro rest close
    have whole := rule (w ++ y) rest close (derived _ (closes rest close))
    simpa only [List.append_assoc] using whole

theorem prepend (h : Unfinished R closing tokens' r) (split : tokens = v ++ tokens')
    (closes : ∀ kind, closing' kind → closing kind)
    (rule : ∀ n a, ∃ m b, ∀ u rest, closing' (firstKind rest) → R n a u rest →
      S m b (v ++ u) rest) : Unfinished S closing' tokens r := by
  refine h.wrap split [] (by simp) (fun rest => closes _) fun n a => ?_
  obtain ⟨m, b, rule⟩ := rule n a
  refine ⟨m, b, fun u rest close derived => ?_⟩
  rw [List.append_nil]
  exact rule u rest close derived

end Unfinished

end CypherLang.Yield

namespace CypherLang.Parser

open Yield

variable {α β : Type}

/-- The outcome is an unexpected token with the tokens `r` still to come, itself among them. -/
def Stuck (x : EStateM.Result SyntaxError Cursor α) (r : List Token) : Prop :=
  ∃ expected found line c, x = .error (.unexpectedToken expected found line) c ∧ c.rest = r

/-- What the parser takes before an unexpected token can be completed. -/
def Completable (p : Parser α) (R : Nat → α → List Token → List Token → Prop)
    (closing : Token.Kind → Bool) : Prop :=
  ∀ (c : Cursor) (r : List Token), Stuck (p c) r → c.rest.length ≤ c.size →
    c.depth ≤ maxNesting → Unfinished R closing c.rest r

namespace Stuck

variable {p : Parser α} {f : α → Parser β} {c : Cursor} {r : List Token} {k : Token.Kind}

theorem bind (h : Stuck ((p >>= f) c) r) :
    Stuck (p c) r ∨ ∃ a c', p c = .ok a c' ∧ Stuck (f a c') r := by
  cases run : p c with
  | ok a c' =>
    rw [bind_apply_of_ok run] at h
    exact .inr ⟨a, c', rfl, h⟩
  | error e c' =>
    rw [bind_apply_of_error run] at h
    obtain ⟨expected, found, line, d, same, rest⟩ := h
    cases same
    exact .inl ⟨expected, found, line, c', rfl, rest⟩

theorem not_ok {a : α} : ¬ Stuck (.ok a c) r := fun ⟨_, _, _, _, same, _⟩ => nomatch same

theorem map {g : α → β} (h : Stuck ((p >>= fun x => pure (g x)) c) r) : Stuck (p c) r := by
  obtain first | ⟨a, c', -, last⟩ := h.bind
  · exact first
  · exact absurd last not_ok

theorem leaving {depth : Cursor → Nat} (h : Stuck (leaving depth p c) r) : Stuck (p c) r := by
  unfold Parser.leaving at h
  cases run : p c with
  | ok a c' =>
    rw [run] at h
    exact absurd h not_ok
  | error e c' =>
    rw [run] at h
    obtain ⟨expected, found, line, d, same, rest⟩ := h
    cases same
    exact ⟨expected, found, line, c', rfl, rest⟩

theorem enter_bind {f : Unit → Parser β} (h : Stuck ((enter >>= f) c) r) :
    c.depth < maxNesting ∧ Stuck (f () { c with depth := c.depth + 1 }) r := by
  obtain ⟨room, run⟩ | run := enter_bind_cases (c := c) f
  · exact ⟨room, run ▸ h⟩
  · rw [run] at h
    obtain ⟨_, _, _, _, same, _⟩ := h
    cases same

theorem next_bind {f : Token → Parser β} {t : Token} {r' : List Token}
    (h : Stuck ((next >>= f) c) r) (hr : c.rest = t :: r') :
    Stuck (f t { c with rest := r' }) r := by
  rwa [next_bind_apply f hr] at h

theorem accept_bind {f : Bool → Parser β} (h : Stuck ((accept k >>= f) c) r) (hk : k ≠ .eof) :
    (∃ t r', c.rest = t :: r' ∧ t.kind = k ∧ Stuck (f true { c with rest := r' }) r) ∨
      Stuck (f false c) r := by
  obtain ⟨t, r', hr, ht, run⟩ | ⟨-, run⟩ := accept_bind_cases (c := c) f hk
  · exact .inl ⟨t, r', hr, ht, run ▸ h⟩
  · exact .inr (run ▸ h)

theorem require_bind {f : Token → Parser β} (h : Stuck ((require k >>= f) c) r)
    (hk : k ≠ .eof) :
    c.rest = r ∧ firstKind c.rest ≠ k ∨
      ∃ t r', c.rest = t :: r' ∧ t.kind = k ∧ Stuck (f t { c with rest := r' }) r := by
  obtain ⟨t, r', hr, ht, run⟩ | ⟨other, run⟩ := require_bind_cases (c := c) f hk
  · exact .inr ⟨t, r', hr, ht, run ▸ h⟩
  · rw [run] at h
    obtain ⟨_, _, _, _, same, rest⟩ := h
    cases same
    exact .inl ⟨rest, other⟩

theorem identifier_bind {f : String → Parser β} (h : Stuck ((identifier >>= f) c) r) :
    c.rest = r ∧ firstKind c.rest ≠ .identifier ∨ ∃ t r', c.rest = t :: r' ∧
      t.kind = .identifier ∧ Stuck (f t.text { c with rest := r' }) r := by
  unfold Parser.identifier at h
  rw [bind_assoc] at h
  exact h.require_bind (by simp)

theorem acceptAfterBreaks_bind {f : Bool → Parser β}
    (h : Stuck ((acceptAfterBreaks k >>= f) c) r) (hk : k ≠ .eof) :
    (∃ gap t r', c.rest = gap ++ t :: r' ∧ Breaks gap ∧ t.kind = k ∧
      Stuck (f true { c with rest := r' }) r) ∨ Stuck (f false c) r := by
  obtain ⟨gap, t, r', hr, breaks, ht, run⟩ | ⟨-, run⟩ := acceptAfterBreaks_bind_cases (c := c) f hk
  · exact .inl ⟨gap, t, r', hr, breaks, ht, run ▸ h⟩
  · exact .inr (run ▸ h)

end Stuck

/-- The first of two parsers is stuck, or it has read its phrase and the second one is stuck. -/
theorem Derives.bind_stuck {p : Parser α} {f : α → Parser β}
    {R : Nat → α → List Token → List Token → Prop} {c : Cursor} {r : List Token}
    (derives : Derives p R) (h : Stuck ((p >>= f) c) r) (hsize : c.rest.length ≤ c.size)
    (hd : c.depth ≤ maxNesting) :
    Stuck (p c) r ∨ ∃ a c' w n, c.rest = w ++ c'.rest ∧ c'.rest.length ≤ c'.size ∧
      c'.depth ≤ maxNesting ∧ R n a w c'.rest ∧ Stuck (f a c') r := by
  refine h.bind.imp_right ?_
  rintro ⟨a, c', run, last⟩
  obtain ⟨w, n, hw, size, depth, -, derived⟩ := derives c c' a run hsize hd
  rw [hw, List.length_append] at hsize
  exact ⟨a, c', w, n, hw, by omega, by omega, derived, last⟩

namespace Completable

variable {p : Parser α} {R S : Nat → α → List Token → List Token → Prop}
variable {closing : Token.Kind → Bool}

theorem mono (h : Completable p R closing)
    (imp : ∀ {n a w rest}, closing (firstKind rest) → R n a w rest → S n a w rest) :
    Completable p S closing := by
  intro c r stuck hsize hd
  obtain ⟨w, hw, n, a, v, inner, derived⟩ := h c r stuck hsize hd
  exact ⟨w, hw, n, a, v, inner, fun rest close => imp close (derived rest close)⟩

theorem deeper (h : Completable p R closing) :
    Completable (deeper p) (fun n a w rest => ∃ m, n = m + 1 ∧ R m a w rest) closing := by
  intro c r stuck hsize hd
  obtain ⟨room, inner⟩ := stuck.enter_bind
  obtain ⟨w, hw, n, a, v, inner, derived⟩ := h _ _ inner.leaving hsize room
  exact ⟨w, hw, n + 1, a, v, inner, fun rest close => ⟨n, rfl, derived rest close⟩⟩

/-- A phrase and the symbol that closes it. If the phrase was read to its end, it is one before the
symbol as well. -/
theorem closed {s : Symbol} (derives : Derives p R) (h : Completable p R closing) (g : α → β)
    (closes : closing (.symbol s))
    (keep : ∀ {n a w rest t rest'}, R n a w rest → t.kind = .symbol s → R n a w (t :: rest')) :
    Completable (do let a ← p; let _ ← require (.symbol s); return g a) (fun n b w rest =>
      ∃ a v t, b = g a ∧ w = v ++ [t] ∧ t.kind = .symbol s ∧ R n a v (t :: rest))
      fun _ => true := by
  intro c r stuck hsize hd
  have symbol : (s.token 1).kind ≠ .eof := by simp [Symbol.token]
  obtain inner | ⟨a, c', w, n, hw, -, -, derived, last⟩ := derives.bind_stuck stuck hsize hd
  · obtain ⟨w, hw, n, a, v, inner, derived⟩ := h c r inner hsize hd
    refine ⟨w, hw, n, g a, v ++ [s.token 1], ?_, fun rest _ => ?_⟩
    · simpa [or_imp, forall_and] using ⟨inner, symbol⟩
    · exact ⟨a, w ++ v, s.token 1, rfl, by rw [List.append_assoc], rfl, derived _ closes⟩
  · obtain ⟨same, -⟩ | ⟨t, r', -, -, last⟩ := last.require_bind (by simp)
    · rw [same] at hw
      refine ⟨w, hw, n, g a, [s.token 1], by simpa using symbol, fun rest _ => ?_⟩
      exact ⟨a, w, s.token 1, rfl, rfl, rfl, keep derived rfl⟩
    · exact absurd last Stuck.not_ok

end Completable

section Chains

variable {tier : Tier} {operand : Parser Expr}

theorem Stuck.chainStep {l : Expr} {c : Cursor} {r : List Token}
    (h : Stuck (chainStep (operatorOf tier) operand l c) r) :
    ∃ (op : BinOp) (o : Token) (r' : List Token), c.rest = o :: r' ∧ op.tier = tier ∧
      o.kind = .symbol op.sign ∧ c.depth < maxNesting ∧
      Stuck (operand { c with rest := r', depth := c.depth + 1 }) r := by
  unfold Parser.chainStep foldStep at h
  rw [peek_bind_apply] at h
  cases hop : operatorOf tier (firstKind c.rest) with
  | none =>
    rw [hop] at h
    exact absurd h not_ok
  | some op =>
    rw [hop] at h
    obtain ⟨ht, ho⟩ := operatorOf_eq_some_iff.1 hop
    obtain ⟨o, r', hr, ho⟩ := exists_cons_of_firstKind ho (by simp)
    obtain ⟨room, h⟩ := h.enter_bind
    exact ⟨op, o, r', hr, ht, ho, room, (h.next_bind hr).map⟩

/-- The steps of a chain whose operands and operators so far are the word `w`. -/
theorem chain_steps_complete (derives : Derives operand (Operand tier))
    (h : Completable operand (Operand tier) closesPhrase) (steps : Nat) :
    ∀ {c : Cursor} {r : List Token} {l : Expr} {k n : Nat} {w : List Token},
      Stuck (repeatUpTo (chainStep (operatorOf tier) operand) steps l c) r →
      c.rest.length ≤ c.size → Chain tier k n l w c.rest →
      ∃ v, c.rest = v ++ r ∧ Completes (fun n e w rest => ∃ k, Chain tier k n e w rest)
        closesPhrase (w ++ v) := by
  induction steps with
  | zero =>
    intro c r l k n w stuck
    exact absurd stuck Stuck.not_ok
  | succ steps ih =>
    intro c r l k n w stuck hsize chain
    obtain step | ⟨next, c', step, more⟩ := stuck.bind
    · obtain ⟨op, o, r', hr, ht, ho, room, inner⟩ := step.chainStep
      rw [hr, List.length_cons] at hsize
      obtain ⟨v, hv, m, e, x, inner, derived⟩ := h _ _ inner (Nat.le_of_lt hsize) room
      change r' = v ++ r at hv
      refine ⟨o :: v, by rw [hr, hv, List.cons_append], max n (k + 1 + m), .binary l op e, x, inner,
        fun rest close => ⟨k + 1, ?_⟩⟩
      have left : Chain tier k n l w (o :: (v ++ x) ++ rest) :=
        chain.before (.inl (by rw [hr]; rfl))
      rw [List.append_assoc]
      exact .operator left ht ho (derived rest close)
    · obtain ⟨rfl, rfl, -⟩ | ⟨op, o, r', right, hr, ht, ho, room, rfl, read⟩ := chainStep_ok step
      · exact absurd more Stuck.not_ok
      · rw [hr, List.length_cons] at hsize
        obtain ⟨v, m, hv, size, -, -, operand⟩ := derives _ _ _ read (Nat.le_of_lt hsize) room
        change r' = v ++ c'.rest at hv
        change c'.size = c.size at size
        rw [hr, hv, ← List.cons_append] at chain
        rw [hv, List.length_append] at hsize
        obtain ⟨u, hu, completes⟩ := ih more (by omega) (.operator chain ht ho operand)
        refine ⟨o :: v ++ u, by rw [hr, hv, hu]; simp, ?_⟩
        rwa [List.append_assoc] at completes

theorem chain_completable (derives : Derives operand (Operand tier))
    (h : Completable operand (Operand tier) closesPhrase) :
    Completable (chain (operatorOf tier) operand)
      (fun n e w rest => ∃ k, Chain tier k n e w rest) closesPhrase := by
  intro c r stuck hsize hd
  obtain first | ⟨e, c', w, n, hw, size, -, operand, more⟩ :=
    derives.bind_stuck stuck.leaving hsize hd
  · obtain ⟨w, hw, n, e, v, inner, derived⟩ := h c r first hsize hd
    exact ⟨w, hw, n, e, v, inner, fun rest close => ⟨0, .operand (derived rest close)⟩⟩
  · obtain ⟨v, hv, completes⟩ := chain_steps_complete derives h _ more size (.operand operand)
    exact ⟨w ++ v, by rw [hw, hv, List.append_assoc], completes⟩

end Chains

theorem expressionOf_completable {primary : Parser Expr} (derives : Derives primary Primary)
    (h : Completable primary Primary closesPhrase) :
    Completable (expressionOf primary) Expression closesPhrase := by
  have product : Completable (chain multiplicativeOp primary) (Operand .additive) closesPhrase :=
    (chain_completable (derives.mono .primary) (h.mono fun _ => .primary)).mono
      fun close ⟨_, h⟩ => .product h (not_continues_of_closesPhrase close _)
  have sum : Completable (chain additiveOp (chain multiplicativeOp primary)) (Operand .comparison)
      closesPhrase :=
    (chain_completable (product_derives derives) product).mono
      fun close ⟨_, h⟩ => .sum h (not_continues_of_closesPhrase close _)
  refine (chain_completable (sum_derives derives) sum).deeper.mono ?_
  rintro _ e w rest close ⟨n, rfl, k, chain⟩
  exact .comparison chain (not_continues_of_closesPhrase close _)

section Commas

variable {item : Parser α} {R : Nat → α → List Token → List Token → Prop}
variable {S : Nat → List α → List Token → List Token → Prop}

theorem Stuck.commaStep {items : List α} {c : Cursor} {r : List Token}
    (h : Stuck (commaStep item items c) r) :
    ∃ comma r', c.rest = comma :: r' ∧ comma.kind = .symbol .comma ∧
      Stuck (item { c with rest := r' }) r := by
  obtain ⟨comma, r', hr, hc, h⟩ | h := Stuck.accept_bind h (by simp)
  · exact ⟨comma, r', hr, hc, Stuck.map (g := fun a => some (a :: items)) h⟩
  · exact absurd h not_ok

/-- The steps of a list whose last item so far is the word `w`. -/
theorem comma_steps_complete (derives : Derives item R) (h : Completable item R closesPhrase)
    (rules : ListRules R S) (keep : ∀ {n a w rest rest'}, R n a w rest →
      firstKind rest' = firstKind rest → R n a w rest') (steps : Nat) :
    ∀ {c : Cursor} {r : List Token} {items : List α} {n : Nat} {a : α} {w : List Token},
      Stuck (repeatUpTo (commaStep item) steps items c) r → c.rest.length ≤ c.size →
      c.depth ≤ maxNesting → R n a w c.rest →
      ∃ v, c.rest = v ++ r ∧ Completes S closesPhrase (w ++ v) := by
  induction steps with
  | zero =>
    intro c r items n a w stuck
    exact absurd stuck Stuck.not_ok
  | succ steps ih =>
    intro c r items n a w stuck hsize hd derived
    -- One more item, read or completed, and the list that it starts.
    have join {comma : Token} {r' v : List Token} (hr : c.rest = comma :: r')
        (hc : comma.kind = .symbol .comma) (completes : Completes S closesPhrase v) :
        Completes S closesPhrase (w ++ comma :: v) := by
      obtain ⟨m, as, x, inner, list⟩ := completes
      refine ⟨max n m, a :: as, x, inner, fun rest close => ?_⟩
      have first : R n a w (comma :: (v ++ x) ++ rest) := keep derived (by rw [hr]; rfl)
      rw [List.append_assoc]
      exact rules.more first hc (list rest close)
    obtain step | ⟨next, c', step, more⟩ := stuck.bind
    · obtain ⟨comma, r', hr, hc, inner⟩ := step.commaStep
      rw [hr, List.length_cons] at hsize
      obtain ⟨v, hv, m, b, x, inner, item⟩ := h _ _ inner (Nat.le_of_lt hsize) hd
      change r' = v ++ r at hv
      refine ⟨comma :: v, by rw [hr, hv, List.cons_append], join hr hc ?_⟩
      exact ⟨m, [b], x, inner, fun rest close => rules.last (item rest close)⟩
    · obtain ⟨rfl, rfl, -⟩ | ⟨comma, r', b, hr, hc, rfl, read⟩ := commaStep_ok step
      · exact absurd more Stuck.not_ok
      · rw [hr, List.length_cons] at hsize
        obtain ⟨v, m, hv, size, depth, -, item⟩ := derives _ _ _ read (Nat.le_of_lt hsize) hd
        change r' = v ++ c'.rest at hv
        change c'.size = c.size at size
        change c'.depth = c.depth at depth
        rw [hv, List.length_append] at hsize
        obtain ⟨u, hu, completes⟩ := ih more (by omega) (by omega) item
        exact ⟨comma :: (v ++ u), by rw [hr, hv, hu]; simp, join hr hc completes⟩

theorem commaListUnless_completable (closing : Token.Kind → Bool) (derives : Derives item R)
    (h : Completable item R closesPhrase) (rules : ListRules R S)
    (keep : ∀ {n a w rest rest'}, R n a w rest → firstKind rest' = firstKind rest →
      R n a w rest') : Completable (commaListUnless closing item) S closesPhrase := by
  intro c r stuck hsize hd
  unfold commaListUnless at stuck
  rw [peek_bind_apply] at stuck
  split at stuck
  · exact absurd stuck Stuck.not_ok
  · obtain first | ⟨a, c', w, n, hw, size, depth, derived, more⟩ :=
      derives.bind_stuck stuck hsize hd
    · obtain ⟨w, hw, n, a, v, inner, derived⟩ := h c r first hsize hd
      exact ⟨w, hw, n, [a], v, inner, fun rest close => rules.last (derived rest close)⟩
    · obtain ⟨v, hv, completes⟩ :=
        comma_steps_complete derives h rules keep _ more.map size depth derived
      exact ⟨w ++ v, by rw [hw, hv, List.append_assoc], completes⟩

end Commas

theorem arguments_completable (closing : Token.Kind → Bool) {expression : Parser Expr}
    (derives : Derives expression Expression)
    (h : Completable expression Expression closesPhrase) :
    Completable (commaListUnless closing expression) Arguments closesPhrase :=
  commaListUnless_completable closing derives h ⟨.last, .more⟩ fun h same => h.before (.inl same)

section Expressions

variable {expression primary : Parser Expr} {t opening : Token} {c : Cursor} {r r' : List Token}

theorem call_completable (derives : Derives expression Expression)
    (h : Completable expression Expression closesPhrase)
    (stuck : Stuck ((do
      let args ← commaListUnless (fun kind => kind == Token.Kind.symbol .rparen) expression
      let _ ← require (.symbol .rparen)
      return Expr.call t.text args) { c with rest := r' }) r)
    (ht : t.kind = .identifier) (ho : opening.kind = .symbol .lparen)
    (hr : c.rest = t :: opening :: r') (hsize : c.rest.length ≤ c.size)
    (hd : c.depth ≤ maxNesting) : Unfinished Primary closesPhrase c.rest r := by
  have shorter : r'.length ≤ c.size := by
    rw [hr, List.length_cons, List.length_cons] at hsize
    omega
  have list := (arguments_completable (· == .symbol .rparen) derives h).mono
    (S := fun n args w rest => (n = 0 ∧ args = [] ∧ w = [] ∧ firstKind rest == .symbol .rparen) ∨
      (Arguments n args w rest ∧ firstKind rest ≠ .symbol .comma))
    fun close args => .inr ⟨args, ne_comma_of_closesPhrase close⟩
  have read := list.closed (arguments_derive derives) (Expr.call t.text) rfl ?_ _ _ stuck shorter hd
  · refine read.prepend (v := [t, opening]) hr (fun _ _ => rfl) fun n e => ⟨n, e, ?_⟩
    rintro _ rest - ⟨args, w, closing, rfl, rfl, hc, ⟨rfl, rfl, rfl, -⟩ | ⟨derived, -⟩⟩
    · exact .callEmpty ht ho hc
    · exact .call ht ho derived hc
  · rintro n args w rest closing rest' (⟨rfl, rfl, rfl, -⟩ | ⟨derived, -⟩) hc
    · exact .inl ⟨rfl, rfl, rfl, by simp [firstKind, hc]⟩
    · exact .inr ⟨derived.before (.inr (by rw [firstKind, hc]; rfl)), by simp [firstKind, hc]⟩

theorem group_completable (derives : Derives expression Expression)
    (h : Completable expression Expression closesPhrase)
    (stuck : Stuck ((do
      let e ← expression
      let _ ← require (.symbol .rparen)
      return e) { c with rest := r' }) r)
    (ht : t.kind = .symbol .lparen) (hr : c.rest = t :: r') (hsize : c.rest.length ≤ c.size)
    (hd : c.depth ≤ maxNesting) : Unfinished Primary closesPhrase c.rest r := by
  rw [hr, List.length_cons] at hsize
  have read := h.closed derives id rfl ?_ _ _ stuck (Nat.le_of_lt hsize) hd
  · refine read.prepend (v := [t]) hr (fun _ _ => rfl) fun n e => ⟨n, e, ?_⟩
    rintro _ rest - ⟨e, w, closing, rfl, rfl, hc, derived⟩
    exact .group ht derived hc
  · intro n e w rest closing rest' derived hc
    exact derived.before (.inr (by rw [firstKind, hc]; rfl))

theorem neg_completable (h : Completable primary Primary closesPhrase)
    (stuck : Stuck ((deeper do return Expr.neg (← primary)) { c with rest := r' }) r)
    (ht : t.kind = .symbol .minus) (hr : c.rest = t :: r') (hsize : c.rest.length ≤ c.size) :
    Unfinished Primary closesPhrase c.rest r := by
  rw [hr, List.length_cons] at hsize
  obtain ⟨room, inner⟩ := stuck.enter_bind
  have read := h _ _ inner.leaving.map (Nat.le_of_lt hsize) room
  refine read.prepend (v := [t]) hr (fun _ => id) fun n e => ⟨n + 1, .neg e, ?_⟩
  intro w rest _ derived
  exact .neg ht derived

end Expressions

theorem primary_completable (levels : Nat) : Completable (primary levels) Primary closesPhrase := by
  induction levels with
  | zero =>
    rintro c r ⟨_, _, _, _, same, _⟩
    cases same
  | succ levels ih =>
    intro c r stuck hsize hd
    have derives := expressionOf_derives (primary_derives levels)
    have inner := expressionOf_completable (primary_derives levels) ih
    unfold primary primaryWith at stuck
    rw [peek_bind_apply] at stuck
    -- Where no operand starts, one is missing.
    have missing (h : Stuck ((refuse .expression : Parser Expr) c) r) :
        Unfinished Primary closesPhrase c.rest r := by
      obtain ⟨_, _, _, _, same, rest⟩ := h
      cases same
      exact ⟨[], rest, 0, .literal .null, [nullToken], by decide, fun rest _ => primary_null rest⟩
    cases kind : firstKind c.rest with
    | identifier =>
      rw [kind] at stuck
      obtain ⟨t, r₁, hr, ht⟩ := exists_cons_of_firstKind kind (by simp)
      have stuck := stuck.next_bind hr
      obtain ⟨opening, r', hr', ho, run⟩ | ⟨-, run⟩ :=
        callOrName_cases (expressionOf (primary levels)) t.text { c with rest := r₁ }
      · change r₁ = opening :: r' at hr'
        rw [hr'] at hr
        exact call_completable derives inner (run ▸ stuck) ht ho hr hsize hd
      · exact absurd (run ▸ stuck) Stuck.not_ok
    | symbol s =>
      rw [kind] at stuck
      obtain ⟨t, r', hr, ht⟩ := exists_cons_of_firstKind kind (by simp)
      cases s
      case lparen => exact group_completable derives inner (stuck.next_bind hr) ht hr hsize hd
      case minus => exact neg_completable ih (stuck.next_bind hr) ht hr hsize
      all_goals exact missing stuck
    | number =>
      rw [kind] at stuck
      obtain ⟨t, r', hr, -⟩ := exists_cons_of_firstKind kind (by simp)
      have read := stuck.next_bind hr
      cases hl : Literal.ofNumber? t.text with
      | some l =>
        simp only [hl] at read
        exact absurd read Stuck.not_ok
      | none =>
        simp only [hl] at read
        obtain ⟨_, _, _, _, same, _⟩ := read
        cases same
    | string =>
      rw [kind] at stuck
      exact absurd stuck Stuck.not_ok
    | keyword k =>
      rw [kind] at stuck
      cases k
      case trueWord => exact absurd stuck Stuck.not_ok
      case falseWord => exact absurd stuck Stuck.not_ok
      case nullWord => exact absurd stuck Stuck.not_ok
      all_goals exact missing stuck
    | newline =>
      rw [kind] at stuck
      exact missing stuck
    | eof =>
      rw [kind] at stuck
      exact missing stuck

theorem expression_completable : Completable expression Expression closesPhrase :=
  expressionOf_completable (primary_derives _) (primary_completable _)

theorem parameters_completable :
    Completable (commaListUnless (fun kind => kind == Token.Kind.symbol .rparen) identifier)
      (fun n names w _ => n = 0 ∧ Parameters names w) closesPhrase := by
  have name : Completable identifier Name closesPhrase := by
    intro c r stuck _ _
    obtain ⟨same, -⟩ | ⟨t, r', -, -, last⟩ := stuck.require_bind (by simp)
    · exact ⟨[], same, 0, "x", [nameToken 1 "x"], by decide, fun _ _ => ⟨rfl, _, rfl, rfl, rfl⟩⟩
    · exact absurd last Stuck.not_ok
  have names := commaListUnless_completable (· == .symbol .rparen) identifier_derives name
    names_rules fun h _ => h
  exact names.mono fun _ h => ⟨h.1, .some h.2⟩

section Statements

variable {block : Parser (List Stmt)} {t : Token} {r r' : List Token} {c : Cursor}

theorem spit_completable (stuck : Stuck ((do
      let name ← identifier
      let _ ← require (.symbol .assign)
      return Stmt.spit name (← expression)) { c with rest := r' }) r)
    (ht : t.kind = .keyword .spit) (hr : c.rest = t :: r') (hsize : c.rest.length ≤ c.size)
    (hd : c.depth ≤ maxNesting) : Unfinished Statement closesBlock c.rest r := by
  obtain ⟨same, -⟩ | ⟨name, r₁, hr₁, hn, stuck⟩ := stuck.identifier_bind
  · change r' = r at same
    subst same
    exact ⟨[t], hr, _, _, [nameToken 1 "x", Symbol.assign.token 1, nullToken], by decide,
      fun rest close => .spit ht rfl rfl (expression_null (closesPhrase_of_closesBlock close))⟩
  change r' = name :: r₁ at hr₁
  subst hr₁
  obtain ⟨same, -⟩ | ⟨equals, r₂, hr₂, he, stuck⟩ := stuck.require_bind (by simp)
  · change r₁ = r at same
    subst same
    exact ⟨[t, name], hr, _, _, [Symbol.assign.token 1, nullToken], by decide,
      fun rest close => .spit ht hn rfl (expression_null (closesPhrase_of_closesBlock close))⟩
  change r₁ = equals :: r₂ at hr₂
  subst hr₂
  have shorter : r₂.length ≤ c.size := by
    simp only [hr, List.length_cons] at hsize
    omega
  have read := expression_completable _ _ stuck.map shorter hd
  refine read.prepend (v := [t, name, equals]) hr (fun _ => closesPhrase_of_closesBlock)
    fun n e => ⟨n, .spit name.text e, ?_⟩
  intro w rest _ derived
  exact .spit ht hn he derived

/-- Where a function is cut off, its missing parts are a name, no parameters and an empty block. -/
theorem verse_completable (h : Completable block Block fun _ => true) (stuck : Stuck ((do
      let name ← identifier
      let _ ← require (.symbol .lparen)
      let params ← commaListUnless (fun kind => kind == Token.Kind.symbol .rparen) identifier
      let _ ← require (.symbol .rparen)
      return Stmt.verse name params (← block)) { c with rest := r' }) r)
    (ht : t.kind = .keyword .verse) (hr : c.rest = t :: r') (hsize : c.rest.length ≤ c.size)
    (hd : c.depth ≤ maxNesting) : Unfinished Statement closesBlock c.rest r := by
  obtain ⟨same, -⟩ | ⟨name, r₁, hr₁, hn, stuck⟩ := stuck.identifier_bind
  · change r' = r at same
    subst same
    exact ⟨[t], hr, _, _, nameToken 1 "x" :: Symbol.lparen.token 1 :: Symbol.rparen.token 1 ::
      emptyBlock, by decide, fun rest _ => .verse ht rfl rfl .none rfl (block_emptyBlock rest)⟩
  change r' = name :: r₁ at hr₁
  subst hr₁
  obtain ⟨same, -⟩ | ⟨opening, r₂, hr₂, ho, stuck⟩ := stuck.require_bind (by simp)
  · change r₁ = r at same
    subst same
    exact ⟨[t, name], hr, _, _, Symbol.lparen.token 1 :: Symbol.rparen.token 1 :: emptyBlock,
      by decide, fun rest _ => .verse ht hn rfl .none rfl (block_emptyBlock rest)⟩
  change r₁ = opening :: r₂ at hr₂
  subst hr₂
  have shorter : r₂.length ≤ c.size := by
    simp only [hr, List.length_cons] at hsize
    omega
  obtain stuck | ⟨names, c₁, w, -, hw, size, depth, ⟨-, params⟩, stuck⟩ :=
    parameters_derive.bind_stuck stuck shorter hd
  · have read := parameters_completable _ _ stuck shorter hd
    refine read.wrap (v := [t, name, opening]) hr (Symbol.rparen.token 1 :: emptyBlock) (by decide)
      (fun _ _ => rfl) fun n params => ⟨1, .verse name.text params [], ?_⟩
    rintro w rest - ⟨-, params⟩
    exact .verse ht hn ho params rfl (block_emptyBlock rest)
  change r₂ = w ++ c₁.rest at hw
  rw [hw] at hr
  obtain ⟨same, -⟩ | ⟨closing, r₃, hr₃, hc, stuck⟩ := stuck.require_bind (by simp)
  · rw [same] at hr
    exact ⟨t :: name :: opening :: w, hr, _, _, Symbol.rparen.token 1 :: emptyBlock, by decide,
      fun rest _ => .verse ht hn ho params rfl (block_emptyBlock rest)⟩
  rw [hr₃] at hr
  rw [hr₃, List.length_cons] at size
  have read := h _ _ stuck.map (Nat.le_of_lt size) depth
  refine read.prepend (v := t :: name :: opening :: w ++ [closing]) (by rw [hr]; simp)
    (fun _ _ => rfl) fun n body => ⟨n, .verse name.text names body, ?_⟩
  intro u rest _ derived
  rw [List.append_assoc]
  exact .verse ht hn ho params hc derived

theorem flow_completable (stuck : Stuck ((do
      return Stmt.expr (.call t.text (← commaListUnless Token.Kind.closesStatement expression)))
      { c with rest := r' }) r)
    (ht : t.kind = .keyword .flow) (hr : c.rest = t :: r') (hsize : c.rest.length ≤ c.size)
    (hd : c.depth ≤ maxNesting) : Unfinished Statement closesBlock c.rest r := by
  rw [hr, List.length_cons] at hsize
  have read := arguments_completable _ expression_derives expression_completable _ _ stuck.map
    (Nat.le_of_lt hsize) hd
  refine read.prepend (v := [t]) hr (fun _ => closesPhrase_of_closesBlock)
    fun n args => ⟨n, .expr (.call t.text args), ?_⟩
  intro w rest close derived
  exact .flow ht derived (ne_comma_of_closesPhrase (closesPhrase_of_closesBlock close))

/-- Where a choice is cut off in its first block or before, it gets no second one. Where it is cut
off in the second block, other tokens follow the first one than those it has been read before. -/
theorem battle_completable (derives : Derives block Block)
    (h : Completable block Block fun _ => true) (stuck : Stuck ((do
      let _ ← require (.symbol .lparen)
      let condition ← expression
      let _ ← require (.symbol .rparen)
      let thenBranch ← block
      if ← acceptAfterBreaks (.keyword .defeat) then
        return Stmt.battle condition thenBranch (some (← block))
      else return Stmt.battle condition thenBranch none) { c with rest := r' }) r)
    (ht : t.kind = .keyword .battle) (hr : c.rest = t :: r') (hsize : c.rest.length ≤ c.size)
    (hd : c.depth ≤ maxNesting) : Unfinished Statement closesBlock c.rest r := by
  obtain ⟨same, -⟩ | ⟨opening, r₁, hr₁, ho, stuck⟩ := stuck.require_bind (by simp)
  · change r' = r at same
    subst same
    exact ⟨[t], hr, _, _, Symbol.lparen.token 1 :: nullToken :: Symbol.rparen.token 1 ::
      emptyBlock, by decide, fun rest close => .battle (v := [nullToken]) ht rfl
        (expression_null rfl) rfl (block_emptyBlock rest) (ends_of_closesBlock close).noDefeat⟩
  change r' = opening :: r₁ at hr₁
  subst hr₁
  have shorter : r₁.length ≤ c.size := by
    simp only [hr, List.length_cons] at hsize
    omega
  obtain stuck | ⟨condition, c₁, v, n, hv, size₁, depth₁, cond, stuck⟩ :=
    expression_derives.bind_stuck stuck shorter hd
  · have read := expression_completable _ _ stuck shorter hd
    refine read.wrap (v := [t, opening]) hr (Symbol.rparen.token 1 :: emptyBlock) (by decide)
      (fun _ _ => rfl) fun n e => ⟨max n 1, .battle e [] none, ?_⟩
    intro w rest close cond
    exact .battle ht ho cond rfl (block_emptyBlock rest) (ends_of_closesBlock close).noDefeat
  change r₁ = v ++ c₁.rest at hv
  rw [hv] at hr
  obtain ⟨same, -⟩ | ⟨closing, r₂, hr₂, hc, stuck⟩ := stuck.require_bind (by simp)
  · rw [same] at hr
    exact ⟨t :: opening :: v, hr, _, _, Symbol.rparen.token 1 :: emptyBlock, by decide,
      fun rest close => .battle ht ho (cond.before (.inr rfl)) rfl (block_emptyBlock rest)
        (ends_of_closesBlock close).noDefeat⟩
  rw [hr₂] at hr cond
  rw [hr₂, List.length_cons] at size₁
  obtain stuck | ⟨branch, c₂, w, m, hw, size₂, depth₂, body, stuck⟩ :=
    derives.bind_stuck stuck (Nat.le_of_lt size₁) depth₁
  · have read := h _ _ stuck (Nat.le_of_lt size₁) depth₁
    refine read.prepend (v := t :: opening :: v ++ [closing]) (by rw [hr]; simp) (fun _ _ => rfl)
      fun m body => ⟨max n m, .battle condition body none, ?_⟩
    intro w rest close body
    rw [List.append_assoc]
    exact .battle ht ho (cond.before (.inl rfl)) hc body (ends_of_closesBlock close).noDefeat
  change r₂ = w ++ c₂.rest at hw
  rw [hw] at hr
  obtain ⟨gap, defeat, r₃, hr₃, breaks, hdef, stuck⟩ | stuck :=
    stuck.acceptAfterBreaks_bind (by simp)
  · rw [hr₃] at hr
    rw [hr₃, List.length_append, List.length_cons] at size₂
    have read := h _ _ stuck.map (show r₃.length ≤ c₂.size by omega) depth₂
    refine read.prepend (v := t :: opening :: v ++ (closing :: w ++ (gap ++ [defeat])))
      (by rw [hr]; simp) (fun _ _ => rfl)
      fun k other => ⟨max n (max m k), .battle condition branch (some other), ?_⟩
    intro u rest _ other
    have split : (t :: opening :: v ++ (closing :: w ++ (gap ++ [defeat]))) ++ u =
      t :: opening :: v ++ (closing :: w ++ (gap ++ defeat :: u)) := by simp
    rw [split]
    exact .battleDefeat ht ho (cond.before (.inl rfl)) hc (body.before _) breaks hdef other
  · exact absurd stuck Stuck.not_ok

theorem ret_completable (stuck : Stuck ((do
      if (← peek).closesStatement then return Stmt.ret none
      else return Stmt.ret (some (← expression))) { c with rest := r' }) r)
    (ht : t.kind = .keyword .ret) (hr : c.rest = t :: r') (hsize : c.rest.length ≤ c.size)
    (hd : c.depth ≤ maxNesting) : Unfinished Statement closesBlock c.rest r := by
  rw [hr, List.length_cons] at hsize
  rw [peek_bind_apply] at stuck
  split at stuck
  · exact absurd stuck Stuck.not_ok
  · have read := expression_completable _ _ stuck.map (Nat.le_of_lt hsize) hd
    refine read.prepend (v := [t]) hr (fun _ => closesPhrase_of_closesBlock)
      fun n e => ⟨n, .ret (some e), ?_⟩
    intro w rest _ derived
    exact .ret ht derived

theorem assign_completable (stuck : Stuck ((do
      let name ← identifier
      let _ ← require (.symbol .assign)
      return Stmt.assign name (← expression)) c) r)
    (starts : StartsAssignment c.rest) (hsize : c.rest.length ≤ c.size)
    (hd : c.depth ≤ maxNesting) : Unfinished Statement closesBlock c.rest r := by
  obtain ⟨-, other⟩ | ⟨name, r₁, hr, hn, stuck⟩ := stuck.identifier_bind
  · exact absurd starts.1 other
  rw [hr] at starts
  obtain ⟨-, other⟩ | ⟨equals, r₂, hr₂, he, stuck⟩ := stuck.require_bind (by simp)
  · exact absurd starts.2 other
  change r₁ = equals :: r₂ at hr₂
  rw [hr₂] at hr
  have shorter : r₂.length ≤ c.size := by
    simp only [hr, List.length_cons] at hsize
    omega
  have read := expression_completable _ _ stuck.map shorter hd
  refine read.prepend (v := [name, equals]) hr (fun _ => closesPhrase_of_closesBlock)
    fun n e => ⟨n, .assign name.text e, ?_⟩
  intro w rest _ derived
  exact .assign hn he derived

theorem expr_completable (stuck : Stuck ((do return Stmt.expr (← expression)) c) r)
    (hsize : c.rest.length ≤ c.size) (hd : c.depth ≤ maxNesting) :
    Unfinished Statement closesBlock c.rest r := by
  have read := expression_completable _ _ stuck.map hsize hd
  refine read.prepend (v := []) rfl (fun _ => closesPhrase_of_closesBlock)
    fun n e => ⟨n, .expr e, ?_⟩
  intro w rest close derived
  refine .expr derived (derived.not_startsAssignment ?_)
  intro assign
  rw [assign] at close
  cases close

theorem statementOf_completable (derives : Derives block Block)
    (h : Completable block Block fun _ => true) :
    Completable (statementOf block) Statement closesBlock := by
  intro c r stuck hsize hd
  unfold statementOf statementWith at stuck
  rw [peek_bind_apply] at stuck
  cases kind : firstKind c.rest with
  | keyword k =>
    rw [kind] at stuck
    obtain ⟨t, r', hr, ht⟩ := exists_cons_of_firstKind kind (by simp)
    cases k
    case spit => exact spit_completable (stuck.next_bind hr) ht hr hsize hd
    case verse => exact verse_completable h (stuck.next_bind hr) ht hr hsize hd
    case cypher =>
      rw [hr, List.length_cons] at hsize
      have read := h _ _ (stuck.next_bind hr).map (Nat.le_of_lt hsize) hd
      refine read.prepend (v := [t]) hr (fun _ _ => rfl)
        fun n body => ⟨n, .verse entryName [] body, ?_⟩
      intro w rest _ derived
      exact .cypher ht derived
    case flow => exact flow_completable (stuck.next_bind hr) ht hr hsize hd
    case battle => exact battle_completable derives h (stuck.next_bind hr) ht hr hsize hd
    case ret => exact ret_completable (stuck.next_bind hr) ht hr hsize hd
    all_goals exact expr_completable stuck hsize hd
  | identifier =>
    rw [kind] at stuck
    change Stuck ((if c.secondKind = .symbol .assign then _ else _ : Parser Stmt) c) r at stuck
    rw [secondKind_eq_firstKind] at stuck
    split at stuck
    · exact assign_completable stuck ⟨kind, ‹_›⟩ hsize hd
    · exact expr_completable stuck hsize hd
  | _ =>
    rw [kind] at stuck
    exact expr_completable stuck hsize hd

end Statements

section Bodies

variable {closing : Token.Kind → Bool} {statement : Parser Stmt}

theorem Stuck.statementStep {done : List Stmt} {c : Cursor} {r : List Token}
    (h : Stuck (statementStep closing statement done c) r) :
    ∃ gap r', c.rest = gap ++ r' ∧ Breaks gap ∧ Stuck (statement { c with rest := r' }) r := by
  refine ⟨_, _, List.takeWhile_append_dropWhile.symm, breaks_takeWhile c.rest, ?_⟩
  change Stuck ((peek >>= fun kind => if closing kind then pure none else _)
    { c with rest := c.rest.dropWhile (·.kind == .newline) }) r at h
  rw [peek_bind_apply] at h
  split at h
  · exact absurd h not_ok
  · exact Stuck.map (g := fun s => some (s :: done)) h

/-- Statements up to `r`, with the last one completed by the word `v` if it has been started. Where
nothing of it has been read, there is nothing to complete. -/
theorem statement_steps_complete (derives : Derives statement Statement)
    (h : Completable statement Statement closesBlock) (steps : Nat) :
    ∀ {c : Cursor} {r : List Token} {done : List Stmt},
      Stuck (repeatUpTo (statementStep closing statement) steps done c) r →
      c.rest.length ≤ c.size → c.depth ≤ maxNesting →
      ∃ w n ss v, c.rest = w ++ r ∧ ((∃ t ∈ w, t.kind ≠ .newline) ∨ v = []) ∧
        (∀ t ∈ v, t.kind ≠ .eof) ∧
        ∀ rest, closesBlock (firstKind rest) → Body n ss (w ++ v) rest := by
  induction steps with
  | zero =>
    intro c r done stuck
    exact absurd stuck Stuck.not_ok
  | succ steps ih =>
    intro c r done stuck hsize hd
    obtain step | ⟨next, c₁, step, more⟩ := stuck.bind
    · obtain ⟨gap, r', hr, breaks, inner⟩ := step.statementStep
      rw [hr, List.length_append] at hsize
      obtain ⟨w, hw, n, s, v, inner, derived⟩ := h _ _ inner (show r'.length ≤ c.size by omega) hd
      change r' = w ++ r at hw
      cases w with
      | nil =>
        refine ⟨gap, 0, [], [], by rw [hr, hw]; rfl, .inr rfl, by simp, fun rest _ => ?_⟩
        rw [List.append_nil]
        exact .nil breaks
      | cons t w =>
        have started : t.kind ≠ .newline := (derived [] rfl).ne_newline
        refine ⟨gap ++ t :: w, max n 0, [s], v, by rw [hr, hw, List.append_assoc],
          .inl ⟨t, by simp, started⟩, inner, fun rest close => ?_⟩
        have body : Body 0 [] [] rest := .nil (by simp [Breaks])
        have whole := Body.cons breaks (derived ([] ++ rest) close) body
        rwa [List.append_nil, ← List.append_assoc] at whole
    · obtain ⟨gap, r', hr, breaks, ⟨rfl, rfl, -⟩ | ⟨s, rfl, run⟩⟩ := statementStep_ok step
      · exact absurd more Stuck.not_ok
      rw [hr, List.length_append] at hsize
      obtain ⟨u, n, hu, size, depth, -, statement⟩ :=
        derives _ _ _ run (show r'.length ≤ c.size by omega) hd
      change r' = u ++ c₁.rest at hu
      change c₁.size = c.size at size
      change c₁.depth = c.depth at depth
      rw [hu, List.length_append] at hsize
      obtain ⟨w, m, ss, v, hw, stop, inner, body⟩ := ih more (by omega) (by omega)
      rw [hw] at statement
      have started : ∃ t ∈ u, t.kind ≠ .newline := by
        cases u with
        | nil => exact absurd rfl statement.ne_nil
        | cons t u => exact ⟨t, List.mem_cons_self, statement.ne_newline⟩
      obtain ⟨t, mem, kind⟩ := started
      refine ⟨gap ++ u ++ w, max n m, s :: ss, v, by rw [hr, hu, hw]; simp,
        .inl ⟨t, by simp [mem], kind⟩, inner, fun rest close => ?_⟩
      have ends : (∃ t ∈ w, t.kind ≠ .newline) ∨ Ends (v ++ rest) :=
        stop.imp_right fun empty => by rw [empty]; exact ends_of_closesBlock close
      have first : Statement n s u (w ++ v ++ rest) := by
        rw [List.append_assoc]
        exact statement.before (.same ends)
      rw [List.append_assoc]
      exact .cons breaks first (body rest close)

theorem statements_completable (closing : Token.Kind → Bool) (derives : Derives statement Statement)
    (h : Completable statement Statement closesBlock) :
    Completable (statements closing statement) Body closesBlock := by
  intro c r stuck hsize hd
  obtain ⟨w, n, ss, v, hw, -, inner, derived⟩ :=
    statement_steps_complete derives h _ stuck.map hsize hd
  exact ⟨w, hw, n, ss, v, inner, derived⟩

end Bodies

theorem block_completable (levels : Nat) :
    Completable (block levels) Block fun _ => true := by
  induction levels with
  | zero =>
    rintro c r ⟨_, _, _, _, same, _⟩
    cases same
  | succ levels ih =>
    intro c r stuck hsize hd
    obtain ⟨same, -⟩ | ⟨opening, r', hr, ho, stuck⟩ := stuck.require_bind (by simp)
    · exact ⟨[], same, 1, [], emptyBlock, by decide, fun rest _ => block_emptyBlock rest⟩
    rw [hr, List.length_cons] at hsize
    have derives := statementOf_derives (block_derives levels)
    have body : Derives (statements closesBlock (statementOf (block levels))) Body :=
      (statements_derive derives rfl).mono (·.1)
    have h := statements_completable closesBlock derives
      (statementOf_completable (block_derives levels) ih)
    have read := (h.closed body id (s := .rbrace) rfl ?_).deeper _ _ stuck (Nat.le_of_lt hsize) hd
    · refine read.prepend (v := [opening]) hr (fun _ _ => rfl) fun n body => ⟨n, body, ?_⟩
      rintro _ rest - ⟨n, rfl, body, w, closing, rfl, rfl, hc, derived⟩
      exact .braces ho derived hc
    · intro n body w rest closing rest' derived hc
      exact derived.before ⟨[], rest, closing :: rest', rfl, rfl,
        .inr (ends_of_closesBlock (by rw [firstKind, hc]; rfl))⟩

theorem program_completable : Completable program Body closesBlock :=
  statements_completable _ (statementOf_derives (block_derives _))
    (statementOf_completable (block_derives _) (block_completable _))

end CypherLang.Parser
