import CypherLang.Proofs.Syntax.Completeness

namespace CypherLang

namespace Parser

open Yield

variable {α β : Type}

section Steps

variable {p : Parser α} {f : α → Parser β} {a : α} {b : β} {c c' : Cursor} {k : Token.Kind}

theorem bind_ok (h : (p >>= f) c = .ok b c') :
    ∃ a c₁, p c = .ok a c₁ ∧ f a c₁ = .ok b c' := by
  cases run : p c with
  | ok a c₁ =>
    rw [bind_apply_of_ok run] at h
    exact ⟨a, c₁, rfl, h⟩
  | error e c₁ =>
    rw [bind_apply_of_error run] at h
    cases h

theorem map_ok {g : α → β} (h : (p >>= fun x => pure (g x)) c = .ok b c') :
    ∃ a, p c = .ok a c' ∧ b = g a := by
  obtain ⟨a, c₁, first, last⟩ := bind_ok h
  cases last
  exact ⟨a, first, rfl⟩

theorem exists_cons_of_firstKind {ts : List Token} (h : firstKind ts = k) (hk : k ≠ .eof) :
    ∃ t r, ts = t :: r ∧ t.kind = k := by
  cases ts with
  | nil => exact absurd h.symm hk
  | cons t r => exact ⟨t, r, rfl, h⟩

theorem peek_bind_apply (f : Token.Kind → Parser β) :
    (peek >>= f) c = f (firstKind c.rest) c := by
  rw [← kind_eq_firstKind]
  rfl

theorem next_bind_apply {t : Token} {r : List Token} (f : Token → Parser β)
    (hr : c.rest = t :: r) : (next >>= f) c = f t { c with rest := r } := by
  change f c.token { c with rest := c.rest.tail } = _
  rw [Cursor.token, hr]
  rfl

theorem next_bind_ok {f : Token → Parser β} {t : Token} {r : List Token}
    (h : (next >>= f) c = .ok b c') (hr : c.rest = t :: r) :
    f t { c with rest := r } = .ok b c' := by
  rwa [next_bind_apply f hr] at h

theorem require_bind_cases (f : Token → Parser β) (hk : k ≠ .eof) :
    (∃ t r, c.rest = t :: r ∧ t.kind = k ∧
        (require k >>= f) c = f t { c with rest := r }) ∨
      (firstKind c.rest ≠ k ∧ (require k >>= f) c =
        .error (.unexpectedToken (.kind k) c.token.kind c.token.line) c) := by
  unfold require
  rw [bind_assoc, peek_bind_apply]
  split
  · obtain ⟨t, r, hr, ht⟩ := exists_cons_of_firstKind ‹_› hk
    exact .inl ⟨t, r, hr, ht, next_bind_apply f hr⟩
  · exact .inr ⟨‹_›, rfl⟩

theorem require_bind_ok {f : Token → Parser β} (h : (require k >>= f) c = .ok b c')
    (hk : k ≠ .eof) :
    ∃ t r, c.rest = t :: r ∧ t.kind = k ∧ f t { c with rest := r } = .ok b c' := by
  obtain ⟨t, r, hr, ht, run⟩ | ⟨-, run⟩ := require_bind_cases (c := c) f hk
  · exact ⟨t, r, hr, ht, run ▸ h⟩
  · rw [run] at h
    cases h

theorem accept_bind_cases (f : Bool → Parser β) (hk : k ≠ .eof) :
    (∃ t r, c.rest = t :: r ∧ t.kind = k ∧
        (accept k >>= f) c = f true { c with rest := r }) ∨
      (firstKind c.rest ≠ k ∧ (accept k >>= f) c = f false c) := by
  unfold accept
  rw [bind_assoc, peek_bind_apply]
  split
  · obtain ⟨t, r, hr, ht⟩ := exists_cons_of_firstKind ‹_› hk
    rw [bind_assoc, next_bind_apply _ hr]
    exact .inl ⟨t, r, hr, ht, rfl⟩
  · exact .inr ⟨‹_›, rfl⟩

theorem accept_bind_ok {f : Bool → Parser β} (h : (accept k >>= f) c = .ok b c')
    (hk : k ≠ .eof) :
    (∃ t r, c.rest = t :: r ∧ t.kind = k ∧ f true { c with rest := r } = .ok b c') ∨
      (firstKind c.rest ≠ k ∧ f false c = .ok b c') := by
  obtain ⟨t, r, hr, ht, run⟩ | ⟨stop, run⟩ := accept_bind_cases (c := c) f hk
  · exact .inl ⟨t, r, hr, ht, run ▸ h⟩
  · exact .inr ⟨stop, run ▸ h⟩

theorem enter_bind_cases (f : Unit → Parser β) :
    (c.depth < maxNesting ∧ (enter >>= f) c = f () { c with depth := c.depth + 1 }) ∨
      (enter >>= f) c = .error (.nestingTooDeep c.token.line) c := by
  have run := enter_apply c
  by_cases room : c.depth < maxNesting
  · rw [if_pos room] at run
    exact .inl ⟨room, bind_apply_of_ok run⟩
  · rw [if_neg room] at run
    exact .inr (bind_apply_of_error run)

theorem enter_bind_ok {f : Unit → Parser β} (h : (enter >>= f) c = .ok b c') :
    c.depth < maxNesting ∧ f () { c with depth := c.depth + 1 } = .ok b c' := by
  obtain ⟨room, run⟩ | run := enter_bind_cases (c := c) f
  · exact ⟨room, run ▸ h⟩
  · rw [run] at h
    cases h

theorem leaving_ok {depth : Cursor → Nat} (h : leaving depth p c = .ok a c') :
    ∃ c₁, p c = .ok a c₁ ∧ c' = { c₁ with depth := depth c₁ } := by
  unfold leaving at h
  split at h
  · cases h
    exact ⟨_, ‹_›, rfl⟩
  · cases h

theorem deeper_ok (h : deeper p c = .ok a c') :
    c.depth < maxNesting ∧ ∃ c₁, p { c with depth := c.depth + 1 } = .ok a c₁ ∧
      c' = { c₁ with depth := c₁.depth - 1 } := by
  obtain ⟨hd, h⟩ := enter_bind_ok h
  exact ⟨hd, leaving_ok h⟩

end Steps

/-- Between the cursors stands a word that the relation derives, within the limit on levels. -/
def Between (R : Nat → α → List Token → List Token → Prop) (c : Cursor) (a : α) (c' : Cursor) :
    Prop :=
  ∃ w n, c.rest = w ++ c'.rest ∧ c'.size = c.size ∧ c'.depth = c.depth ∧
    c.depth + n ≤ maxNesting ∧ R n a w c'.rest

/-- Whatever the parser takes at a depth within the limit, the relation derives. -/
def Derives (p : Parser α) (R : Nat → α → List Token → List Token → Prop) : Prop :=
  ∀ (c c' : Cursor) (a : α), p c = .ok a c' → c.rest.length ≤ c.size → c.depth ≤ maxNesting →
    Between R c a c'

section Rules

variable {p : Parser α} {R : Nat → α → List Token → List Token → Prop}

theorem Derives.mono {S : Nat → α → List Token → List Token → Prop} (h : Derives p R)
    (imp : ∀ {n a w rest}, R n a w rest → S n a w rest) : Derives p S := by
  intro c c' a run hsize hd
  obtain ⟨w, n, hw, size, depth, hn, derived⟩ := h c c' a run hsize hd
  exact ⟨w, n, hw, size, depth, hn, imp derived⟩

theorem Derives.map (h : Derives p R) (g : α → β) :
    Derives (do return g (← p)) fun n b w rest => ∃ a, b = g a ∧ R n a w rest := by
  intro c c' b mapped hsize hd
  obtain ⟨a, run, rfl⟩ := map_ok mapped
  obtain ⟨w, n, hw, size, depth, hn, derived⟩ := h c c' a run hsize hd
  exact ⟨w, n, hw, size, depth, hn, a, rfl, derived⟩

theorem Derives.deeper (h : Derives p R) :
    Derives (deeper p) fun n a w rest => ∃ m, n = m + 1 ∧ R m a w rest := by
  intro c c' a entered hsize hd
  obtain ⟨deep, c₁, run, rfl⟩ := deeper_ok entered
  obtain ⟨w, n, hw, size, depth, hn, derived⟩ := h _ _ _ run hsize deep
  change c₁.depth = c.depth + 1 at depth
  change c.depth + 1 + n ≤ maxNesting at hn
  refine ⟨w, n + 1, hw, size, ?_, by omega, n, rfl, derived⟩
  change c₁.depth - 1 = c.depth
  omega

/-- A derived word and the token that closes it. -/
theorem Derives.closed (h : Derives p R) (g : α → β) {k : Token.Kind} (inner : k ≠ .eof) :
    Derives (do let a ← p; let _ ← require k; return g a) fun n b w rest =>
      ∃ a v closing, b = g a ∧ w = v ++ [closing] ∧ closing.kind = k ∧
        R n a v (closing :: rest) := by
  intro c c' b run hsize hd
  obtain ⟨a, c₁, first, close⟩ := bind_ok run
  obtain ⟨w, n, hw, size, depth, hn, derived⟩ := h _ _ _ first hsize hd
  obtain ⟨closing, r, hr, hc, last⟩ := require_bind_ok close inner
  cases last
  rw [hr] at hw derived
  refine ⟨w ++ [closing], n, ?_, size, depth, hn, a, w, closing, rfl, rfl, hc, derived⟩
  rw [hw, List.append_assoc]
  rfl

/-- A word before a derived one, with the rule that joins the two. -/
theorem Between.prepend {S : Nat → β → List Token → List Token → Prop} {c c' : Cursor} {a : α}
    {b : β} {v r : List Token} (h : Between R { c with rest := r } a c') (hr : c.rest = v ++ r)
    (rule : ∀ {n w}, R n a w c'.rest → S n b (v ++ w) c'.rest) : Between S c b c' := by
  obtain ⟨w, n, hw, size, depth, hn, derived⟩ := h
  refine ⟨v ++ w, n, ?_, size, depth, hn, rule derived⟩
  rw [hr, show r = w ++ c'.rest from hw, List.append_assoc]

end Rules

theorem chainStep_ok {tier : Tier} {operand : Parser Expr} {l : Expr} {c c' : Cursor}
    {next : Option Expr} (h : chainStep (operatorOf tier) operand l c = .ok next c') :
    (next = none ∧ c' = c ∧ ¬ Continues tier c.rest) ∨
      ∃ op o r right, c.rest = o :: r ∧ op.tier = tier ∧ o.kind = .symbol op.sign ∧
        c.depth < maxNesting ∧ next = some (.binary l op right) ∧
        operand { c with rest := r, depth := c.depth + 1 } = .ok right c' := by
  unfold chainStep foldStep at h
  rw [peek_bind_apply] at h
  cases hop : operatorOf tier (firstKind c.rest) with
  | none =>
    rw [hop] at h
    cases h
    exact .inl ⟨rfl, rfl, operatorOf_eq_none_iff.1 hop⟩
  | some op =>
    rw [hop] at h
    obtain ⟨ht, ho⟩ := operatorOf_eq_some_iff.1 hop
    obtain ⟨o, r, hr, ho⟩ := exists_cons_of_firstKind ho (by simp)
    obtain ⟨deep, inner⟩ := enter_bind_ok h
    obtain ⟨right, operand, joined⟩ := map_ok (next_bind_ok inner hr)
    exact .inr ⟨op, o, r, right, hr, ht, ho, deep, joined, operand⟩

/-- The steps of a chain after `k` of its operators. -/
theorem chain_steps_derive {tier : Tier} {operand : Parser Expr}
    (derives : Derives operand (Operand tier)) (steps : Nat) :
    ∀ {c c' : Cursor} {l e : Expr} {d k n : Nat} {w : List Token},
      repeatUpTo (chainStep (operatorOf tier) operand) steps l c = .ok e c' →
      c.rest.length ≤ steps → c.rest.length ≤ c.size → c.depth = d + k →
      d + n ≤ maxNesting → Chain tier k n l w c.rest →
      ∃ v k' n', c.rest = v ++ c'.rest ∧ c'.size = c.size ∧ d + n' ≤ maxNesting ∧
        Chain tier k' n' e (w ++ v) c'.rest ∧ ¬ Continues tier c'.rest := by
  induction steps with
  | zero =>
    intro c c' l e d k n w h hs _ _ hn chain
    cases h
    have empty : c.rest = [] := List.eq_nil_of_length_eq_zero (by omega)
    refine ⟨[], k, n, rfl, rfl, hn, by rwa [List.append_nil], ?_⟩
    rw [empty]
    rintro ⟨op, -, h⟩
    cases h
  | succ steps ih =>
    intro c c' l e d k n w h hs hsize hd hn chain
    obtain ⟨next, c₁, step, more⟩ := bind_ok h
    obtain ⟨rfl, rfl, stop⟩ | ⟨op, o, r, right, hr, ht, ho, deep, rfl, read⟩ := chainStep_ok step
    · cases more
      exact ⟨[], k, n, rfl, rfl, hn, by rwa [List.append_nil], stop⟩
    · rw [hr, List.length_cons] at hs hsize
      obtain ⟨v, m, hv, size, depth, hm, operand⟩ :=
        derives _ _ _ read (Nat.le_of_lt hsize) deep
      change r = v ++ c₁.rest at hv
      change c₁.size = c.size at size
      change c₁.depth = c.depth + 1 at depth
      change c.depth + 1 + m ≤ maxNesting at hm
      rw [hr, hv, ← List.cons_append] at chain
      have shorter : c₁.rest.length ≤ r.length := by
        rw [hv, List.length_append]
        omega
      obtain ⟨u, k', n', hu, size', hn', chain', stop⟩ := ih more (by omega) (by omega)
        (show c₁.depth = d + (k + 1) by omega) (by omega) (.operator chain ht ho operand)
      refine ⟨o :: v ++ u, k', n', ?_, size'.trans size, hn', ?_, stop⟩
      · rw [hr, hv, hu, List.cons_append, List.cons_append, List.append_assoc]
      · rwa [List.append_assoc] at chain'

/-- A full chain of the operators of a precedence. -/
theorem chain_derives {tier : Tier} {operand : Parser Expr}
    (derives : Derives operand (Operand tier)) :
    Derives (chain (operatorOf tier) operand) fun n e w rest =>
      (∃ k, Chain tier k n e w rest) ∧ ¬ Continues tier rest := by
  intro c c' e h hsize hd
  obtain ⟨c₁, run, rfl⟩ := leaving_ok h
  obtain ⟨first, c₂, operand, more⟩ := bind_ok run
  obtain ⟨w, n, hw, size, depth, hn, operand⟩ := derives _ _ _ operand hsize hd
  have shorter : c₂.rest.length ≤ c₂.size := by
    rw [hw, List.length_append] at hsize
    omega
  obtain ⟨v, k, n, hv, size', hn, chain, stop⟩ := chain_steps_derive derives _ more shorter shorter
    (show c₂.depth = c.depth + 0 from depth) hn (.operand operand)
  refine ⟨w ++ v, n, ?_, size'.trans size, rfl, hn, ⟨k, chain⟩, stop⟩
  rw [hw, hv, List.append_assoc]

section

variable {primary : Parser Expr}

theorem product_derives (derives : Derives primary Primary) :
    Derives (chain multiplicativeOp primary) (Operand .additive) :=
  Derives.mono (chain_derives (derives.mono .primary)) fun ⟨⟨_, h⟩, stop⟩ => .product h stop

theorem sum_derives (derives : Derives primary Primary) :
    Derives (chain additiveOp (chain multiplicativeOp primary)) (Operand .comparison) :=
  Derives.mono (chain_derives (product_derives derives)) fun ⟨⟨_, h⟩, stop⟩ => .sum h stop

theorem expressionOf_derives (derives : Derives primary Primary) :
    Derives (expressionOf primary) Expression := by
  refine Derives.mono (chain_derives (sum_derives derives)).deeper ?_
  rintro _ e w rest ⟨n, rfl, ⟨k, chain⟩, stop⟩
  exact .comparison chain stop

end

/-- The relation `S` has the two rules of a list of phrases `R` with commas between them. -/
structure ListRules (R : Nat → α → List Token → List Token → Prop)
    (S : Nat → List α → List Token → List Token → Prop) : Prop where
  last {n a w rest} : R n a w rest → S n [a] w rest
  more {n a w m as v rest} {comma : Token} : R n a w (comma :: v ++ rest) →
    comma.kind = .symbol .comma → S m as v rest → S (max n m) (a :: as) (w ++ comma :: v) rest

section Commas

variable {item : Parser α} {R : Nat → α → List Token → List Token → Prop}
variable {S : Nat → List α → List Token → List Token → Prop}

theorem commaStep_ok {items : List α} {next : Option (List α)} {c c' : Cursor}
    (h : commaStep item items c = .ok next c') :
    (next = none ∧ c' = c ∧ firstKind c.rest ≠ .symbol .comma) ∨
      ∃ comma r a, c.rest = comma :: r ∧ comma.kind = .symbol .comma ∧
        next = some (a :: items) ∧ item { c with rest := r } = .ok a c' := by
  obtain ⟨comma, r, hr, hc, run⟩ | ⟨stop, run⟩ := accept_bind_ok h (by simp)
  · obtain ⟨a, read, joined⟩ := map_ok (g := fun a => some (a :: items)) run
    exact .inr ⟨comma, r, a, hr, hc, joined, read⟩
  · cases run
    exact .inl ⟨rfl, rfl, stop⟩

/-- The steps of a list after an item `a` has been read as the word `w`. -/
theorem comma_steps_derive (derives : Derives item R) (rules : ListRules R S) (steps : Nat) :
    ∀ {c c' : Cursor} {items items' : List α} {n : Nat} {a : α} {w : List Token},
      repeatUpTo (commaStep item) steps items c = .ok items' c' → c.rest.length ≤ steps →
      c.rest.length ≤ c.size → c.depth + n ≤ maxNesting → R n a w c.rest →
      ∃ v m as, c.rest = v ++ c'.rest ∧ c'.size = c.size ∧ c'.depth = c.depth ∧
        c.depth + m ≤ maxNesting ∧ items' = as.reverse ++ items ∧
        S m (a :: as) (w ++ v) c'.rest ∧ firstKind c'.rest ≠ .symbol .comma := by
  induction steps with
  | zero =>
    intro c c' items items' n a w h hs _ hn derived
    cases h
    have empty : c.rest = [] := List.eq_nil_of_length_eq_zero (by omega)
    refine ⟨[], n, [], rfl, rfl, rfl, hn, rfl, ?_, by simp [empty, firstKind]⟩
    rw [List.append_nil]
    exact rules.last derived
  | succ steps ih =>
    intro c c' items items' n a w h hs hsize hn derived
    obtain ⟨next, c₁, step, rest⟩ := bind_ok h
    obtain ⟨rfl, rfl, stop⟩ | ⟨comma, r, b, hr, hc, rfl, read⟩ := commaStep_ok step
    · cases rest
      refine ⟨[], n, [], rfl, rfl, rfl, hn, rfl, ?_, stop⟩
      rw [List.append_nil]
      exact rules.last derived
    · rw [hr, List.length_cons] at hs hsize
      have hd : c.depth ≤ maxNesting := by omega
      obtain ⟨v, m, hv, size, depth, hm, item⟩ := derives _ _ _ read (Nat.le_of_lt hsize) hd
      change r = v ++ c₁.rest at hv
      change c₁.size = c.size at size
      change c₁.depth = c.depth at depth
      change c.depth + m ≤ maxNesting at hm
      have shorter : c₁.rest.length ≤ r.length := by
        rw [hv, List.length_append]
        omega
      obtain ⟨u, k, as, hu, size', depth', hk, rfl, list, stop⟩ :=
        ih rest (by omega) (by omega) (by omega) item
      refine ⟨comma :: (v ++ u), max n k, b :: as, ?_, size'.trans size, depth'.trans depth,
        by omega, by simp, ?_, stop⟩
      · rw [hr, hv, hu, List.cons_append, List.append_assoc]
      · rw [hr, hv, hu, ← List.append_assoc, ← List.cons_append] at derived
        exact rules.more derived hc list

theorem commaList_derives (derives : Derives item R) (rules : ListRules R S) :
    Derives (commaList item) fun n as w rest =>
      S n as w rest ∧ firstKind rest ≠ .symbol .comma := by
  intro c c' list h hsize hd
  obtain ⟨a, c₁, first, tail⟩ := bind_ok h
  obtain ⟨items, steps, rfl⟩ := map_ok tail
  obtain ⟨w, n, hw, size, depth, hn, item⟩ := derives _ _ _ first hsize hd
  have shorter : c₁.rest.length ≤ c₁.size := by
    rw [hw, List.length_append] at hsize
    omega
  obtain ⟨v, m, as, hv, size', depth', hm, rfl, list, stop⟩ :=
    comma_steps_derive derives rules _ steps shorter shorter (by omega) item
  refine ⟨w ++ v, m, ?_, size'.trans size, depth'.trans depth, by omega, ?_, stop⟩
  · rw [hw, hv, List.append_assoc]
  · rw [List.reverse_append, List.reverse_reverse]
    exact list

theorem commaListUnless_derives {closing : Token.Kind → Bool} (derives : Derives item R)
    (rules : ListRules R S) :
    Derives (commaListUnless closing item) fun n as w rest =>
      (n = 0 ∧ as = [] ∧ w = [] ∧ closing (firstKind rest)) ∨
        (S n as w rest ∧ firstKind rest ≠ .symbol .comma) := by
  intro c c' list h hsize hd
  unfold commaListUnless at h
  rw [peek_bind_apply] at h
  split at h
  · cases h
    exact ⟨[], 0, rfl, rfl, rfl, hd, .inl ⟨rfl, rfl, rfl, ‹_›⟩⟩
  · obtain ⟨w, n, hw, size, depth, hn, derived⟩ :=
      commaList_derives derives rules c c' list h hsize hd
    exact ⟨w, n, hw, size, depth, hn, .inr derived⟩

end Commas

theorem arguments_derive {closing : Token.Kind → Bool} {expression : Parser Expr}
    (derives : Derives expression Expression) :
    Derives (commaListUnless closing expression) fun n args w rest =>
      (n = 0 ∧ args = [] ∧ w = [] ∧ closing (firstKind rest)) ∨
        (Arguments n args w rest ∧ firstKind rest ≠ .symbol .comma) :=
  commaListUnless_derives derives ⟨.last, .more⟩

theorem literal_derives {c c' : Cursor} {e : Expr} {k : Keyword} {l : Literal}
    (h : literal l c = .ok e c') (kind : firstKind c.rest = .keyword k)
    (hl : k.literal? = some l) (hd : c.depth ≤ maxNesting) : Between Primary c e c' := by
  obtain ⟨t, r, hr, ht⟩ := exists_cons_of_firstKind kind (by simp)
  have read := next_bind_ok h hr
  cases read
  exact ⟨[t], 0, hr, rfl, rfl, hd, .word ht hl⟩

theorem number_derives {c c' : Cursor} {e : Expr} (h : number c = .ok e c')
    (kind : firstKind c.rest = .number) (hd : c.depth ≤ maxNesting) : Between Primary c e c' := by
  obtain ⟨t, r, hr, ht⟩ := exists_cons_of_firstKind kind (by simp)
  have read := next_bind_ok h hr
  cases hl : Literal.ofNumber? t.text with
  | none =>
    simp only [hl] at read
    cases read
  | some l =>
    simp only [hl] at read
    cases read
    exact ⟨[t], 0, hr, rfl, rfl, hd, .number ht hl⟩

theorem callOrName_cases (argument : Parser Expr) (name : String) (c : Cursor) :
    (∃ opening r, c.rest = opening :: r ∧ opening.kind = .symbol .lparen ∧
        callOrName (argumentsWith argument) name c = (do
          let args ← commaListUnless (fun kind => kind == Token.Kind.symbol .rparen) argument
          let _ ← require (.symbol .rparen)
          return Expr.call name args) { c with rest := r }) ∨
      (firstKind c.rest ≠ .symbol .lparen ∧
        callOrName (argumentsWith argument) name c = .ok (.identifier name) c) := by
  unfold callOrName
  rw [peek_bind_apply]
  split
  · rename_i called
    unfold argumentsWith
    rw [bind_assoc]
    obtain ⟨opening, r, hr, ho, run⟩ | ⟨other, -⟩ :=
      require_bind_cases (c := c) (k := .symbol .lparen) _ (by simp)
    · refine .inl ⟨opening, r, hr, ho, run.trans ?_⟩
      simp only [bind_assoc, pure_bind]
    · exact absurd called other
  · exact .inr ⟨‹_›, rfl⟩

/-- The parentheses of a call, after its name. -/
theorem call_derives {expression : Parser Expr} (derives : Derives expression Expression)
    {t opening : Token} {r : List Token} {c c' : Cursor} {e : Expr}
    (h : (do
      let args ← commaListUnless (fun kind => kind == Token.Kind.symbol .rparen) expression
      let _ ← require (.symbol .rparen)
      return Expr.call t.text args) { c with rest := r } = .ok e c')
    (ht : t.kind = .identifier) (ho : opening.kind = .symbol .lparen)
    (hr : c.rest = t :: opening :: r) (hsize : c.rest.length ≤ c.size)
    (hd : c.depth ≤ maxNesting) : Between Primary c e c' := by
  have shorter : r.length ≤ c.size := by
    rw [hr, List.length_cons, List.length_cons] at hsize
    omega
  have read := (arguments_derive derives).closed (Expr.call t.text) (by simp) _ _ _ h shorter hd
  refine read.prepend (v := [t, opening]) hr ?_
  rintro n _ ⟨args, w, closing, rfl, rfl, hc, ⟨rfl, rfl, rfl, -⟩ | ⟨derived, -⟩⟩
  · exact .callEmpty ht ho hc
  · exact .call ht ho derived hc

theorem group_derives {expression : Parser Expr} (derives : Derives expression Expression)
    {t : Token} {r : List Token} {c c' : Cursor} {e : Expr}
    (h : (do
      let e ← expression
      let _ ← require (.symbol .rparen)
      return e) { c with rest := r } = .ok e c')
    (ht : t.kind = .symbol .lparen) (hr : c.rest = t :: r) (hsize : c.rest.length ≤ c.size)
    (hd : c.depth ≤ maxNesting) : Between Primary c e c' := by
  rw [hr, List.length_cons] at hsize
  have read := derives.closed id (by simp) _ _ _ h (Nat.le_of_lt hsize) hd
  refine read.prepend (v := [t]) hr ?_
  rintro n _ ⟨e, w, closing, rfl, rfl, hc, derived⟩
  exact .group ht derived hc

theorem neg_derives {primary : Parser Expr} (derives : Derives primary Primary)
    {t : Token} {r : List Token} {c c' : Cursor} {e : Expr}
    (h : (deeper do return Expr.neg (← primary)) { c with rest := r } = .ok e c')
    (ht : t.kind = .symbol .minus) (hr : c.rest = t :: r) (hsize : c.rest.length ≤ c.size)
    (hd : c.depth ≤ maxNesting) : Between Primary c e c' := by
  rw [hr, List.length_cons] at hsize
  have read := (derives.map Expr.neg).deeper _ _ _ h (Nat.le_of_lt hsize) hd
  refine read.prepend (v := [t]) hr ?_
  rintro _ w ⟨n, rfl, operand, rfl, derived⟩
  exact .neg ht derived

theorem primary_derives (levels : Nat) : Derives (primary levels) Primary := by
  induction levels with
  | zero =>
    intro c c' e h _ _
    cases h
  | succ levels ih =>
    intro c c' e h hsize hd
    have derives := expressionOf_derives ih
    unfold primary primaryWith at h
    rw [peek_bind_apply] at h
    cases kind : firstKind c.rest with
    | number =>
      rw [kind] at h
      exact number_derives h kind hd
    | string =>
      rw [kind] at h
      obtain ⟨t, r, hr, ht⟩ := exists_cons_of_firstKind kind (by simp)
      have read := next_bind_ok h hr
      cases read
      exact ⟨[t], 0, hr, rfl, rfl, hd, .string ht⟩
    | keyword k =>
      rw [kind] at h
      cases k
      case trueWord => exact literal_derives h kind rfl hd
      case falseWord => exact literal_derives h kind rfl hd
      case nullWord => exact literal_derives h kind rfl hd
      all_goals cases h
    | identifier =>
      rw [kind] at h
      obtain ⟨t, r, hr, ht⟩ := exists_cons_of_firstKind kind (by simp)
      have read := next_bind_ok h hr
      obtain ⟨opening, r', hr', ho, run⟩ | ⟨stop, run⟩ :=
        callOrName_cases (expressionOf (primary levels)) t.text { c with rest := r }
      · rw [show r = opening :: r' from hr'] at hr
        exact call_derives derives (run.symm.trans read) ht ho hr hsize hd
      · cases run.symm.trans read
        exact ⟨[t], 0, hr, rfl, rfl, hd, .identifier ht stop⟩
    | symbol sym =>
      rw [kind] at h
      obtain ⟨t, r, hr, ht⟩ := exists_cons_of_firstKind kind (by simp)
      cases sym
      case lparen => exact group_derives derives (next_bind_ok h hr) ht hr hsize hd
      case minus => exact neg_derives ih (next_bind_ok h hr) ht hr hsize hd
      all_goals cases h
    | newline =>
      rw [kind] at h
      cases h
    | eof =>
      rw [kind] at h
      cases h

theorem expression_derives : Derives expression Expression :=
  expressionOf_derives (primary_derives _)

section Sequences

variable {p : Parser α} {f : α → Parser β} {a : α} {b : β} {c c' : Cursor}
variable {R : Nat → α → List Token → List Token → Prop}
variable {S : Nat → β → List Token → List Token → Prop}

/-- The first of two parsers derives its word and leaves the second one at the same depth. -/
theorem Derives.bind_ok (derives : Derives p R) (h : (p >>= f) c = .ok b c')
    (hsize : c.rest.length ≤ c.size) (hd : c.depth ≤ maxNesting) :
    ∃ a c₁ w n, c.rest = w ++ c₁.rest ∧ c₁.size = c.size ∧ c₁.depth = c.depth ∧
      c₁.rest.length ≤ c.size ∧ c.depth + n ≤ maxNesting ∧ R n a w c₁.rest ∧
      f a c₁ = .ok b c' := by
  obtain ⟨a, c₁, first, last⟩ := Parser.bind_ok h
  obtain ⟨w, n, hw, size, depth, hn, derived⟩ := derives _ _ _ first hsize hd
  refine ⟨a, c₁, w, n, hw, size, depth, ?_, hn, derived, last⟩
  rw [hw, List.length_append] at hsize
  omega

theorem identifier_bind_ok {f : String → Parser β} (h : (identifier >>= f) c = .ok b c') :
    ∃ t r, c.rest = t :: r ∧ t.kind = .identifier ∧
      f t.text { c with rest := r } = .ok b c' := by
  unfold identifier at h
  rw [bind_assoc] at h
  obtain ⟨t, r, hr, ht, run⟩ := require_bind_ok h (by simp)
  exact ⟨t, r, hr, ht, run⟩

theorem acceptAfterBreaks_bind_cases {k : Token.Kind} (f : Bool → Parser β) (hk : k ≠ .eof) :
    (∃ gap t r, c.rest = gap ++ t :: r ∧ Breaks gap ∧ t.kind = k ∧
        (acceptAfterBreaks k >>= f) c = f true { c with rest := r }) ∨
      (firstKind (c.rest.dropWhile (·.kind == .newline)) ≠ k ∧
        (acceptAfterBreaks k >>= f) c = f false c) := by
  have run := acceptAfterBreaks_apply k c
  by_cases found : firstKind (c.rest.dropWhile (·.kind == .newline)) = k
  · obtain ⟨t, r, hr, ht⟩ := exists_cons_of_firstKind found hk
    rw [if_pos found, hr] at run
    refine .inl ⟨c.rest.takeWhile (·.kind == .newline), t, r, ?_, breaks_takeWhile _, ht,
      bind_apply_of_ok run⟩
    rw [← hr, List.takeWhile_append_dropWhile]
  · rw [if_neg found] at run
    exact .inr ⟨found, bind_apply_of_ok run⟩

theorem acceptAfterBreaks_bind_ok {k : Token.Kind} {f : Bool → Parser β}
    (h : (acceptAfterBreaks k >>= f) c = .ok b c') (hk : k ≠ .eof) :
    (∃ gap t r, c.rest = gap ++ t :: r ∧ Breaks gap ∧ t.kind = k ∧
        f true { c with rest := r } = .ok b c') ∨
      (firstKind (c.rest.dropWhile (·.kind == .newline)) ≠ k ∧ f false c = .ok b c') := by
  obtain ⟨gap, t, r, hr, breaks, ht, run⟩ | ⟨stop, run⟩ :=
    acceptAfterBreaks_bind_cases (c := c) f hk
  · exact .inl ⟨gap, t, r, hr, breaks, ht, run ▸ h⟩
  · exact .inr ⟨stop, run ▸ h⟩

end Sequences

/-- A single identifier, which nests no deeper than what it stands in. -/
def Name (n : Nat) (name : String) (w _rest : List Token) : Prop :=
  n = 0 ∧ ∃ t : Token, w = [t] ∧ t.kind = .identifier ∧ t.text = name

theorem identifier_derives : Derives identifier Name := by
  intro c c' name h _ hd
  obtain ⟨t, r, hr, ht, run⟩ := require_bind_ok h (by simp)
  cases run
  exact ⟨[t], 0, hr, rfl, rfl, hd, rfl, t, rfl, ht, rfl⟩

theorem names_rules : ListRules Name fun n names w _ => n = 0 ∧ Names names w where
  last := by
    rintro n _ _ rest ⟨rfl, t, rfl, ht, rfl⟩
    exact ⟨rfl, .last ht⟩
  more := by
    rintro n _ _ m names v rest comma ⟨rfl, t, rfl, ht, rfl⟩ hc ⟨rfl, names⟩
    exact ⟨rfl, .more ht hc names⟩

theorem parameters_derive :
    Derives (commaListUnless (fun kind => kind == Token.Kind.symbol .rparen) identifier)
      fun n names w _ => n = 0 ∧ Parameters names w := by
  refine Derives.mono (commaListUnless_derives identifier_derives names_rules) ?_
  rintro n names w rest (⟨rfl, rfl, rfl, -⟩ | ⟨⟨rfl, names⟩, -⟩)
  · exact ⟨rfl, .none⟩
  · exact ⟨rfl, .some names⟩

section Statements

variable {block : Parser (List Stmt)} {t : Token} {r : List Token} {c c' : Cursor} {s : Stmt}

theorem spit_derives (h : (do
      let name ← identifier
      let _ ← require (.symbol .assign)
      return Stmt.spit name (← expression)) { c with rest := r } = .ok s c')
    (ht : t.kind = .keyword .spit) (hr : c.rest = t :: r) (hsize : c.rest.length ≤ c.size)
    (hd : c.depth ≤ maxNesting) : Between Statement c s c' := by
  obtain ⟨name, r₁, hr₁, hn, h⟩ := identifier_bind_ok h
  obtain ⟨equals, r₂, hr₂, he, h⟩ := require_bind_ok h (by simp)
  obtain ⟨e, run, rfl⟩ := map_ok h
  change r = name :: r₁ at hr₁
  change r₁ = equals :: r₂ at hr₂
  rw [hr₁, hr₂] at hr
  have shorter : r₂.length ≤ c.size := by
    simp only [hr, List.length_cons] at hsize
    omega
  have read := expression_derives _ _ _ run shorter hd
  exact read.prepend (v := [t, name, equals]) hr (.spit ht hn he)

theorem verse_derives (derives : Derives block Block) (h : (do
      let name ← identifier
      let _ ← require (.symbol .lparen)
      let params ← commaListUnless (fun kind => kind == Token.Kind.symbol .rparen) identifier
      let _ ← require (.symbol .rparen)
      return Stmt.verse name params (← block)) { c with rest := r } = .ok s c')
    (ht : t.kind = .keyword .verse) (hr : c.rest = t :: r) (hsize : c.rest.length ≤ c.size)
    (hd : c.depth ≤ maxNesting) : Between Statement c s c' := by
  obtain ⟨name, r₁, hr₁, hn, h⟩ := identifier_bind_ok h
  obtain ⟨opening, r₂, hr₂, ho, h⟩ := require_bind_ok h (by simp)
  change r = name :: r₁ at hr₁
  change r₁ = opening :: r₂ at hr₂
  rw [hr₁, hr₂] at hr
  have shorter : r₂.length ≤ c.size := by
    simp only [hr, List.length_cons] at hsize
    omega
  obtain ⟨params, c₁, w, -, hw, size, depth, fits, -, ⟨-, list⟩, h⟩ :=
    parameters_derive.bind_ok h shorter hd
  obtain ⟨closing, r₃, hr₃, hc, h⟩ := require_bind_ok h (by simp)
  obtain ⟨body, run, rfl⟩ := map_ok h
  change r₂ = w ++ c₁.rest at hw
  change c₁.size = c.size at size
  change c₁.depth = c.depth at depth
  change c₁.rest.length ≤ c.size at fits
  rw [hw, hr₃] at hr
  rw [hr₃, List.length_cons] at fits
  obtain ⟨v, n, hv, size', depth', hn', body⟩ :=
    derives _ _ _ run (show r₃.length ≤ c₁.size by omega) (show c₁.depth ≤ maxNesting by omega)
  change r₃ = v ++ c'.rest at hv
  refine ⟨t :: name :: opening :: w ++ closing :: v, n, ?_, size'.trans size,
    depth'.trans depth, ?_, .verse ht hn ho list hc body⟩
  · rw [hr, hv]
    simp
  · change c₁.depth + n ≤ maxNesting at hn'
    omega

theorem flow_derives (h : (do
      return Stmt.expr (.call t.text (← commaListUnless Token.Kind.closesStatement expression)))
      { c with rest := r } = .ok s c')
    (ht : t.kind = .keyword .flow) (hr : c.rest = t :: r) (hsize : c.rest.length ≤ c.size)
    (hd : c.depth ≤ maxNesting) : Between Statement c s c' := by
  rw [hr, List.length_cons] at hsize
  obtain ⟨args, run, rfl⟩ := map_ok h
  have read := arguments_derive expression_derives _ _ _ run (Nat.le_of_lt hsize) hd
  refine read.prepend (v := [t]) hr fun derived => ?_
  obtain ⟨rfl, rfl, rfl, closes⟩ | ⟨args, stop⟩ := derived
  · exact .flowEmpty ht closes
  · exact .flow ht args stop

/-- No line breaks lead to a token of a kind that does not follow after all of them. -/
theorem firstKind_after_breaks {rest : List Token} {k : Token.Kind} (hk : k ≠ .newline)
    (h : firstKind (rest.dropWhile (·.kind == .newline)) ≠ k) (gap after : List Token)
    (split : rest = gap ++ after) (breaks : Breaks gap) : firstKind after ≠ k := by
  intro first
  apply h
  rw [split, dropWhile_breaks breaks (by rwa [first])]
  exact first

theorem battle_derives (derives : Derives block Block) (h : (do
      let _ ← require (.symbol .lparen)
      let condition ← expression
      let _ ← require (.symbol .rparen)
      let thenBranch ← block
      if ← acceptAfterBreaks (.keyword .defeat) then
        return Stmt.battle condition thenBranch (some (← block))
      else return Stmt.battle condition thenBranch none) { c with rest := r } = .ok s c')
    (ht : t.kind = .keyword .battle) (hr : c.rest = t :: r) (hsize : c.rest.length ≤ c.size)
    (hd : c.depth ≤ maxNesting) : Between Statement c s c' := by
  obtain ⟨opening, r₁, hr₁, ho, h⟩ := require_bind_ok h (by simp)
  change r = opening :: r₁ at hr₁
  rw [hr₁] at hr
  have shorter : r₁.length ≤ c.size := by
    simp only [hr, List.length_cons] at hsize
    omega
  obtain ⟨e, c₁, v, n, hv, size₁, depth₁, fits, hn, cond, h⟩ :=
    expression_derives.bind_ok h shorter hd
  change r₁ = v ++ c₁.rest at hv
  change c₁.size = c.size at size₁
  change c₁.depth = c.depth at depth₁
  change c₁.rest.length ≤ c.size at fits
  change c.depth + n ≤ maxNesting at hn
  obtain ⟨closing, r₂, hr₂, hc, h⟩ := require_bind_ok h (by simp)
  rw [hr₂, List.length_cons] at fits
  rw [hr₂] at cond hv
  obtain ⟨body, c₂, w, m, hw, size₂, depth₂, fits, hm, body', h⟩ :=
    derives.bind_ok h (show r₂.length ≤ c₁.size by omega) (show c₁.depth ≤ maxNesting by omega)
  change r₂ = w ++ c₂.rest at hw
  change c₂.size = c₁.size at size₂
  change c₂.depth = c₁.depth at depth₂
  change c₁.depth + m ≤ maxNesting at hm
  change c₂.rest.length ≤ c₁.size at fits
  rw [hw, ← List.cons_append] at cond
  obtain ⟨gap, defeat, r₃, hr₃, breaks, hdef, h⟩ | ⟨none, h⟩ :=
    acceptAfterBreaks_bind_ok h (by simp)
  · obtain ⟨other, run, rfl⟩ := map_ok h
    rw [hr₃, List.length_append, List.length_cons] at fits
    obtain ⟨u, k, hu, size₃, depth₃, hk, other'⟩ :=
      derives _ _ _ run (show r₃.length ≤ c₂.size by omega) (show c₂.depth ≤ maxNesting by omega)
    change r₃ = u ++ c'.rest at hu
    change c₂.depth + k ≤ maxNesting at hk
    have rest : c₂.rest = gap ++ defeat :: u ++ c'.rest := by rw [hr₃, hu]; simp
    rw [rest, ← List.append_assoc] at cond
    rw [rest] at body'
    refine ⟨t :: opening :: v ++ (closing :: w ++ (gap ++ defeat :: u)), max n (max m k), ?_,
      size₃.trans (size₂.trans size₁), depth₃.trans (depth₂.trans depth₁), by omega,
      .battleDefeat ht ho cond hc body' breaks hdef other'⟩
    rw [hr, hv, hw, rest]
    simp
  · cases h
    refine ⟨t :: opening :: v ++ closing :: w, max n m, ?_, size₂.trans size₁,
      depth₂.trans depth₁, by omega,
      .battle ht ho cond hc body' (firstKind_after_breaks (by simp) none)⟩
    rw [hr, hv, hw]
    simp

theorem ret_derives (h : (do
      if (← peek).closesStatement then return Stmt.ret none
      else return Stmt.ret (some (← expression))) { c with rest := r } = .ok s c')
    (ht : t.kind = .keyword .ret) (hr : c.rest = t :: r) (hsize : c.rest.length ≤ c.size)
    (hd : c.depth ≤ maxNesting) : Between Statement c s c' := by
  rw [hr, List.length_cons] at hsize
  rw [peek_bind_apply] at h
  split at h
  · cases h
    exact ⟨[t], 0, hr, rfl, rfl, hd, .retEmpty ht ‹_›⟩
  · obtain ⟨e, run, rfl⟩ := map_ok h
    have read := expression_derives _ _ _ run (Nat.le_of_lt hsize) hd
    exact read.prepend (v := [t]) hr (.ret ht)

theorem assign_derives (h : (do
      let name ← identifier
      let _ ← require (.symbol .assign)
      return Stmt.assign name (← expression)) c = .ok s c')
    (hsize : c.rest.length ≤ c.size) (hd : c.depth ≤ maxNesting) : Between Statement c s c' := by
  obtain ⟨name, r₁, hr, hn, h⟩ := identifier_bind_ok h
  obtain ⟨equals, r₂, hr₂, he, h⟩ := require_bind_ok h (by simp)
  obtain ⟨e, run, rfl⟩ := map_ok h
  change r₁ = equals :: r₂ at hr₂
  rw [hr₂] at hr
  have shorter : r₂.length ≤ c.size := by
    simp only [hr, List.length_cons] at hsize
    omega
  have read := expression_derives _ _ _ run shorter hd
  exact read.prepend (v := [name, equals]) hr (.assign hn he)

theorem expr_derives (h : (do return Stmt.expr (← expression)) c = .ok s c')
    (plain : ¬ StartsAssignment c.rest) (hsize : c.rest.length ≤ c.size)
    (hd : c.depth ≤ maxNesting) : Between Statement c s c' := by
  obtain ⟨e, run, rfl⟩ := map_ok h
  obtain ⟨w, n, hw, size, depth, hn, derived⟩ := expression_derives _ _ _ run hsize hd
  exact ⟨w, n, hw, size, depth, hn, .expr derived (by rwa [← hw])⟩

theorem statementOf_derives (derives : Derives block Block) :
    Derives (statementOf block) Statement := by
  intro c c' s h hsize hd
  unfold statementOf statementWith at h
  rw [peek_bind_apply] at h
  have expr (run : (do return Stmt.expr (← expression)) c = .ok s c')
      (kind : firstKind c.rest ≠ .identifier) : Between Statement c s c' :=
    expr_derives run (fun assignment => kind assignment.1) hsize hd
  cases kind : firstKind c.rest with
  | keyword k =>
    rw [kind] at h
    obtain ⟨t, r, hr, ht⟩ := exists_cons_of_firstKind kind (by simp)
    cases k
    case spit => exact spit_derives (next_bind_ok h hr) ht hr hsize hd
    case verse => exact verse_derives derives (next_bind_ok h hr) ht hr hsize hd
    case cypher =>
      obtain ⟨body, run, rfl⟩ := map_ok (next_bind_ok h hr)
      rw [hr, List.length_cons] at hsize
      have read := derives _ _ _ run (Nat.le_of_lt hsize) hd
      exact read.prepend (v := [t]) hr (.cypher ht)
    case flow => exact flow_derives (next_bind_ok h hr) ht hr hsize hd
    case battle => exact battle_derives derives (next_bind_ok h hr) ht hr hsize hd
    case ret => exact ret_derives (next_bind_ok h hr) ht hr hsize hd
    all_goals exact expr h (by simp [kind])
  | identifier =>
    rw [kind] at h
    change (if c.secondKind = .symbol .assign then _ else _ : Parser Stmt) c = _ at h
    rw [secondKind_eq_firstKind] at h
    split at h
    · exact assign_derives h hsize hd
    · exact expr_derives h (fun assignment => ‹¬ _› assignment.2) hsize hd
  | _ =>
    rw [kind] at h
    exact expr h (by simp [kind])

end Statements

section Bodies

variable {closing : Token.Kind → Bool} {statement : Parser Stmt}

theorem statementStep_ok {done : List Stmt} {next : Option (List Stmt)} {c c' : Cursor}
    (h : statementStep closing statement done c = .ok next c') :
    ∃ gap r, c.rest = gap ++ r ∧ Breaks gap ∧
      ((next = none ∧ c' = { c with rest := r } ∧ closing (firstKind r)) ∨
        ∃ s, next = some (s :: done) ∧ statement { c with rest := r } = .ok s c') := by
  refine ⟨_, _, List.takeWhile_append_dropWhile.symm, breaks_takeWhile c.rest, ?_⟩
  change (peek >>= fun kind => if closing kind then pure none else _)
    { c with rest := c.rest.dropWhile (·.kind == .newline) } = _ at h
  rw [peek_bind_apply] at h
  split at h
  · cases h
    exact .inl ⟨rfl, rfl, ‹_›⟩
  · obtain ⟨s, run, rfl⟩ := map_ok (g := fun s => some (s :: done)) h
    exact .inr ⟨s, rfl, run⟩

theorem statement_steps_derive (derives : Derives statement Statement) (ends : closing .eof)
    (steps : Nat) :
    ∀ {c c' : Cursor} {done done' : List Stmt},
      repeatUpTo (statementStep closing statement) steps done c = .ok done' c' →
      c.rest.length ≤ steps → c.rest.length ≤ c.size → c.depth ≤ maxNesting →
      ∃ v n ss, c.rest = v ++ c'.rest ∧ c'.size = c.size ∧ c'.depth = c.depth ∧
        c.depth + n ≤ maxNesting ∧ done' = ss.reverse ++ done ∧ Body n ss v c'.rest ∧
        closing (firstKind c'.rest) := by
  induction steps with
  | zero =>
    intro c c' done done' h hs _ hd
    cases h
    have empty : c.rest = [] := List.eq_nil_of_length_eq_zero (by omega)
    refine ⟨[], 0, [], rfl, rfl, rfl, hd, rfl, .nil (by simp [Breaks]), ?_⟩
    rw [empty]
    exact ends
  | succ steps ih =>
    intro c c' done done' h hs hsize hd
    obtain ⟨next, c₁, step, more⟩ := bind_ok h
    obtain ⟨gap, r, hr, breaks, ⟨rfl, rfl, closes⟩ | ⟨s, rfl, run⟩⟩ := statementStep_ok step
    · cases more
      exact ⟨gap, 0, [], hr, rfl, rfl, hd, rfl, .nil breaks, closes⟩
    · rw [hr, List.length_append] at hs hsize
      obtain ⟨w, n, hw, size, depth, hn, statement⟩ :=
        derives _ _ _ run (show r.length ≤ c.size by omega) hd
      change r = w ++ c₁.rest at hw
      change c₁.size = c.size at size
      change c₁.depth = c.depth at depth
      change c.depth + n ≤ maxNesting at hn
      have taken := List.length_pos_iff.2 statement.ne_nil
      rw [hw, List.length_append] at hs hsize
      obtain ⟨v, m, ss, hv, size', depth', hm, rfl, body, closes⟩ :=
        ih more (by omega) (by omega) (by omega)
      rw [hv] at statement
      refine ⟨gap ++ w ++ v, max n m, s :: ss, ?_, size'.trans size, depth'.trans depth,
        by omega, by simp, .cons breaks statement body, closes⟩
      rw [hr, hw, hv]
      simp

theorem statements_derive (derives : Derives statement Statement) (ends : closing .eof) :
    Derives (statements closing statement) fun n body w rest =>
      Body n body w rest ∧ closing (firstKind rest) := by
  intro c c' body h hsize hd
  obtain ⟨done, run, rfl⟩ := map_ok h
  obtain ⟨w, n, ss, hw, size, depth, hn, rfl, body, closes⟩ :=
    statement_steps_derive derives ends _ run hsize hsize hd
  refine ⟨w, n, hw, size, depth, hn, ?_, closes⟩
  simpa using body

end Bodies

theorem block_derives (levels : Nat) : Derives (block levels) Block := by
  induction levels with
  | zero =>
    intro c c' body h _ _
    cases h
  | succ levels ih =>
    intro c c' body h hsize hd
    obtain ⟨opening, r, hr, ho, h⟩ := require_bind_ok h (by simp)
    rw [hr, List.length_cons] at hsize
    have derives : Derives (statements closesBlock (statementOf (block levels))) _ :=
      statements_derive (statementOf_derives ih) rfl
    have read := (derives.closed id (by simp)).deeper _ _ _ h (Nat.le_of_lt hsize) hd
    refine read.prepend (v := [opening]) hr ?_
    rintro _ _ ⟨n, rfl, body, w, closing, rfl, rfl, hc, derived, -⟩
    exact .braces ho derived hc

theorem program_derives : Derives program fun n p w rest =>
    Body n p w rest ∧ (firstKind rest == .eof) :=
  statements_derive (statementOf_derives (block_derives _)) rfl

end Parser

namespace Yield

theorem eq_nil_of_firstKind_eof {w rest : List Token} (inner : ∀ t ∈ w ++ rest, t.kind ≠ .eof)
    (h : firstKind rest = .eof) : rest = [] := by
  cases rest with
  | nil => rfl
  | cons t r => exact absurd h (inner t (by simp))

/-- What is parsed from the tokens of a whole file is derived from them within the limit. -/
theorem body_of_ofTokens {p : Program} {body : List Token} {last : Token} (hl : last.kind = .eof)
    (inner : ∀ t ∈ body, t.kind ≠ .eof) (h : Program.ofTokens (body ++ [last]) = .ok p) :
    ∃ n, n ≤ maxNesting ∧ Body n p body [] := by
  have start := rest_ofTokens hl inner
  have size : (Cursor.ofTokens (body ++ [last])).rest.length ≤ (body ++ [last]).length := by
    rw [start, List.length_append]
    omega
  unfold Program.ofTokens at h
  cases run : Parser.program (.ofTokens (body ++ [last])) with
  | error e c =>
    rw [run] at h
    cases h
  | ok q c =>
    rw [run] at h
    cases h
    obtain ⟨w, n, hw, -, -, hn, derived, ends⟩ :=
      Parser.program_derives _ _ _ run size (Nat.zero_le _)
    change 0 + n ≤ maxNesting at hn
    rw [start] at hw
    rw [hw] at inner
    have empty := eq_nil_of_firstKind_eof inner (by simpa using ends)
    rw [empty, List.append_nil] at hw
    rw [empty, ← hw] at derived
    exact ⟨n, by omega, derived⟩

end Yield

/-- The tokens of a whole file: an end of file is the last of them and no other. -/
def Token.IsFile (tokens : List Token) : Prop :=
  ∃ body last, tokens = body ++ [last] ∧ last.kind = .eof ∧ ∀ t ∈ body, t.kind ≠ .eof

/-- A program is parsed from the tokens of a file if and only if they are its yield. -/
theorem Program.ofTokens_eq_ok_iff {tokens : List Token} (file : Token.IsFile tokens)
    (p : Program) : Program.ofTokens tokens = .ok p ↔ Yield.IsProgram p tokens := by
  obtain ⟨body, last, rfl, hl, inner⟩ := file
  constructor
  · intro h
    obtain ⟨n, hn, derived⟩ := Yield.body_of_ofTokens hl inner h
    exact ⟨n, body, last, hn, rfl, hl, derived⟩
  · rintro ⟨n, body', last', hn, same, hl', derived⟩
    obtain ⟨rfl, ends⟩ := List.append_inj' same rfl
    cases ends
    have run := derived.ofTokens hl inner
    rwa [if_pos hn] at run

theorem Program.ofTokens_eq_ok_iff_flow :
    let tokens : List Token := [⟨.keyword .flow, "flow", 1⟩, ⟨.identifier, "a", 1⟩,
      ⟨.symbol .minus, "-", 1⟩, ⟨.identifier, "b", 1⟩, ⟨.symbol .star, "*", 1⟩,
      ⟨.symbol .minus, "-", 1⟩, ⟨.identifier, "c", 1⟩, ⟨.newline, "\n", 1⟩, ⟨.eof, "", 2⟩]
    Token.IsFile tokens ∧ Yield.IsProgram [.expr (.call "flow"
      [.binary (.identifier "a") .sub (.binary (.identifier "b") .mul (.neg (.identifier "c")))])]
      tokens := by
  intro tokens
  have file : Token.IsFile tokens := ⟨tokens.dropLast, ⟨.eof, "", 2⟩, rfl, rfl, by decide⟩
  exact ⟨file, (Program.ofTokens_eq_ok_iff file _).1 (by cbv)⟩

end CypherLang
