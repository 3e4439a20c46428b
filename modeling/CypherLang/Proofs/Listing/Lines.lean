import Mathlib
import CypherLang.Listing

namespace CypherLang.Listing

/-- The characters `line` are the line with the given number. -/
def IsLine (text : List Char) (number : Nat) (line : List Char) : Prop :=
  ∃ before after, text = before ++ (line ++ after) ∧ number = 1 + before.count '\n' ∧
    '\n' ∉ line ∧ (before = [] ∨ before.getLast? = some '\n') ∧
    (after = [] ∨ after.head? = some '\n')

/-- The line without the carriage returns at its end. -/
def Trimmed (line text : List Char) : Prop :=
  ∃ k, line = text ++ List.replicate k '\r' ∧ text.getLast? ≠ some '\r'

/-- The pieces of a text between its line breaks. -/
def splitLines (cs : List Char) : List (List Char) :=
  cs.foldr
    (fun c lines =>
      if c = '\n' then [] :: lines
      else
        match lines with
        | [] => [[c]]
        | line :: rest => (c :: line) :: rest)
    [[]]

theorem splitLines_newline (cs : List Char) : splitLines ('\n' :: cs) = [] :: splitLines cs := rfl

theorem splitLines_cons {c : Char} {cs line : List Char} {lines : List (List Char)}
    (h : c ≠ '\n') (rest : splitLines cs = line :: lines) :
    splitLines (c :: cs) = (c :: line) :: lines := by
  unfold splitLines at rest ⊢
  rw [List.foldr_cons, if_neg h, rest]

theorem splitLines_ne_nil (cs : List Char) : ∃ line lines, splitLines cs = line :: lines := by
  induction cs with
  | nil => exact ⟨[], [], rfl⟩
  | cons c cs ih =>
    obtain ⟨line, lines, rest⟩ := ih
    by_cases h : c = '\n'
    · subst h
      exact ⟨[], splitLines cs, rfl⟩
    · exact ⟨c :: line, lines, splitLines_cons h rest⟩

/-- What stands before the first line break is the first piece. -/
theorem splitLines_first {line after : List Char} (inside : '\n' ∉ line)
    (ends : after = [] ∨ after.head? = some '\n') :
    (splitLines (line ++ after))[0]? = some line := by
  induction line with
  | nil =>
    cases after with
    | nil => rfl
    | cons c after =>
      have newline : c = '\n' := by simpa using ends
      subst newline
      rfl
  | cons c line ih =>
    have hc : c ≠ '\n' := fun h => inside (h ▸ List.mem_cons_self)
    have hline : '\n' ∉ line := fun h => inside (List.mem_cons_of_mem c h)
    obtain ⟨first, lines, rest⟩ := splitLines_ne_nil (line ++ after)
    have same : first = line := by
      have found := ih hline
      rw [rest] at found
      simpa using found
    rw [List.cons_append, splitLines_cons hc rest, same]
    rfl

/-- Every line is the piece with its number. -/
theorem splitLines_of_isLine {text line : List Char} {number : Nat} (h : IsLine text number line) :
    (splitLines text)[number - 1]? = some line := by
  obtain ⟨before, after, split, count, inside, starts, ends⟩ := h
  rw [split, count, Nat.add_sub_cancel_left]
  clear split count
  induction before with
  | nil => exact splitLines_first inside ends
  | cons c before ih =>
    have starts' : before = [] ∨ before.getLast? = some '\n' := by
      cases before with
      | nil => exact .inl rfl
      | cons d before => exact .inr (by simpa using starts)
    have found := ih starts'
    by_cases hc : c = '\n'
    · subst hc
      rw [List.cons_append, splitLines_newline, List.count_cons_self, List.getElem?_cons_succ]
      exact found
    · -- The first piece gets longer, and this line is a later one.
      have later : 0 < before.count '\n' := by
        rcases starts' with none | last
        · subst none
          simp [hc] at starts
        · exact List.count_pos_iff.2 (List.mem_of_getLast? last)
      obtain ⟨first, lines, rest⟩ := splitLines_ne_nil (before ++ (line ++ after))
      obtain ⟨k, hk⟩ : ∃ k, before.count '\n' = k + 1 := ⟨before.count '\n' - 1, by omega⟩
      rw [rest, hk, List.getElem?_cons_succ] at found
      rw [List.cons_append, splitLines_cons hc rest, List.count_cons_of_ne hc, hk,
        List.getElem?_cons_succ]
      exact found

/-- The part of a text up to its first line break. -/
theorem exists_lineEnd (v : List Char) : ∃ r after, v = r ++ after ∧ '\n' ∉ r ∧
    (after = [] ∨ after.head? = some '\n') := by
  induction v with
  | nil => exact ⟨[], [], by simp⟩
  | cons c v ih =>
    by_cases h : c = '\n'
    · exact ⟨[], c :: v, by simp [h]⟩
    · obtain ⟨r, after, split, inside, ends⟩ := ih
      exact ⟨c :: r, after, by simp [split], by simp [inside, Ne.symm h], ends⟩

/-- The part of a text after its last line break. -/
theorem exists_lineStart (u : List Char) : ∃ before l, u = before ++ l ∧ '\n' ∉ l ∧
    (before = [] ∨ before.getLast? = some '\n') := by
  obtain ⟨r, after, split, inside, ends⟩ := exists_lineEnd u.reverse
  refine ⟨after.reverse, r.reverse, ?_, by simpa using inside, by simpa using ends⟩
  simpa using congrArg List.reverse split

/-- Around every place of a text there is a line. What follows there belongs to the line up to the
next line break. -/
theorem exists_isLine (u v : List Char) : ∃ l r after, v = r ++ after ∧
    (after = [] ∨ after.head? = some '\n') ∧ IsLine (u ++ v) (1 + u.count '\n') (l ++ r) := by
  obtain ⟨before, l, start, insideL, starts⟩ := exists_lineStart u
  obtain ⟨r, after, rest, insideR, ends⟩ := exists_lineEnd v
  have count : u.count '\n' = before.count '\n' := by
    rw [start, List.count_append, List.count_eq_zero.2 insideL, Nat.add_zero]
  refine ⟨l, r, after, rest, ends, before, after, ?_, by rw [count], ?_, starts, ends⟩
  · simp [start, rest]
  · simp [insideL, insideR]

/-- A character other than a line break stands on the line of its place. -/
theorem exists_isLine_mem (u v : List Char) {c : Char} (h : c ≠ '\n') :
    ∃ line, IsLine (u ++ c :: v) (1 + u.count '\n') line ∧ c ∈ line := by
  obtain ⟨l, r, after, split, ends, isLine⟩ := exists_isLine u (c :: v)
  cases r with
  | nil =>
    rw [List.nil_append] at split
    subst split
    simp [h] at ends
  | cons d r =>
    obtain ⟨same, -⟩ := List.cons.inj split
    subst same
    exact ⟨l ++ c :: r, isLine, by simp⟩

theorem trimmed_trimReturns (line : List Char) : Trimmed line (trimReturns line) := by
  let returns := line.reverse.takeWhile (· == '\r')
  have all : returns = List.replicate returns.length '\r' := by
    apply List.eq_replicate_of_mem
    intro c hc
    simpa using List.all_eq_true.1 List.all_takeWhile c hc
  have split : line.reverse = returns ++ line.reverse.dropWhile (· == '\r') :=
    List.takeWhile_append_dropWhile.symm
  refine ⟨returns.length, ?_, ?_⟩
  · have turned := congrArg List.reverse split
    rw [all] at turned
    simpa [trimReturns] using turned
  · have stop := List.head?_dropWhile_not (· == '\r') line.reverse
    intro last
    rw [trimReturns, List.getLast?_reverse] at last
    rw [last] at stop
    simp at stop

/-- Only carriage returns are dropped. -/
theorem Trimmed.mem {line text : List Char} (h : Trimmed line text) {c : Char} (mem : c ∈ line)
    (ne : c ≠ '\r') : c ∈ text := by
  obtain ⟨k, split, -⟩ := h
  rw [split] at mem
  rcases List.mem_append.1 mem with mem | mem
  · exact mem
  · exact absurd (List.eq_of_mem_replicate mem) ne

open String (utf8Len)

theorem dropBytes_zero (cs : List Char) : dropBytes 0 cs = cs := by
  cases cs <;> rfl

/-- Whole characters are dropped one after the other. -/
theorem dropBytes_append (n : Nat) (cs ds : List Char) :
    dropBytes (utf8Len cs + n) (cs ++ ds) = dropBytes n ds := by
  induction cs with
  | nil => simp
  | cons c cs ih =>
    have positive := c.utf8Size_pos
    have ne : utf8Len (c :: cs) + n ≠ 0 := by
      rw [String.utf8Len_cons]
      omega
    have less : utf8Len (c :: cs) + n - c.utf8Size = utf8Len cs + n := by
      rw [String.utf8Len_cons]
      omega
    rw [List.cons_append, dropBytes, if_neg ne, less, ih]

theorem takeBytes_append (cs ds : List Char) : takeBytes (utf8Len cs) (cs ++ ds) = cs := by
  induction cs with
  | nil => cases ds <;> rfl
  | cons c cs ih =>
    have positive := c.utf8Size_pos
    have ne : utf8Len (c :: cs) ≠ 0 := by
      rw [String.utf8Len_cons]
      omega
    have less : utf8Len (c :: cs) - c.utf8Size = utf8Len cs := by
      rw [String.utf8Len_cons]
      omega
    rw [List.cons_append, takeBytes, if_neg ne, less, ih]

theorem breakOffsets_add (offset n : Nat) (cs : List Char) :
    breakOffsets (offset + n) cs = (breakOffsets offset cs).map (· + n) := by
  induction cs generalizing offset with
  | nil => rfl
  | cons c cs ih =>
    unfold breakOffsets
    rw [Nat.add_right_comm, ih]
    split <;> rfl

theorem breakOffsets_append {line : List Char} (inside : '\n' ∉ line) (offset : Nat)
    (rest : List Char) :
    breakOffsets offset (line ++ rest) = breakOffsets (offset + utf8Len line) rest := by
  induction line generalizing offset with
  | nil => rfl
  | cons c line ih =>
    obtain ⟨hc, hline⟩ := List.ne_and_not_mem_of_not_mem_cons inside
    rw [List.cons_append, breakOffsets, if_neg hc.symm, ih hline, String.utf8Len_cons,
      Nat.add_right_comm, Nat.add_assoc]

theorem breakOffsets_of_line {line : List Char} (inside : '\n' ∉ line) :
    breakOffsets 0 line = [] := by
  have read := breakOffsets_append inside 0 []
  rwa [List.append_nil] at read

theorem breakOffsets_of_break {line : List Char} (inside : '\n' ∉ line) (rest : List Char) :
    breakOffsets 0 (line ++ '\n' :: rest) =
      utf8Len line :: (breakOffsets 0 rest).map (· + (utf8Len line + 1)) := by
  rw [breakOffsets_append inside, breakOffsets, if_pos rfl, ← breakOffsets_add, Nat.zero_add,
    Nat.zero_add]
  rfl

theorem splitLines_of_line {line : List Char} (inside : '\n' ∉ line) :
    splitLines line = [line] := by
  induction line with
  | nil => rfl
  | cons c line ih =>
    obtain ⟨hc, hline⟩ := List.ne_and_not_mem_of_not_mem_cons inside
    exact splitLines_cons hc.symm (ih hline)

theorem splitLines_of_break {line : List Char} (inside : '\n' ∉ line) (rest : List Char) :
    splitLines (line ++ '\n' :: rest) = line :: splitLines rest := by
  induction line with
  | nil => rfl
  | cons c line ih =>
    obtain ⟨hc, hline⟩ := List.ne_and_not_mem_of_not_mem_cons inside
    exact splitLines_cons hc.symm (ih hline)

/-- The starts of the lines after the first line break are those of the text after it. -/
theorem starts_of_break {line : List Char} (inside : '\n' ∉ line) (rest : List Char) :
    0 :: (breakOffsets 0 (line ++ '\n' :: rest)).map (· + 1) =
      0 :: (0 :: (breakOffsets 0 rest).map (· + 1)).map (· + (utf8Len line + 1)) := by
  rw [breakOffsets_of_break inside]
  simp [Nat.add_comm 1]

/-- Between two offsets of starts there is a piece of the text and a line break. -/
theorem slice_eq (index : Nat) (cs : List Char) :
    ((0 :: (breakOffsets 0 cs).map (· + 1))[index]?.map fun start =>
      takeBytes ((breakOffsets 0 cs)[index]?.getD (utf8Len cs) - start) (dropBytes start cs)) =
        (splitLines cs)[index]? := by
  obtain ⟨line, after, rfl, inside, ends⟩ := exists_lineEnd cs
  cases after with
  | nil =>
    rw [List.append_nil, breakOffsets_of_line inside, splitLines_of_line inside]
    cases index with
    | zero =>
      have all := takeBytes_append line []
      rw [List.append_nil] at all
      simp [dropBytes_zero, all]
    | succ index => rfl
  | cons c rest =>
    obtain rfl : c = '\n' := by simpa using ends
    rw [starts_of_break inside, splitLines_of_break inside]
    cases index with
    | zero => simp [breakOffsets_of_break inside, dropBytes_zero, takeBytes_append]
    | succ index =>
      have ih := slice_eq index rest
      rw [List.getElem?_cons_succ, List.getElem?_cons_succ, ← ih, List.getElem?_map,
        Option.map_map]
      congr 1
      funext start
      have first : utf8Len (line ++ ['\n']) = utf8Len line + 1 := String.utf8Len_append ..
      have drop : dropBytes (start + (utf8Len line + 1)) (line ++ '\n' :: rest) =
          dropBytes start rest := by
        have whole := dropBytes_append start (line ++ ['\n']) rest
        rwa [List.append_assoc, first, Nat.add_comm] at whole
      have stop : (breakOffsets 0 (line ++ '\n' :: rest))[index + 1]?.getD
          (utf8Len (line ++ '\n' :: rest)) =
            (breakOffsets 0 rest)[index]?.getD (utf8Len rest) + (utf8Len line + 1) := by
        rw [breakOffsets_of_break inside, List.getElem?_cons_succ, List.getElem?_map]
        cases (breakOffsets 0 rest)[index]? with
        | some n => rfl
        | none =>
          rw [← List.singleton_append, ← List.append_assoc, String.utf8Len_append, first,
            Option.map_none, Option.getD_none, Option.getD_none, Nat.add_comm]
      dsimp only [Function.comp]
      rw [drop, stop, Nat.add_sub_add_right]
termination_by cs.length

/-- There are as many lines as pieces. -/
theorem numLines_eq (s : Listing) : s.numLines = (splitLines s.text.toList).length := by
  have starts (cs : List Char) (offset : Nat) :
      (breakOffsets offset cs).length + 1 = (splitLines cs).length := by
    induction cs generalizing offset with
    | nil => rfl
    | cons c cs ih =>
      unfold breakOffsets
      by_cases h : c = '\n'
      · rw [if_pos h, h, splitLines_newline, List.length_cons, List.length_cons, ih]
      · obtain ⟨line, lines, pieces⟩ := splitLines_ne_nil cs
        rw [if_neg h, ih, splitLines_cons h pieces, pieces, List.length_cons, List.length_cons]
  rw [numLines, lineStarts, List.length_cons, List.length_map, starts]

/-- A line is a piece of the text without the carriage returns at its end. -/
theorem line?_eq (s : Listing) {number : UInt32} (h : number ≠ 0) :
    s.line? number = (splitLines s.text.toList)[number.toNat - 1]?.map
      fun line => .ofList (trimReturns line) := by
  have stop : (s.lineStarts[number.toNat - 1 + 1]?.map (· - 1)).getD s.text.utf8ByteSize =
      (breakOffsets 0 s.text.toList)[number.toNat - 1]?.getD (utf8Len s.text.toList) := by
    rw [← String.utf8ByteSize_ofList, String.ofList_toList, lineStarts,
      List.getElem?_cons_succ, List.getElem?_map, Option.map_map]
    cases (breakOffsets 0 s.text.toList)[number.toNat - 1]? <;> rfl
  rw [line?, if_neg h, ← slice_eq, Option.map_map]
  dsimp only
  rw [stop]
  change s.lineStarts[number.toNat - 1]?.bind _ = s.lineStarts[number.toNat - 1]?.map _
  cases s.lineStarts[number.toNat - 1]? <;> rfl

/-- A line is found under its number, which is within the number of lines. -/
theorem line?_of_isLine {s : Listing} {number : Nat} {line : List Char}
    (short : s.numLines < 2 ^ 32) (h : IsLine s.text.toList number line) :
    1 ≤ number ∧ number ≤ s.numLines ∧
      s.line? (.ofNat number) = some (.ofList (trimReturns line)) := by
  have piece := splitLines_of_isLine h
  have positive : 1 ≤ number := by
    obtain ⟨before, after, -, count, -⟩ := h
    omega
  have inside : number - 1 < (splitLines s.text.toList).length :=
    (List.getElem?_eq_some_iff.1 piece).1
  have bounded : number ≤ s.numLines := by
    rw [numLines_eq]
    omega
  have fits : (UInt32.ofNat number).toNat = number :=
    UInt32.toNat_ofNat_of_lt (Nat.lt_of_le_of_lt bounded short)
  have ne : UInt32.ofNat number ≠ 0 := by
    intro zero
    rw [zero] at fits
    exact absurd fits.symm (Nat.ne_of_gt positive)
  refine ⟨positive, bounded, ?_⟩
  rw [line?_eq s ne, fits, piece]
  rfl

end CypherLang.Listing
