import CypherLang.Json
import Mathlib

namespace CypherLang.Json

theorem codeUnit?_hexByte {n : Nat} (h : n < 32) :
    codeUnit? '0' '0' (Nat.digitChar (n / 16 % 16)) (Nat.digitChar (n % 16)) = some n := by
  decide +revert

theorem readUnits_shown {c : Char} (quote : c ≠ '"') (backslash : c ≠ '\\') (shown : ¬c.toNat < 32)
    (read : List Nat) (cs : List Char) :
    readUnits read (c :: cs) = readUnits (c.toNat :: read) cs := by
  rw [readUnits, if_neg shown]
  · exact quote
  · exact fun _ _ _ _ _ h _ => backslash h
  · exact fun _ _ h _ => backslash h

/-- An escape is read as the one character that it was written for. -/
theorem readUnits_escape (read : List Nat) (c : Char) (cs : List Char) :
    readUnits read (escape c ++ cs) = readUnits (c.toNat :: read) cs := by
  unfold escape
  split
  case h_8 quote backslash _ _ _ _ _ =>
    split
    case isTrue control => simp [hexByte, readUnits, codeUnit?_hexByte control]
    case isFalse shown => exact readUnits_shown quote backslash shown read cs
  all_goals simp [readUnits, unescape?]

theorem readUnits_escapes (read : List Nat) (cs rest : List Char) :
    readUnits read (cs.flatMap escape ++ '"' :: rest) =
      some (read.reverse ++ cs.map Char.toNat, rest) := by
  induction cs generalizing read with
  | nil => simp [readUnits]
  | cons c cs ih =>
    rw [List.flatMap_cons, List.append_assoc, readUnits_escape, ih]
    simp

theorem not_surrogate (c : Char) :
    isHighSurrogate c.toNat = false ∧ isLowSurrogate c.toNat = false := by
  have valid : c.toNat < 0xD800 ∨ 0xDFFF < c.toNat ∧ c.toNat < 0x110000 := c.valid
  simp only [isHighSurrogate, isLowSurrogate, Bool.and_eq_false_iff, decide_eq_false_iff_not]
  omega

/-- No character is half of a surrogate pair, so no two of them are joined. -/
theorem joinUnits_toNat (read cs : List Char) :
    joinUnits read (cs.map Char.toNat) = some (read.reverse ++ cs) := by
  induction cs generalizing read with
  | nil => simp [joinUnits]
  | cons c cs ih =>
    obtain ⟨high, low⟩ := not_surrogate c
    rw [List.map_cons]
    unfold joinUnits
    simp [high, low, ih]

theorem readString_escapes (s : String) (rest : List Char) :
    readString (s.toList.flatMap escape ++ '"' :: rest) = some (some s, rest) := by
  have joined := joinUnits_toNat [] s.toList
  rw [List.reverse_nil, List.nil_append] at joined
  rw [readString, readUnits_escapes]
  simp [joined]

theorem toList_quote_append (s : String) (rest : List Char) :
    (quote s).toList ++ rest = '"' :: (s.toList.flatMap escape ++ '"' :: rest) := by
  simp [quote]

/-- What stands here cannot go on with a number. -/
def EndsNumber (cs : List Char) : Prop :=
  ∀ c ∈ cs.head?, c.isDigit = false ∧ c ≠ '.' ∧ c ≠ 'e' ∧ c ≠ 'E'

namespace EndsNumber

variable {cs : List Char}

theorem head?_isDigit (h : EndsNumber cs) : (cs.head?.map Char.isDigit).getD false = false := by
  cases cs with
  | nil => rfl
  | cons c cs => exact (h c rfl).1

theorem takeWhile_isDigit (h : EndsNumber cs) : cs.takeWhile Char.isDigit = [] := by
  cases cs with
  | nil => rfl
  | cons c cs => simp [(h c rfl).1]

theorem dropWhile_isDigit (h : EndsNumber cs) : cs.dropWhile Char.isDigit = cs := by
  cases cs with
  | nil => rfl
  | cons c cs => simp [(h c rfl).1]

theorem readFraction_eq (h : EndsNumber cs) : readFraction cs = some (false, cs) := by
  unfold readFraction
  split
  · exact absurd rfl (h '.' rfl).2.1
  · rfl

theorem readExponent_eq (h : EndsNumber cs) : readExponent cs = some (false, cs) := by
  cases cs with
  | nil => rfl
  | cons c cs =>
    obtain ⟨-, -, small, large⟩ := h c rfl
    simp [readExponent, small, large]

end EndsNumber

theorem isDigit_of_mem_toDigits {n : Nat} : ∀ c ∈ Nat.toDigits 10 n, c.isDigit :=
  fun _ => Nat.isDigit_of_mem_toDigits (by decide) (by decide)

/-- Only zero is written with a zero in front. -/
theorem head?_toDigits_ne_zero {n : Nat} (h : n ≠ 0) : (Nat.toDigits 10 n).head? ≠ some '0' := by
  induction n using Nat.strong_induction_on with
  | _ n ih =>
    rw [Nat.toDigits_eq_if (by decide)]
    split
    case isTrue one =>
      have single : ∀ d < 10, d ≠ 0 → [Nat.digitChar d].head? ≠ some '0' := by decide
      exact single n one h
    case isFalse more =>
      rw [List.head?_append_of_ne_nil _ Nat.toDigits_ne_nil]
      exact ih (n / 10) (by omega) (by omega)

theorem readDigits_toDigits (n : Nat) {rest : List Char} (h : EndsNumber rest) :
    readDigits (Nat.toDigits 10 n ++ rest) = some (Nat.toDigits 10 n, rest) := by
  unfold readDigits
  rw [List.takeWhile_append_of_pos isDigit_of_mem_toDigits,
    List.dropWhile_append_of_pos isDigit_of_mem_toDigits, h.takeWhile_isDigit,
    h.dropWhile_isDigit, List.append_nil]
  cases digits : Nat.toDigits 10 n with
  | nil => exact absurd digits Nat.toDigits_ne_nil
  | cons d ds => rfl

theorem readWhole_toDigits (n : Nat) {rest : List Char} (h : EndsNumber rest) :
    readWhole (Nat.toDigits 10 n ++ rest) = some (Nat.toDigits 10 n, rest) := by
  by_cases zero : n = 0
  · subst zero
    exact if_neg (Bool.not_eq_true _ ▸ h.head?_isDigit)
  · unfold readWhole
    split
    · rename_i cs digits
      have first := head?_toDigits_ne_zero zero
      rw [← List.head?_append_of_ne_nil _ Nat.toDigits_ne_nil, digits] at first
      exact absurd rfl first
    · exact readDigits_toDigits n h

theorem readNumber_toDigits (n : Nat) {rest : List Char} (h : EndsNumber rest) :
    readNumber (Nat.toDigits 10 n ++ rest) = some (number (some n), rest) := by
  unfold readNumber
  split
  rename_i negative cs sign
  split at sign
  · rename_i tail digits
    have first : '-' ∈ (Nat.toDigits 10 n).head? := by
      rw [← List.head?_append_of_ne_nil _ Nat.toDigits_ne_nil, digits]
      rfl
    exact absurd (isDigit_of_mem_toDigits '-' (List.mem_of_mem_head? first)) (by decide)
  · cases sign
    simp [readWhole_toDigits n h, h.readFraction_eq, h.readExponent_eq,
      Nat.ofDigitChars_ten_toDigits]

/-- Reading a text that starts with this one gives the value, unless a number goes on. -/
def Reads (text : String) (value : Json) : Prop :=
  ∀ (fuel : Nat) (rest : List Char), EndsNumber rest →
    readValue (fuel + 1) (text.toList ++ rest) = some (value, rest)

theorem reads_quote (s : String) : Reads (quote s) (string (some s)) := by
  intro fuel rest _
  rw [toList_quote_append]
  simp [readValue, skipBlanks, readString_escapes]

theorem readValue_of_isDigit {c : Char} (h : c.isDigit) (fuel : Nat) (cs : List Char) :
    readValue (fuel + 1) (c :: cs) = readNumber (c :: cs) := by
  have others : ∀ d : Char, d.isDigit = false → c ≠ d := by
    rintro d hd rfl
    exact absurd h (by simp [hd])
  have kept : skipBlanks (c :: cs) = c :: cs := by
    simp [skipBlanks, others ' ' rfl, others '\t' rfl, others '\n' rfl, others '\r' rfl]
  unfold readValue
  rw [kept]
  split
  case h_7 => rfl
  all_goals
    rename_i start
    exact absurd (List.cons.inj start).1 (others _ rfl)

theorem reads_natural (n : Nat) : Reads (toString n) (number (some n)) := by
  intro fuel rest ends
  have digits : (toString n).toList = Nat.toDigits 10 n := Nat.toList_repr
  rw [digits, ← readNumber_toDigits n ends]
  cases shape : Nat.toDigits 10 n with
  | nil => exact absurd shape Nat.toDigits_ne_nil
  | cons d ds =>
    have digit : d.isDigit := isDigit_of_mem_toDigits (n := n) d (by simp [shape])
    exact readValue_of_isDigit digit fuel (ds ++ rest)

/-- Text that is skipped before a value, a key and a brace. -/
def Blank (text : String) : Prop :=
  ∀ c ∈ text.toList, c = ' ' ∨ c = '\n'

theorem Blank.skipBlanks_append {text : String} (h : Blank text) (cs : List Char) :
    skipBlanks (text.toList ++ cs) = skipBlanks cs := by
  apply List.dropWhile_append_of_pos
  intro c hc
  obtain rfl | rfl := h c hc <;> rfl

theorem readValue_blank {text : String} (h : Blank text) (fuel : Nat) (cs : List Char) :
    readValue (fuel + 1) (text.toList ++ cs) = readValue (fuel + 1) cs := by
  unfold readValue
  rw [h.skipBlanks_append]

/-- The marks of an object are no blanks. -/
theorem skipBlanks_mark {c : Char} (h : c ∈ ['"', ':', ',', '\x7b', '\x7d']) (cs : List Char) :
    skipBlanks (c :: cs) = c :: cs := by
  fin_cases h <;> rfl

theorem readValue_object {fuel : Nat} {cs tail rest : List Char}
    {members : List (Option String × Json)} (first : skipBlanks cs = '"' :: tail)
    (read : readMembers fuel [] cs = some (members, rest)) :
    readValue (fuel + 1) ('\x7b' :: cs) = some (object members, rest) := by
  simp [readValue, skipBlanks_mark, first, read]

/-- A member of an object, with the text that is written for its value. -/
structure Member where
  key : String
  text : String
  value : Json
  reads : Reads text value

namespace Member

/-- The member as it is written. -/
def written (m : Member) : String × String := (m.key, m.text)

/-- The member as it is read. -/
def read (m : Member) : Option String × Json := (some m.key, m.value)

end Member

/-- The blanks before each key, before each value and before the closing brace. -/
structure Layout where
  beforeKey : String
  beforeValue : String
  beforeEnd : String
  blankKey : Blank beforeKey
  blankValue : Blank beforeValue
  blankEnd : Blank beforeEnd

namespace Layout

variable (l : Layout)

def memberText (member : String × String) : String :=
  l.beforeKey ++ quote member.1 ++ ":" ++ l.beforeValue ++ member.2

def membersText (members : List (String × String)) : String :=
  ",".intercalate (members.map l.memberText)

/-- The members, given by their keys and the texts of their values, in braces. -/
def objectText (members : List (String × String)) : String :=
  "\x7b" ++ l.membersText members ++ l.beforeEnd ++ "\x7d"

theorem toList_memberText_append (member : String × String) (cs : List Char) :
    (l.memberText member).toList ++ cs = l.beforeKey.toList ++ '"' ::
      (member.1.toList.flatMap escape ++ '"' ::
        ':' :: (l.beforeValue.toList ++ (member.2.toList ++ cs))) := by
  simp [memberText, quote]

theorem membersText_singleton (member : String × String) :
    l.membersText [member] = l.memberText member :=
  String.intercalate_singleton

theorem toList_membersText_append (member next : String × String)
    (members : List (String × String)) (cs : List Char) :
    (l.membersText (member :: next :: members)).toList ++ cs =
      (l.memberText member).toList ++ ',' :: ((l.membersText (next :: members)).toList ++ cs) := by
  simp [membersText, String.intercalate_cons_cons]

/-- Every member is at least one character long, so the length of an object is fuel enough. -/
theorem length_le_membersText (members : List (String × String)) :
    members.length ≤ (l.membersText members).toList.length := by
  induction members with
  | nil => exact Nat.zero_le _
  | cons member members ih =>
    cases members with
    | nil =>
      rw [membersText_singleton, ← List.append_nil (l.memberText member).toList,
        toList_memberText_append]
      simp only [List.length_append, List.length_cons, List.length_nil]
      omega
    | cons next members =>
      have shape := l.toList_membersText_append member next members []
      rw [List.append_nil, List.append_nil] at shape
      rw [shape, List.length_append]
      simp only [List.length_cons] at ih ⊢
      omega

theorem skipBlanks_membersText (member : String × String) (members : List (String × String))
    (cs : List Char) :
    ∃ tail, skipBlanks ((l.membersText (member :: members)).toList ++ cs) = '"' :: tail := by
  have first (cs : List Char) :
      ∃ tail, skipBlanks ((l.memberText member).toList ++ cs) = '"' :: tail := by
    rw [toList_memberText_append, l.blankKey.skipBlanks_append, skipBlanks_mark (by simp)]
    exact ⟨_, rfl⟩
  cases members with
  | nil =>
    rw [membersText_singleton]
    exact first cs
  | cons next members =>
    rw [toList_membersText_append]
    exact first _

theorem readMembers_last (m : Member) (fuel : Nat) (done : List (Option String × Json))
    {cs rest : List Char} (ends : EndsNumber cs) (close : skipBlanks cs = '\x7d' :: rest) :
    readMembers (fuel + 2) done ((l.memberText m.written).toList ++ cs) =
      some ((m.read :: done).reverse, rest) := by
  have value := m.reads fuel cs ends
  rw [l.toList_memberText_append, readMembers, l.blankKey.skipBlanks_append]
  simp [skipBlanks_mark, readString_escapes, readValue_blank l.blankValue, Member.written,
    Member.read, value, close]

theorem readMembers_more (m : Member) (fuel : Nat) (done : List (Option String × Json))
    (cs : List Char) :
    readMembers (fuel + 2) done ((l.memberText m.written).toList ++ ',' :: cs) =
      readMembers (fuel + 1) (m.read :: done) cs := by
  have value := m.reads fuel (',' :: cs) (by simp [EndsNumber])
  rw [l.toList_memberText_append, readMembers, l.blankKey.skipBlanks_append]
  simp [skipBlanks_mark, readString_escapes, readValue_blank l.blankValue, Member.written,
    Member.read, value]

theorem endsNumber_close (rest : List Char) :
    EndsNumber (l.beforeEnd.toList ++ '\x7d' :: rest) := by
  intro c first
  have mark : c = ' ' ∨ c = '\n' ∨ c = '\x7d' := by
    cases blanks : l.beforeEnd.toList with
    | nil =>
      rw [blanks] at first
      cases first
      exact .inr (.inr rfl)
    | cons b bs =>
      rw [blanks] at first
      cases first
      exact (l.blankEnd c (by simp [blanks])).imp_right .inl
  obtain rfl | rfl | rfl := mark <;> decide

/-- The members are read one after another, up to and including the closing brace. -/
theorem readMembers_membersText (m : Member) (ms : List Member) {fuel : Nat}
    (enough : ms.length + 1 < fuel) (done : List (Option String × Json)) (rest : List Char) :
    readMembers fuel done ((l.membersText ((m :: ms).map Member.written)).toList ++
        (l.beforeEnd.toList ++ '\x7d' :: rest)) =
      some (done.reverse ++ (m :: ms).map Member.read, rest) := by
  obtain ⟨fuel, rfl⟩ : ∃ n, fuel = n + 2 := ⟨fuel - 2, by omega⟩
  induction ms generalizing m fuel done with
  | nil =>
    have close : skipBlanks (l.beforeEnd.toList ++ '\x7d' :: rest) = '\x7d' :: rest :=
      l.blankEnd.skipBlanks_append _
    rw [List.map_singleton, membersText_singleton,
      l.readMembers_last m fuel done (l.endsNumber_close rest) close]
    simp
  | cons next ms ih =>
    obtain ⟨fuel, rfl⟩ : ∃ n, fuel = n + 1 := ⟨fuel - 1, by simp at enough; omega⟩
    rw [List.map_cons, List.map_cons, toList_membersText_append, l.readMembers_more,
      ← List.map_cons, ih next (m.read :: done) fuel (by simpa using enough)]
    simp

/-- An object is read as the keys and the values of its members, in their order. -/
theorem ofText?_objectText (m : Member) (ms : List Member) :
    ofText? (l.objectText ((m :: ms).map Member.written)) =
      some (object ((m :: ms).map Member.read)) := by
  have chars : (l.objectText ((m :: ms).map Member.written)).toList =
      '\x7b' :: ((l.membersText ((m :: ms).map Member.written)).toList ++
        (l.beforeEnd.toList ++ '\x7d' :: [])) := by
    simp [objectText]
  have enough : ms.length + 1 < (l.objectText ((m :: ms).map Member.written)).length := by
    have fits := l.length_le_membersText ((m :: ms).map Member.written)
    rw [← String.length_toList, chars, List.length_cons, List.length_append]
    rw [List.length_map, List.length_cons] at fits
    omega
  have read := l.readMembers_membersText m ms enough [] []
  obtain ⟨tail, first⟩ := l.skipBlanks_membersText m.written (ms.map Member.written)
    (l.beforeEnd.toList ++ '\x7d' :: [])
  rw [← List.map_cons] at first
  unfold ofText?
  rw [chars, readValue_object first read]
  rfl

/-- Everything on one line. -/
def compact : Layout where
  beforeKey := ""
  beforeValue := ""
  beforeEnd := ""
  blankKey := by simp [Blank]
  blankValue := by simp [Blank]
  blankEnd := by simp [Blank]

/-- One member a line. -/
def pretty : Layout where
  beforeKey := "\n  "
  beforeValue := " "
  beforeEnd := "\n"
  blankKey := by simp [Blank]
  blankValue := by simp [Blank]
  blankEnd := by simp [Blank]

end Layout

/-- A line break in every separator may as well start every item, if there is one. -/
theorem newline_append_intercalate {texts : List String} (h : texts ≠ []) :
    "\n" ++ ",\n".intercalate texts = ",".intercalate (texts.map ("\n" ++ ·)) := by
  induction texts with
  | nil => exact absurd rfl h
  | cons text texts ih =>
    cases texts with
    | nil => simp
    | cons next texts =>
      have rest := ih (List.cons_ne_nil next texts)
      rw [List.map_cons] at rest
      rw [List.map_cons, List.map_cons, String.intercalate_cons_cons,
        String.intercalate_cons_cons, ← rest]
      simp [String.ext_iff]

theorem objectText_eq (pretty : Bool) {members : List (String × String)} (h : members ≠ []) :
    objectText pretty members =
      (if pretty then Layout.pretty else Layout.compact).objectText members := by
  have nonempty : members.isEmpty = false := by simpa using h
  cases pretty with
  | false =>
    have member : Layout.compact.memberText = fun m => quote m.1 ++ ":" ++ m.2 := by
      funext m
      simp [Layout.memberText, Layout.compact]
    rw [if_neg Bool.false_ne_true, Layout.objectText, Layout.membersText, member]
    simp [objectText, nonempty, Layout.compact]
  | true =>
    have member : Layout.pretty.memberText =
        ("\n" ++ ·) ∘ fun m => "  " ++ quote m.1 ++ ": " ++ m.2 := by
      funext m
      simp [Layout.memberText, Layout.pretty, String.ext_iff]
    have lines : members.map (fun m => "  " ++ quote m.1 ++ ": " ++ m.2) ≠ [] := by simpa using h
    rw [if_pos rfl, Layout.objectText, Layout.membersText, member, ← List.map_map,
      ← newline_append_intercalate lines]
    simp [objectText, nonempty, Layout.pretty, String.ext_iff]

theorem ofText?_objectText (pretty : Bool) (ms : List Member) :
    ofText? (objectText pretty (ms.map Member.written)) = some (object (ms.map Member.read)) := by
  cases ms with
  | nil => simp [objectText, ofText?, readValue, skipBlanks]
  | cons m ms =>
    rw [objectText_eq pretty (by simp), Layout.ofText?_objectText]

theorem Reads.ofText? {text : String} {value : Json} (h : Reads text value) :
    ofText? text = some value := by
  have read := h text.length [] (by simp [EndsNumber])
  rw [List.append_nil] at read
  rw [Json.ofText?, read]
  rfl

section Library

open JsonLibrary (present)

theorem Reads.keeps {α : Type} {write : α → String} {read : Json → Option α} {a : α}
    {value : Json} (h : Reads (write a) value) (found : read value = some a) :
    library.Keeps write read a :=
  ⟨value, h.ofText?, found⟩

theorem library_keepsStrings : library.KeepsStrings :=
  fun text => (reads_quote text).keeps rfl

theorem library_keepsIntegers : library.KeepsIntegers where
  u16 n := by
    have size : n.toNat < UInt16.size := n.toNat_lt_size
    have reads : Reads (library.u16 n) (number (some n.toNat)) := reads_natural n.toNat
    exact reads.keeps (by simp [library, natural?, size])
  u32 n := by
    have size : n.toNat < UInt32.size := n.toNat_lt_size
    have reads : Reads (library.u32 n) (number (some n.toNat)) := reads_natural n.toNat
    exact reads.keeps (by simp [library, natural?, size])

theorem library_keepsVariants : library.KeepsVariants := by
  intro names name mem
  have reads : Reads (library.variant name) (string (some name)) := reads_quote name
  exact reads.keeps (by simp [library, variant?, mem])

theorem exists_reads {text : String} (h : library.Scalar text) :
    ∃ value, Reads text value ∧ value ≠ null := by
  cases h with
  | string text => exact ⟨_, reads_quote text, nofun⟩
  | u16 n => exact ⟨_, reads_natural n.toNat, nofun⟩
  | u32 n => exact ⟨_, reads_natural n.toNat, nofun⟩
  | variant name => exact ⟨_, reads_quote name, nofun⟩

/-- The member that is read for a field, unless it is skipped. -/
def memberOf? (f : String × Option String) : Option (Option String × Json) :=
  (f.2.bind ofText?).map fun value => (some f.1, value)

def membersOf (fields : List (String × Option String)) : List (Option String × Json) :=
  fields.flatMap fun f => (memberOf? f).toList

theorem filter_memberOf? (f : String × Option String) (name : String) :
    (memberOf? f).toList.filter (·.1 == some name) =
      if f.1 = name then (memberOf? f).toList else [] := by
  unfold memberOf?
  cases f.2.bind ofText? with
  | none => simp
  | some v => by_cases same : f.1 = name <;> simp [same]

variable {fields : List (String × Option String)}

theorem exists_members (scalar : ∀ f ∈ fields, ∀ text ∈ f.2, library.Scalar text) :
    ∃ ms : List Member, ms.map Member.written = present fields ∧
      ms.map Member.read = membersOf fields := by
  induction fields with
  | nil => exact ⟨[], rfl, rfl⟩
  | cons f fields ih =>
    obtain ⟨ms, written, read⟩ := ih fun g mem => scalar g (List.mem_cons_of_mem f mem)
    obtain ⟨key, text⟩ := f
    cases text with
    | none => exact ⟨ms, written, read⟩
    | some text =>
      obtain ⟨value, reads, -⟩ := exists_reads (scalar _ List.mem_cons_self text rfl)
      refine ⟨⟨key, text, value, reads⟩ :: ms, ?_, ?_⟩
      · rw [List.map_cons, written]
        rfl
      · rw [List.map_cons, read, membersOf, membersOf, List.flatMap_cons, memberOf?,
          Option.bind_some, reads.ofText?]
        rfl

theorem filter_membersOf_eq_nil {name : String} (h : name ∉ fields.map Prod.fst) :
    (membersOf fields).filter (·.1 == some name) = [] := by
  rw [membersOf, List.filter_flatMap, List.flatMap_eq_nil_iff]
  intro f mem
  have ne : f.1 ≠ name := fun same => h (List.mem_map.2 ⟨f, mem, same⟩)
  rw [filter_memberOf?, if_neg ne]

/-- The one member with the name of a field, unless the field is skipped. -/
theorem filter_membersOf (distinct : (fields.map Prod.fst).Nodup) {f : String × Option String}
    (mem : f ∈ fields) :
    (membersOf fields).filter (·.1 == some f.1) = (memberOf? f).toList := by
  induction fields with
  | nil => cases mem
  | cons g fields ih =>
    obtain ⟨fresh, distinct⟩ := List.nodup_cons.1 distinct
    rw [membersOf, List.flatMap_cons, List.filter_append, filter_memberOf?, ← membersOf]
    rcases List.mem_cons.1 mem with rfl | mem
    · rw [if_pos rfl, filter_membersOf_eq_nil fresh, List.append_nil]
    · have ne : g.1 ≠ f.1 := fun same => fresh (List.mem_map.2 ⟨f, mem, same.symm⟩)
      rw [if_neg ne, List.nil_append, ih distinct mem]

theorem member?_membersOf (distinct : (fields.map Prod.fst).Nodup) {f : String × Option String}
    (mem : f ∈ fields) : member? (membersOf fields) f.1 = some (f.2.bind ofText?) := by
  rw [member?, filter_membersOf distinct mem, memberOf?]
  cases f.2.bind ofText? <;> rfl

theorem mapM_eq_some_map {α β : Type} {f : α → Option β} {g : α → β} {l : List α}
    (h : ∀ a ∈ l, f a = some (g a)) : l.mapM f = some (l.map g) := by
  induction l with
  | nil => rfl
  | cons a l ih =>
    rw [List.mapM_cons, h a List.mem_cons_self, ih fun b mem => h b (List.mem_cons_of_mem a mem)]
    rfl

theorem library_keepsRecords : library.KeepsRecords where
  parsed pretty fields distinct scalar := by
    obtain ⟨ms, written, read⟩ := exists_members scalar
    refine ⟨object (ms.map Member.read), ?_, ?_, ?_⟩
    · change ofText? (objectText pretty (present fields)) = _
      rw [← written, ofText?_objectText]
      rfl
    · change (ms.map Member.read).mapM Prod.fst = _
      rw [← written, List.mapM_map, List.map_map]
      exact mapM_eq_some_map fun m _ => rfl
    · have named : (ms.map Member.read).all (·.1.isSome) := by simp [Member.read]
      change (if (ms.map Member.read).all (·.1.isSome) then
        (fields.map Prod.fst).mapM (member? (ms.map Member.read)) else none) = _
      rw [if_pos named, read, List.mapM_map]
      exact mapM_eq_some_map fun f mem => member?_membersOf distinct mem
  missing _ := rfl
  found read text v scalar parsed := by
    obtain ⟨value, reads, plain⟩ := exists_reads scalar
    obtain rfl : value = v := Option.some.inj (reads.ofText?.symm.trans parsed)
    cases value <;> first | rfl | exact absurd rfl plain

end Library

end CypherLang.Json
