import CypherLang.Diagnostic.Json
import CypherLang.Proofs.Json.ReadBack

namespace CypherLang.Diagnostic

open JsonLibrary

theorem ofName?_name (c : Category) : Category.ofName? c.name = some c := by
  cases c <;> rfl

section

variable {lib : JsonLibrary}

theorem scalar_of_mem_fields {d : Diagnostic} {f : String × Option String} (h : f ∈ d.fields lib)
    {text : String} (written : text ∈ f.2) : lib.Scalar text := by
  unfold fields at h
  simp only [List.mem_cons, List.not_mem_nil, or_false] at h
  rcases h with rfl | rfl | rfl | rfl | rfl | rfl
  · obtain rfl := Option.some.inj written
    exact .string d.file
  · obtain rfl := Option.some.inj written
    exact .u16 d.code
  · obtain rfl := Option.some.inj written
    exact .variant d.category.name
  · obtain rfl := Option.some.inj written
    exact .string d.message
  · obtain ⟨line, -, rfl⟩ := Option.map_eq_some_iff.1 written
    exact .u32 line
  · obtain ⟨sourceLine, -, rfl⟩ := Option.map_eq_some_iff.1 written
    exact .string sourceLine

theorem present_fields (d : Diagnostic) : (present (d.fields lib)).map Prod.fst =
    ["file", "code", "category", "message"] ++ (if d.line.isSome then ["line"] else []) ++
      (if d.sourceLine.isSome then ["source_line"] else []) := by
  obtain ⟨file, code, category, message, line, sourceLine⟩ := d
  cases line <;> cases sourceLine <;> rfl

theorem records_parsed (records : lib.KeepsRecords) (pretty : Bool) (d : Diagnostic) :
    ∃ v, lib.parse? (lib.record pretty (d.fields lib)) = some v ∧
      lib.keys? v = some ((present (d.fields lib)).map Prod.fst) ∧
      lib.fields? fieldNames v = some ((d.fields lib).map fun f => f.2.bind lib.parse?) := by
  have names : (d.fields lib).map Prod.fst = fieldNames := rfl
  have distinct : ((d.fields lib).map Prod.fst).Nodup := by
    rw [names]
    decide
  rw [← names]
  exact records.parsed pretty distinct fun f mem text written => scalar_of_mem_fields mem written

theorem readCategory?_variant (variants : lib.KeepsVariants) (c : Category) :
    ∃ v, lib.parse? (lib.variant c.name) = some v ∧ readCategory? lib v = some c := by
  obtain ⟨v, parsed, read⟩ := variants (Category.all.map Category.name) c.name
    (by cases c <;> decide)
  exact ⟨v, parsed, by rw [readCategory?, read, Option.bind_some, ofName?_name]⟩

/-- A field that may be skipped is read as it was written, and as none if it was skipped. -/
theorem optional?_written {α : Type} {write : α → String} {read : lib.Value → Option α}
    (records : lib.KeepsRecords) (scalar : ∀ a, lib.Scalar (write a))
    (kept : ∀ a, lib.Keeps write read a) (a : Option α) :
    lib.optional? read ((a.map write).bind lib.parse?) = some a := by
  cases a with
  | none => exact records.missing read
  | some a =>
    obtain ⟨v, parsed, same⟩ := kept a
    rw [Option.map_some, Option.bind_some, parsed, records.found read (scalar a) parsed, same]
    rfl

/-- A record of the fields is read as the report. -/
theorem ofJson?_record (strings : lib.KeepsStrings) (integers : lib.KeepsIntegers)
    (variants : lib.KeepsVariants) (records : lib.KeepsRecords) (pretty : Bool) (d : Diagnostic) :
    ofJson? lib (lib.record pretty (d.fields lib)) = some d := by
  obtain ⟨v, parsed, -, values⟩ := records_parsed records pretty d
  obtain ⟨file, parsedFile, readFile⟩ := strings d.file
  obtain ⟨code, parsedCode, readCode⟩ := integers.u16 d.code
  obtain ⟨category, parsedCategory, readCategory⟩ := readCategory?_variant variants d.category
  obtain ⟨message, parsedMessage, readMessage⟩ := strings d.message
  have line := optional?_written records .u32 integers.u32 d.line
  have sourceLine := optional?_written records .string strings d.sourceLine
  have values : lib.fields? fieldNames v = some [some file, some code, some category, some message,
      (d.line.map lib.u32).bind lib.parse?, (d.sourceLine.map lib.string).bind lib.parse?] := by
    rw [values]
    simp [fields, parsedFile, parsedCode, parsedCategory, parsedMessage]
  simp [ofJson?, parsed, values, readFile, readCode, readCategory, readMessage, line, sourceLine]

/-- A diagnostic that is written as JSON is read back as it was, both from one line and from one
field a line, whatever its texts, its code and its category are. The written object has the four
required keys, and the keys of the line and of its text just if they are known. -/
theorem json_readBack (strings : lib.KeepsStrings) (integers : lib.KeepsIntegers)
    (variants : lib.KeepsVariants) (records : lib.KeepsRecords) (d : Diagnostic) :
    ofJson? lib (d.toJson lib) = some d ∧ ofJson? lib (d.toPrettyJson lib) = some d ∧
    ∀ text ∈ [d.toJson lib, d.toPrettyJson lib], ∃ v, lib.parse? text = some v ∧
      lib.keys? v = some (["file", "code", "category", "message"] ++
        (if d.line.isSome then ["line"] else []) ++
        (if d.sourceLine.isSome then ["source_line"] else [])) := by
  have readBack := ofJson?_record strings integers variants records
  have keys (pretty : Bool) : ∃ v, lib.parse? (lib.record pretty (d.fields lib)) = some v ∧
      lib.keys? v = some ((present (d.fields lib)).map Prod.fst) := by
    obtain ⟨v, parsed, keys, -⟩ := records_parsed records pretty d
    exact ⟨v, parsed, keys⟩
  rw [present_fields] at keys
  refine ⟨readBack false d, readBack true d, ?_⟩
  intro text mem
  obtain rfl | rfl : text = d.toJson lib ∨ text = d.toPrettyJson lib := by simpa using mem
  · exact keys false
  · exact keys true

end

/-- A category that does not match the code, and texts with characters of every kind. -/
theorem json_readBack_escapes :
    let lib := Json.library
    let d : Diagnostic := {
      file := "a \"b\".cy", code := 201, category := .runtime, message := "\\ \x01 \t é",
      line := none, sourceLine := some "" }
    d.toJson lib = "\x7b\"file\":\"a \\\"b\\\".cy\",\"code\":201,\"category\":\"runtime\"," ++
        "\"message\":\"\\\\ \\u0001 \\t é\",\"source_line\":\"\"\x7d" ∧
      lib.KeepsStrings ∧ lib.KeepsIntegers ∧ lib.KeepsVariants ∧ lib.KeepsRecords ∧
      ofJson? lib (d.toJson lib) = some d ∧ ofJson? lib (d.toPrettyJson lib) = some d := by
  intro lib d
  obtain ⟨readBack, readBack', -⟩ := json_readBack Json.library_keepsStrings
    Json.library_keepsIntegers Json.library_keepsVariants Json.library_keepsRecords d
  exact ⟨by cbv, Json.library_keepsStrings, Json.library_keepsIntegers,
    Json.library_keepsVariants, Json.library_keepsRecords, readBack, readBack'⟩

end CypherLang.Diagnostic
