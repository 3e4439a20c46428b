namespace CypherLang

/-- A library that writes values and records as JSON and reads them: what is known of it is in the
properties below. -/
structure JsonLibrary where
  /-- What a text is parsed to. -/
  Value : Type
  string : String → String
  u16 : UInt16 → String
  u32 : UInt32 → String
  /-- One of the variants of an enumeration, by its name. -/
  variant : String → String
  /-- A record on one line, or with one field a line. Each field comes with its value as it is
  written alone, unless it is skipped. -/
  record (pretty : Bool) (fields : List (String × Option String)) : String
  parse? : String → Option Value
  /-- The names of the members of an object, in their order. -/
  keys? : Value → Option (List String)
  /-- The values of the fields with these names, as far as they are there. -/
  fields? (names : List String) : Value → Option (List (Option Value))
  string? : Value → Option String
  u16? : Value → Option UInt16
  u32? : Value → Option UInt32
  variant? (names : List String) : Value → Option String
  /-- The value of a field that may be missing. -/
  optional? {α : Type} (read : Value → Option α) : Option Value → Option (Option α)

namespace JsonLibrary

variable (lib : JsonLibrary)

/-- What is written for `a` is parsed, and read as `a`. -/
def Keeps {α : Type} (write : α → String) (read : lib.Value → Option α) (a : α) : Prop :=
  ∃ v, lib.parse? (write a) = some v ∧ read v = some a

def KeepsStrings : Prop := ∀ text, lib.Keeps lib.string lib.string? text

structure KeepsIntegers : Prop where
  u16 (n : UInt16) : lib.Keeps lib.u16 lib.u16? n
  u32 (n : UInt32) : lib.Keeps lib.u32 lib.u32? n

def KeepsVariants : Prop :=
  ∀ names, ∀ name ∈ names, lib.Keeps lib.variant (lib.variant? names) name

/-- A text that is written for a single value. -/
inductive Scalar : String → Prop
  | string (text : String) : Scalar (lib.string text)
  | u16 (n : UInt16) : Scalar (lib.u16 n)
  | u32 (n : UInt32) : Scalar (lib.u32 n)
  | variant (name : String) : Scalar (lib.variant name)

/-- The fields that are not skipped. -/
def present (fields : List (String × Option String)) : List (String × String) :=
  fields.filterMap fun (name, value) => value.map fun text => (name, text)

/-- An object has a member for each field that is not skipped, with the value that its text has
alone. -/
structure KeepsRecords : Prop where
  parsed (pretty : Bool) {fields : List (String × Option String)} :
    (fields.map Prod.fst).Nodup → (∀ f ∈ fields, ∀ text ∈ f.2, lib.Scalar text) →
      ∃ v, lib.parse? (lib.record pretty fields) = some v ∧
        lib.keys? v = some ((present fields).map Prod.fst) ∧
        lib.fields? (fields.map Prod.fst) v = some (fields.map fun f => f.2.bind lib.parse?)
  missing {α : Type} (read : lib.Value → Option α) : lib.optional? read none = some none
  found {α : Type} (read : lib.Value → Option α) {text : String} {v : lib.Value} :
    lib.Scalar text → lib.parse? text = some v →
      lib.optional? read (some v) = (read v).map some

end JsonLibrary

end CypherLang
