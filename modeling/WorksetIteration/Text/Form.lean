/-!
# Forms of texts

Values and the fields of structures are kept in texts.  What the fields are and what a missing one means is up to the
structure, and how the text looks is up to its form.  All that is asked of a form is that it reads what it has written.

Main definitions:

- `Shape`: the types of the values that texts hold.
- `Field`: a value with its name.
- `Given`: what a text gives for the fields of a structure.
- `TextForm`: a way to write and to read texts.
- `TextForm.ReadsBack`: what is written is read back.
-/

namespace WorksetIteration

/-! ## Fields -/

/-- The types of the values that texts hold. -/
inductive Shape where
  /-- A text. -/
  | text
  /-- A natural number of thirty-two bits. -/
  | word32
  /-- A natural number of sixty-four bits. -/
  | word64
  /-- A list of natural numbers of sixty-four bits. -/
  | words
  /-- A natural number of sixty-four bits, or nothing. -/
  | optionalWord
deriving DecidableEq, Repr

/-- The values of a shape. -/
abbrev Shape.Value : Shape → Type
  | .text => String
  | .word32 => UInt32
  | .word64 => UInt64
  | .words => List UInt64
  | .optionalWord => Option UInt64

/-- A value with its name. -/
structure Field where
  /-- The name. -/
  name : String
  /-- The type of the value. -/
  shape : Shape
  /-- The value. -/
  value : shape.Value

/-- What a text gives for the fields of a structure. -/
structure Given where
  /-- What it gives for the field of a name: nothing, or a value of a shape.  The lookup fails if what stands for the
  field has not this shape, or if the field comes more than once. -/
  field? : String → (shape : Shape) → Option (Option shape.Value)

/-- What a field is converted to: the default if the text gives nothing for it. -/
def Given.setting? {α : Type} (given : Given) (name : String) (shape : Shape) (default : α)
    (convert : shape.Value → Option α) : Option α := do
  match ← given.field? name shape with
  | none => pure default
  | some value => convert value

/-! ## Forms -/

/-- A way to write and to read texts. -/
structure TextForm where
  /-- The text of a value. -/
  writeValue : (shape : Shape) → shape.Value → String
  /-- The value that a text holds. -/
  readValue? : (shape : Shape) → String → Option shape.Value
  /-- The text of some fields. -/
  writeFields : List Field → String
  /-- What a text gives for the fields of these names. -/
  readFields? : List String → String → Option Given

/-- What is written is read back, values and fields of different names. -/
structure TextForm.ReadsBack (form : TextForm) : Prop where
  /-- The text of a value holds it. -/
  value_eq : ∀ (shape : Shape) (value : shape.Value),
    form.readValue? shape (form.writeValue shape value) = some value
  /-- The text of some fields gives the value of each of them. -/
  fields_eq : ∀ fields : List Field, (fields.map Field.name).Nodup →
    ∃ given, form.readFields? (fields.map Field.name) (form.writeFields fields) = some given ∧
      ∀ field ∈ fields, given.field? field.name field.shape = some (some field.value)

end WorksetIteration
