import WorksetIteration.Config
import WorksetIteration.Text.Json.Form

/-!
# Configurations as texts

A configuration is kept in texts by its settings, each a field with a name, and a key specification by the list of its
field numbers.  A setting that a text does not give has its default, and the list of a key must not be empty.  This is
so for any form of the texts, and for JSON in particular.

Main definitions:

- `KeySpec.toText`, `KeySpec.ofText?`: writing and reading a key specification.
- `Config.fields`, `Config.ofGiven?`: the settings, and what is made of those that a text gives.
- `Config.toText`, `Config.ofText?`: writing and reading a configuration.
- `KeySpec.toJson`, `KeySpec.ofJson?`, `Config.toJson`, `Config.ofJson?`: the same for JSON texts.
-/

namespace WorksetIteration

/-! ## Key specifications -/

namespace KeySpec

/-- A key specification as a text. -/
def toText (form : TextForm) (spec : KeySpec) : String :=
  form.writeValue .words spec.indices

/-- Reads a key specification from a text: a list of field numbers that is not empty. -/
def ofText? (form : TextForm) (s : String) : Option KeySpec := do
  let indices ← form.readValue? .words s
  ofIndices? indices

/-- A key specification as a JSON text. -/
def toJson (spec : KeySpec) : String :=
  spec.toText Json.form

/-- Reads a key specification from a JSON text. -/
def ofJson? (s : String) : Option KeySpec :=
  ofText? Json.form s

end KeySpec

/-! ## Configurations -/

namespace Config

/-- The settings of a configuration in order. -/
def fields (c : Config) : List Field :=
  [⟨"name", .text, c.name⟩,
   ⟨"max_rounds", .word32, c.maxRounds⟩,
   ⟨"key", .words, c.key.indices⟩,
   ⟨"parallelism", .word64, c.parallelism⟩,
   ⟨"join_fanout_limit", .optionalWord, c.fanoutLimit⟩]

/-- The names of the settings in order. -/
def fieldNames : List String :=
  ({} : Config).fields.map Field.name

/-- The configuration with the settings that a text gives. -/
def ofGiven? (given : Given) : Option Config := do
  let base : Config := {}
  let name ← given.setting? "name" .text base.name some
  let maxRounds ← given.setting? "max_rounds" .word32 base.maxRounds some
  let key ← given.setting? "key" .words base.key KeySpec.ofIndices?
  let parallelism ← given.setting? "parallelism" .word64 base.parallelism some
  let fanoutLimit ← given.setting? "join_fanout_limit" .optionalWord base.fanoutLimit some
  pure ⟨name, maxRounds, key, parallelism, fanoutLimit⟩

/-- A configuration as a text. -/
def toText (form : TextForm) (c : Config) : String :=
  form.writeFields c.fields

/-- Reads a configuration from a text. -/
def ofText? (form : TextForm) (s : String) : Option Config := do
  let given ← form.readFields? fieldNames s
  ofGiven? given

/-- A configuration as a JSON text. -/
def toJson (c : Config) : String :=
  c.toText Json.form

/-- Reads a configuration from a JSON text. -/
def ofJson? (s : String) : Option Config :=
  ofText? Json.form s

end Config

end WorksetIteration
