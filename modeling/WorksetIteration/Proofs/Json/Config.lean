import WorksetIteration.Config.Json
import WorksetIteration.Proofs.Json.Form

/-!
# Configurations survive their texts

Over any form that reads back what it writes, a configuration that is written and read again is the same, whatever its
name and its numbers are.  A text is read as a configuration only if the key that it gives is a list of field numbers
with at least one of them, and what was read can be written and read again.  JSON is such a form.

Main results:

- `KeySpec.ofText?_eq_some_iff`: which texts are read as key specifications.
- `KeySpec.ofText?_toText`, `Config.ofText?_toText`: what is written in such a form is read back.
- `Config.fields_of_ofText?`: where the settings of a configuration that was read come from.
- `Config.key_of_ofJson?`: where its key stands in a JSON text.
- `Config.json_roundTrip`: reading, writing and reading again.
-/

namespace WorksetIteration

variable {form : TextForm}

/-! ## Key specifications -/

namespace KeySpec

theorem ofIndices?_eq_some_iff {indices : List UInt64} {spec : KeySpec} :
    ofIndices? indices = some spec ↔ indices = spec.indices := by
  constructor
  · intro h
    unfold ofIndices? at h
    split at h
    · cases h
    · cases h
      rfl
  · rintro rfl
    exact ofIndices?_indices spec

/-- A text is read as a key specification if it holds the list of its field numbers. -/
theorem ofText?_eq_some_iff {text : String} {spec : KeySpec} :
    ofText? form text = some spec ↔ form.readValue? .words text = some spec.indices := by
  simp only [ofText?, Option.bind_eq_bind, Option.bind_eq_some_iff, ofIndices?_eq_some_iff, exists_eq_right]

/-- A written key specification is read back. -/
theorem ofText?_toText (hform : form.ReadsBack) (spec : KeySpec) : ofText? form (spec.toText form) = some spec :=
  ofText?_eq_some_iff.2 (hform.value_eq .words spec.indices)

/-- A value that is read as the field numbers of a key specification is an array of them. -/
theorem exists_elements_of_ofJson? {v : Json} {spec : KeySpec} (h : Shape.words.ofJson? v = some spec.indices) :
    ∃ elements, v = .array elements ∧ elements ≠ [] ∧ elements.mapM Json.toUInt64? = some spec.indices := by
  cases v with
  | array elements =>
      refine ⟨elements, rfl, ?_, h⟩
      rintro rfl
      exact spec.nonempty (Option.some.inj h).symm
  | _ => cases h

end KeySpec

/-! ## Configurations -/

/-- A setting that was read is what the text gives for its field, or the default of the field if it gives nothing. -/
theorem Given.given_or_default {α : Type} {given : Given} {name : String} {shape : Shape} {default a : α}
    {convert : shape.Value → Option α} (h : given.setting? name shape default convert = some a)
    (toValue : α → shape.Value) (hconvert : ∀ value, convert value = some a → value = toValue a) {fields : List Field}
    (hdefault : ⟨name, shape, toValue default⟩ ∈ fields) :
    given.field? name shape = some (some (toValue a)) ∨
      given.field? name shape = some none ∧ ⟨name, shape, toValue a⟩ ∈ fields := by
  simp only [setting?, Option.bind_eq_bind, Option.bind_eq_some_iff] at h
  rcases h with ⟨_ | value, hfield, ha⟩
  · obtain rfl := Option.some.inj ha
    exact Or.inr ⟨hfield, hdefault⟩
  · rw [hconvert value ha] at hfield
    exact Or.inl hfield

namespace Config

theorem nodup_fieldNames : fieldNames.Nodup := by
  decide

/-- The settings of a configuration, as the fields that a text gives, make it up. -/
theorem ofGiven?_of_fields {given : Given} {c : Config}
    (h : ∀ field ∈ c.fields, given.field? field.name field.shape = some (some field.value)) :
    ofGiven? given = some c := by
  simp only [fields, List.forall_mem_cons] at h
  rcases h with ⟨hname, hmaxRounds, hkey, hparallelism, hfanoutLimit, _⟩
  simp [ofGiven?, Given.setting?, hname, hmaxRounds, hkey, hparallelism, hfanoutLimit, KeySpec.ofIndices?_indices]

/-- A written configuration is read back. -/
theorem ofText?_toText (hform : form.ReadsBack) (c : Config) : ofText? form (c.toText form) = some c := by
  rcases hform.fields_eq c.fields nodup_fieldNames with ⟨given, hread, hfields⟩
  have hread : form.readFields? fieldNames (c.toText form) = some given := hread
  rw [ofText?, hread]
  exact ofGiven?_of_fields hfields

/-- Every setting of a configuration that was read is what the text gives for it, or the default if the text gives
nothing. -/
theorem fields_of_ofText? {text : String} {c : Config} (h : ofText? form text = some c) :
    ∃ given, form.readFields? fieldNames text = some given ∧ ∀ field ∈ c.fields,
      given.field? field.name field.shape = some (some field.value) ∨
        given.field? field.name field.shape = some none ∧ field ∈ ({} : Config).fields := by
  simp only [ofText?, ofGiven?, Option.bind_eq_bind, Option.bind_eq_some_iff, Option.pure_def, Option.some.injEq] at h
  rcases h with ⟨given, hread, name, hname, maxRounds, hmaxRounds, key, hkey, parallelism, hparallelism, fanoutLimit,
    hfanoutLimit, rfl⟩
  refine ⟨given, hread, ?_⟩
  simp only [fields, List.forall_mem_cons]
  refine ⟨?_, ?_, ?_, ?_, ?_, List.forall_mem_nil _⟩
  · exact Given.given_or_default hname id (fun _ => Option.some.inj) (by simp)
  · exact Given.given_or_default hmaxRounds id (fun _ => Option.some.inj) (by simp)
  · exact Given.given_or_default hkey KeySpec.indices (fun _ => KeySpec.ofIndices?_eq_some_iff.1) (by simp)
  · exact Given.given_or_default hparallelism id (fun _ => Option.some.inj) (by simp)
  · exact Given.given_or_default hfanoutLimit id (fun _ => Option.some.inj) (by simp)

/-! ## Where the key stands in a JSON text -/

/-- What a JSON text that is read as a configuration gives for the key is an array of its field numbers, and the key is
that of the first field if the text gives nothing for it. -/
theorem key_of_ofJson? {text : String} {c : Config} (h : ofJson? text = some c) :
    ∃ j, Json.parse text = some j ∧
      (∀ v, Json.Gives fieldNames "key" j v → ∃ elements, v = .array elements ∧ elements ≠ [] ∧
        elements.mapM Json.toUInt64? = some c.key.indices) ∧
      ((∀ v, ¬Json.Gives fieldNames "key" j v) → c.key = .field 0) := by
  rcases fields_of_ofText? h with ⟨given, hread, hfields⟩
  rcases Json.field?_of_readFields? hread with ⟨j, hparse, hgives⟩
  refine ⟨j, hparse, ?_⟩
  rcases hfields ⟨"key", .words, c.key.indices⟩ (by simp [fields]) with hkey | ⟨hkey, hdefault⟩
  · rcases hgives _ _ _ hkey with ⟨hgiven, hnone⟩
    refine ⟨?_, fun hno => nomatch hnone hno⟩
    intro v hv
    rcases hgiven v hv with ⟨_, hvalue, hjson⟩
    cases hvalue
    exact KeySpec.exists_elements_of_ofJson? hjson
  · refine ⟨?_, fun _ => ?_⟩
    · intro v hv
      rcases (hgives _ _ _ hkey).1 v hv with ⟨_, hvalue, _⟩
      cases hvalue
    · have hindices : c.key.indices = (KeySpec.field 0).indices := by simpa [fields] using hdefault
      exact Option.some.inj
        ((KeySpec.ofIndices?_indices c.key).symm.trans (KeySpec.ofIndices?_eq_some_iff.2 hindices))

/-! ## Both ways -/

/-- Over any form that reads back what it writes, configurations and key specifications that are written are read back.
A text that is read as either has a key with at least one field: every setting is what the text gives for it, or the
default if it gives nothing.  What was read can be written and read again.

JSON is such a form, and there the key of a configuration is what stands for it in the text, an array of field numbers
that is not empty. -/
theorem json_roundTrip :
    (∀ form : TextForm, form.ReadsBack →
      (∀ c : Config, ofText? form (c.toText form) = some c) ∧
      (∀ spec : KeySpec, KeySpec.ofText? form (spec.toText form) = some spec) ∧
      (∀ text c, ofText? form text = some c → c.key.indices ≠ [] ∧ ofText? form (c.toText form) = some c ∧
        ∃ given, form.readFields? fieldNames text = some given ∧ ∀ field ∈ c.fields,
          given.field? field.name field.shape = some (some field.value) ∨
            given.field? field.name field.shape = some none ∧ field ∈ ({} : Config).fields) ∧
      ∀ text spec, KeySpec.ofText? form text = some spec →
        spec.indices ≠ [] ∧ KeySpec.ofText? form (spec.toText form) = some spec ∧
          form.readValue? .words text = some spec.indices) ∧
    Json.form.ReadsBack ∧
    (∀ c : Config, ofJson? c.toJson = some c) ∧
    (∀ spec : KeySpec, KeySpec.ofJson? spec.toJson = some spec) ∧
    (∀ text c, ofJson? text = some c → c.key.indices ≠ [] ∧ ofJson? c.toJson = some c ∧
      ∃ j, Json.parse text = some j ∧
        (∀ v, Json.Gives fieldNames "key" j v → ∃ elements, v = .array elements ∧ elements ≠ [] ∧
          elements.mapM Json.toUInt64? = some c.key.indices) ∧
        ((∀ v, ¬Json.Gives fieldNames "key" j v) → c.key = .field 0)) ∧
    ∀ text spec, KeySpec.ofJson? text = some spec → spec.indices ≠ [] ∧ KeySpec.ofJson? spec.toJson = some spec ∧
      ∃ elements, Json.parse text = some (.array elements) ∧ elements ≠ [] ∧
        elements.mapM Json.toUInt64? = some spec.indices := by
  refine ⟨?_, Json.form_readsBack, ofText?_toText Json.form_readsBack, KeySpec.ofText?_toText Json.form_readsBack,
    ?_, ?_⟩
  · intro form hform
    refine ⟨ofText?_toText hform, KeySpec.ofText?_toText hform, ?_, ?_⟩
    · exact fun text c h => ⟨c.key.nonempty, ofText?_toText hform c, fields_of_ofText? h⟩
    · exact fun text spec h =>
        ⟨spec.nonempty, KeySpec.ofText?_toText hform spec, KeySpec.ofText?_eq_some_iff.1 h⟩
  · exact fun text c h => ⟨c.key.nonempty, ofText?_toText Json.form_readsBack c, key_of_ofJson? h⟩
  · intro text spec h
    have hread : (Json.parse text).bind Shape.words.ofJson? = some spec.indices := KeySpec.ofText?_eq_some_iff.1 h
    rcases Option.bind_eq_some_iff.1 hread with ⟨_, hparse, hwords⟩
    rcases KeySpec.exists_elements_of_ofJson? hwords with ⟨elements, rfl, hne, hindices⟩
    exact ⟨spec.nonempty, KeySpec.ofText?_toText Json.form_readsBack spec, elements, hparse, hne, hindices⟩

/-- A text with blanks, a name with an escape, the greatest field number, a member of another name and no limit, and a
key specification alone. -/
theorem json_roundTrip_partial :
    let text := "\x7b \"key\": [18446744073709551615, 0], \"name\": \"a\\u0007\\\"\", \"other\": 1e9 \x7d"
    let c : Config := { name := "a\x07\"", key := ⟨[18446744073709551615, 0], by decide⟩ }
    Json.form.ReadsBack ∧ ofJson? text = some c ∧ c.key.indices ≠ [] ∧
      c.toJson = "\x7b\"name\":\"a\\u0007\\\"\",\"max_rounds\":100,\"key\":[18446744073709551615,0]," ++
        "\"parallelism\":1,\"join_fanout_limit\":null\x7d" ∧
      ofJson? c.toJson = some c ∧ KeySpec.ofJson? " [3]" = some (.field 3) ∧
      KeySpec.ofJson? (KeySpec.field 3).toJson = some (.field 3) := by
  intro text c
  have hread : ofJson? text = some c := by decide +kernel
  have hspec : KeySpec.ofJson? " [3]" = some (.field 3) := by decide +kernel
  rcases json_roundTrip.1 Json.form Json.form_readsBack with ⟨_, _, hconfigs, hspecs⟩
  rcases hconfigs text c hread with ⟨hne, hagain, _⟩
  exact ⟨Json.form_readsBack, hread, hne, by decide +kernel, hagain, hspec, (hspecs " [3]" (.field 3) hspec).2.1⟩

end Config

end WorksetIteration
