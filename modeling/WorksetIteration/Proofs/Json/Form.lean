import WorksetIteration.Proofs.Json.Written

/-!
# JSON texts read back what was written

Whatever the values and the names of fields are, a JSON text that was written with them gives them again.  What any
other text gives for a field is what stands for it in the value that the text holds.

Main results:

- `Shape.written`, `Shape.ofJson?_jsonValue`: the value that a written one is read as, and what it stands for.
- `Json.form_readsBack`: what is written as JSON is read back.
- `Json.Gives`: a value gives another for a field.
- `Json.field?_of_readFields?`: what a text gives for a field.
-/

namespace WorksetIteration

/-! ## Values -/

namespace Json

@[simp]
theorem toUInt64?_natural (n : UInt64) : (natural n.toNat).toUInt64? = some n := by
  simp [toUInt64?, toNatural?, n.toNat_lt_size]

@[simp]
theorem toUInt32?_natural (n : UInt32) : (natural n.toNat).toUInt32? = some n := by
  simp [toUInt32?, toNatural?, n.toNat_lt_size]

/-- A list is read element by element. -/
theorem mapM_map_eq_some {α β γ : Type} {read : β → Option γ} {write : α → β} {value : α → γ}
    (h : ∀ a, read (write a) = some (value a)) (as : List α) : (as.map write).mapM read = some (as.map value) := by
  have hread : read ∘ write = fun a => pure (value a) := funext h
  rw [List.mapM_map, hread, List.mapM_pure]
  rfl

theorem written_naturals (ns : List UInt64) :
    Written (writeNaturals (ns.map UInt64.toNat)) (.array (ns.map fun n => .natural n.toNat)) := by
  have hitems : ∀ item ∈ ns.map fun n => (writeNatural n.toNat, natural n.toNat), Written item.1 item.2 := by
    intro item hitem
    rcases List.mem_map.1 hitem with ⟨n, _, rfl⟩
    exact written_natural n.toNat
  have harray := Written.array hitems
  rw [List.map_map, List.map_map] at harray
  rw [writeNaturals, List.map_map]
  exact harray

end Json

namespace Shape

/-- The value that a written one is read as. -/
def jsonValue : (shape : Shape) → shape.Value → Json
  | .text, s => .string (Json.piecesOf s)
  | .word32, n => .natural n.toNat
  | .word64, n => .natural n.toNat
  | .words, ns => .array (ns.map fun n => .natural n.toNat)
  | .optionalWord, none => .null
  | .optionalWord, some n => .natural n.toNat

theorem written (shape : Shape) (value : shape.Value) :
    Json.Written (shape.toJsonChars value) (shape.jsonValue value) := by
  cases shape with
  | text => exact Json.written_string value
  | word32 => exact Json.written_natural (UInt32.toNat value)
  | word64 => exact Json.written_natural (UInt64.toNat value)
  | words => exact Json.written_naturals value
  | optionalWord =>
      cases value with
      | none => exact Json.written_null
      | some n => exact Json.written_natural n.toNat

theorem ofJson?_jsonValue (shape : Shape) (value : shape.Value) :
    shape.ofJson? (shape.jsonValue value) = some value := by
  cases shape with
  | text => exact Json.textOf?_piecesOf value
  | word32 => exact Json.toUInt32?_natural value
  | word64 => exact Json.toUInt64?_natural value
  | words => exact (Json.mapM_map_eq_some Json.toUInt64?_natural value).trans (congrArg some (List.map_id value))
  | optionalWord =>
      cases value with
      | none => rfl
      | some n => simp [jsonValue, ofJson?, Json.toOption?]

end Shape

/-! ## Written fields -/

namespace Json

/-- The members that written fields are read as. -/
def membersOf (fields : List Field) : List (List JsonPiece × Json) :=
  fields.map fun field => (piecesOf field.name, field.shape.jsonValue field.value)

/-- What written fields hold is the object of their members. -/
theorem parse_writeFields (fields : List Field) :
    parse (String.ofList (writeFields fields)) = some (.object (membersOf fields)) := by
  have hitems : ∀ item ∈ fields.map fun field =>
      (field.name, field.shape.toJsonChars field.value, field.shape.jsonValue field.value),
      Written item.2.1 item.2.2 := by
    intro item hitem
    rcases List.mem_map.1 hitem with ⟨field, _, rfl⟩
    exact field.shape.written field.value
  have hobject := (Written.object hitems).parse_eq
  rw [List.map_map, List.map_map] at hobject
  exact hobject

/-- Among fields of different names each is found once. -/
theorem filter_name_eq {fields : List Field} (hnodup : (fields.map Field.name).Nodup) {field : Field}
    (hfield : field ∈ fields) : (fields.filter fun other => other.name = field.name) = [field] := by
  induction fields with
  | nil => cases hfield
  | cons first fields ih =>
      rw [List.map_cons, List.nodup_cons] at hnodup
      rcases List.mem_cons.1 hfield with rfl | hfield
      · rw [List.filter_cons_of_pos (by simp), List.filter_eq_nil_iff.2]
        intro other hother heq
        exact hnodup.1 (of_decide_eq_true heq ▸ List.mem_map_of_mem hother)
      · rw [List.filter_cons_of_neg, ih hnodup.2 hfield]
        intro heq
        exact hnodup.1 (of_decide_eq_true heq ▸ List.mem_map_of_mem hfield)

/-- The value of each written field stands for it. -/
theorem ofMembers?_membersOf {fields : List Field} (hnodup : (fields.map Field.name).Nodup) :
    ∃ source, Source.ofMembers? (membersOf fields) = some source ∧
      ∀ field ∈ fields, source field.name = some (some (field.shape.jsonValue field.value)) := by
  have hnamed : ((membersOf fields).mapM fun m => (textOf? m.1).map fun name => (name, m.2)) =
      some (fields.map fun field => (field.name, field.shape.jsonValue field.value)) := by
    apply mapM_map_eq_some
    intro field
    rw [textOf?_piecesOf]
    rfl
  rw [Source.ofMembers?, hnamed]
  refine ⟨_, rfl, ?_⟩
  intro field hfield
  have hfound : ((fields.map fun field => (field.name, field.shape.jsonValue field.value)).filter
      fun m => m.1 = field.name) = [(field.name, field.shape.jsonValue field.value)] := by
    rw [List.filter_map]
    exact congrArg (List.map _) (filter_name_eq hnodup hfield)
  simp only [hfound]

/-- What is written as JSON is read back. -/
theorem form_readsBack : form.ReadsBack where
  value_eq := by
    intro shape value
    change (parse (String.ofList (shape.toJsonChars value))).bind shape.ofJson? = some value
    rw [(shape.written value).parse_eq]
    exact shape.ofJson?_jsonValue value
  fields_eq := by
    intro fields hnodup
    rcases ofMembers?_membersOf hnodup with ⟨source, hsource, hgiven⟩
    refine ⟨source.given, ?_, ?_⟩
    · change (parse (String.ofList (writeFields fields))).bind _ = _
      rw [parse_writeFields]
      change (Source.ofMembers? (membersOf fields)).bind _ = _
      rw [hsource]
      rfl
    · intro field hfield
      simp [Source.given, hgiven field hfield, field.shape.ofJson?_jsonValue]

/-! ## Any texts -/

/-- A value gives another for the field of a name: the element of an array at the place of the field, or a member of an
object with that name. -/
inductive Gives (names : List String) (name : String) : Json → Json → Prop
  | element {elements : List Json} {v : Json} :
      elements[names.idxOf name]? = some v → Gives names name (.array elements) v
  | member {members : List (List JsonPiece × Json)} {pieces : List JsonPiece} {v : Json} :
      (pieces, v) ∈ members → textOf? pieces = some name → Gives names name (.object members) v

/-- The names of the members of an object with their values. -/
theorem mem_named_iff {members : List (List JsonPiece × Json)} {named : List (String × Json)}
    (h : (members.mapM fun m => (textOf? m.1).map fun name => (name, m.2)) = some named) {name : String}
    {v : Json} : (name, v) ∈ named ↔ ∃ pieces, (pieces, v) ∈ members ∧ textOf? pieces = some name := by
  induction members generalizing named with
  | nil =>
      obtain rfl : [] = named := Option.some.inj h
      simp
  | cons m members ih =>
      simp only [List.mapM_cons, Option.bind_eq_bind, Option.bind_eq_some_iff, Option.map_eq_some_iff, Option.pure_def,
        Option.some.injEq] at h
      rcases h with ⟨_, ⟨first, hfirst, rfl⟩, rest, hrest, rfl⟩
      rw [List.mem_cons, ih hrest]
      constructor
      · rintro (heq | ⟨pieces, hmem, htext⟩)
        · cases heq
          exact ⟨m.1, List.mem_cons_self, hfirst⟩
        · exact ⟨pieces, List.mem_cons_of_mem _ hmem, htext⟩
      · rintro ⟨pieces, hmem, htext⟩
        rcases List.mem_cons.1 hmem with rfl | hmem
        · obtain rfl := Option.some.inj (htext.symm.trans hfirst)
          exact Or.inl rfl
        · exact Or.inr ⟨pieces, hmem, htext⟩

/-- Among the members of an object a field is the value of the one member with its name. -/
theorem source_of_ofMembers? {members : List (List JsonPiece × Json)} {source : Source}
    (h : Source.ofMembers? members = some source) {name : String} {place : Option Json}
    (hplace : source name = some place) (v : Json) :
    place = some v ↔ ∃ pieces, (pieces, v) ∈ members ∧ textOf? pieces = some name := by
  simp only [Source.ofMembers?, Option.bind_eq_bind, Option.bind_eq_some_iff, Option.pure_def, Option.some.injEq] at h
  rcases h with ⟨named, hnamed, rfl⟩
  rw [← mem_named_iff hnamed]
  have hfilter : (name, v) ∈ named ↔ (name, v) ∈ named.filter fun m => m.1 = name := by simp
  rw [hfilter]
  simp only at hplace
  split at hplace
  case h_1 hnone =>
    cases hplace
    simp [hnone]
  case h_2 m hone =>
    cases hplace
    have hname : m.1 = name := by
      have hmem : m ∈ named.filter fun m => m.1 = name := hone ▸ List.mem_singleton_self m
      simpa using (List.mem_filter.1 hmem).2
    rw [hone, List.mem_singleton, Option.some.injEq, ← hname]
    exact ⟨fun heq => heq ▸ rfl, fun heq => heq ▸ rfl⟩
  case h_3 => cases hplace

/-- What stands for a field is what the value gives for it. -/
theorem source_of_ofJson? {names : List String} {j : Json} {source : Source}
    (h : Source.ofJson? names j = some source) {name : String} {place : Option Json}
    (hplace : source name = some place) (v : Json) : place = some v ↔ Gives names name j v := by
  cases j with
  | array elements =>
      rw [Source.ofJson?, Source.ofElements?] at h
      split at h
      · cases h
        cases hplace
        exact ⟨.element, fun | .element hv => hv⟩
      · cases h
  | object members =>
      rw [source_of_ofMembers? h hplace]
      exact ⟨fun ⟨_, hmem, htext⟩ => .member hmem htext, fun | .member hmem htext => ⟨_, hmem, htext⟩⟩
  | _ => cases h

/-- What a text gives for a field is read from every value that stands for it, and is nothing if there is none. -/
theorem field?_of_readFields? {names : List String} {text : String} {given : Given}
    (h : form.readFields? names text = some given) :
    ∃ j, parse text = some j ∧ ∀ name shape answer, given.field? name shape = some answer →
      (∀ v, Gives names name j v → ∃ value, answer = some value ∧ shape.ofJson? v = some value) ∧
      ((∀ v, ¬Gives names name j v) → answer = none) := by
  simp only [form, Option.bind_eq_bind, Option.bind_eq_some_iff, Option.pure_def, Option.some.injEq] at h
  rcases h with ⟨j, hparse, source, hsource, rfl⟩
  refine ⟨j, hparse, ?_⟩
  intro name shape answer hanswer
  simp only [Source.given, Option.bind_eq_bind, Option.bind_eq_some_iff] at hanswer
  rcases hanswer with ⟨_ | v, hplace, hanswer⟩
  · have hgives := source_of_ofJson? hsource hplace
    cases hanswer
    refine ⟨?_, fun _ => rfl⟩
    intro v hv
    cases (hgives v).2 hv
  · have hgives := source_of_ofJson? hsource hplace
    rcases Option.map_eq_some_iff.1 hanswer with ⟨value, hvalue, rfl⟩
    refine ⟨fun v' hv' => ?_, fun hnone => absurd ((hgives v).1 rfl) (hnone v)⟩
    cases (hgives v').2 hv'
    exact ⟨value, rfl, hvalue⟩

end Json

end WorksetIteration
