import WorksetIteration.Text.Json.Form

/-!
# Written JSON texts are read back

Reading the written form of a value gives the value and leaves what follows, for anything that may follow a value in a
text.  Strings, numbers and `null` are written without blanks, and arrays and objects are put together from written
values, so this is proved for the parts first and carries over to what they make up.

Main results:

- `scanString_writeString`, `textOf?_piecesOf`: a written string is read, and denotes the text it was written from.
- `Written`: some characters are a written form of a value.
- `written_natural`, `written_string`, `written_null`: the values without parts.
- `Written.array`, `Written.object`: arrays and objects of written values.
- `Written.parse_eq`: a written form that is a whole text.
-/

namespace WorksetIteration

namespace Json

/-! ## Strings -/

/-- The piece that a written character is read as: control characters without a letter of their own are written as code
units. -/
def pieceOf (c : Char) : JsonPiece :=
  if c.toNat < 0x20 ∧ c ∉ ['\x08', '\x0c', '\n', '\r', '\t'] then .unit c.toNat else .char c

/-- The pieces that a written text is read as. -/
def piecesOf (s : String) : List JsonPiece :=
  s.toList.map pieceOf

theorem codeUnit?_control :
    ∀ n < 0x20, codeUnit? '0' '0' (Nat.digitChar (n / 16)) (Nat.digitChar (n % 16)) = some n := by
  decide

/-- A written character is read as its piece. -/
theorem scanString_writeChar (c : Char) {rest after : List Char} {pieces : List JsonPiece}
    (h : scanString rest = some (pieces, after)) :
    scanString (writeChar c ++ rest) = some (pieceOf c :: pieces, after) := by
  unfold writeChar
  split
  case h_8 hquote hbackslash h8 hc hn hr ht =>
    by_cases hcontrol : c.toNat < 0x20
    · have hpiece : pieceOf c = .unit c.toNat := if_pos ⟨hcontrol, by simpa using ⟨h8, hc, hn, hr, ht⟩⟩
      simp [scanString, hcontrol, codeUnit?_control _ hcontrol, h, hpiece]
    · have hpiece : pieceOf c = .char c := if_neg fun hc => hcontrol hc.1
      have hplain : ¬(c.toNat < 0x20 ∨ c = '\\') := by
        rintro (hlt | heq)
        · exact hcontrol hlt
        · exact hbackslash heq
      rw [if_neg hcontrol, List.singleton_append, scanString.eq_5 c rest hquote
        (fun _ _ _ _ _ heq => absurd heq hbackslash) (fun _ _ heq => absurd heq hbackslash), if_neg hplain, h, hpiece]
      rfl
  all_goals simp [scanString, letterEscape?, pieceOf, h]

/-- The piece of a character denotes it. -/
theorem charsOf?_pieceOf (c : Char) {pieces : List JsonPiece} {cs : List Char} (h : charsOf? pieces = some cs) :
    charsOf? (pieceOf c :: pieces) = some (c :: cs) := by
  unfold pieceOf
  split
  case isTrue hcontrol =>
    have hplain : c.toNat < 0xD800 ∨ 0xDFFF < c.toNat := by omega
    unfold charsOf?
    rw [if_pos hplain, h, Char.ofNat_toNat]
    rfl
  case isFalse =>
    rw [charsOf?, h]
    rfl

/-- A written text is read up to its closing quote. -/
theorem scanString_writeString (s : String) (rest : List Char) :
    scanString (s.toList.flatMap writeChar ++ '"' :: rest) = some (piecesOf s, rest) := by
  rw [piecesOf]
  induction s.toList with
  | nil => rfl
  | cons c cs ih =>
      rw [List.flatMap_cons, List.append_assoc]
      exact scanString_writeChar c ih

/-- The pieces of a text denote it. -/
theorem textOf?_piecesOf (s : String) : textOf? (piecesOf s) = some s := by
  have hchars : charsOf? (s.toList.map pieceOf) = some s.toList := by
    induction s.toList with
    | nil => rfl
    | cons c cs ih => exact charsOf?_pieceOf c ih
  rw [textOf?, piecesOf, hchars, Option.map_some, String.ofList_toList]

/-! ## Natural numbers -/

/-- What may follow a value: nothing, or the end of what it stands in. -/
inductive Delimited : List Char → Prop
  | nothing : Delimited []
  | comma (rest : List Char) : Delimited (',' :: rest)
  | bracket (rest : List Char) : Delimited (']' :: rest)
  | brace (rest : List Char) : Delimited ('\x7d' :: rest)

theorem head?_toDigits_ne_zero {n : Nat} (h : 0 < n) : (Nat.toDigits 10 n).head? ≠ some '0' := by
  induction n using Nat.strongRecOn with
  | ind n ih =>
      rw [Nat.toDigits_eq_if (by decide)]
      split
      · simp only [List.head?_cons, ne_eq, Option.some.injEq, Nat.digitChar_eq_zero]
        omega
      · rw [List.head?_append, Option.or_of_isSome (by simp [Nat.toDigits_ne_nil])]
        exact ih (n / 10) (by omega) (by omega)

theorem isDigit_of_mem_writeNatural {n : Nat} {c : Char} (h : c ∈ writeNatural n) : c.isDigit = true :=
  Nat.isDigit_of_mem_toDigits (by decide) (by decide) h

/-- A written number starts with a digit, and with a zero only if that is all of it. -/
theorem writeNatural_eq_cons (n : Nat) :
    ∃ d ds, writeNatural n = d :: ds ∧ d.isDigit = true ∧ (d = '0' → ds = []) := by
  cases hdigits : writeNatural n with
  | nil => exact absurd hdigits Nat.toDigits_ne_nil
  | cons d ds =>
      refine ⟨d, ds, rfl, isDigit_of_mem_writeNatural (hdigits ▸ List.mem_cons_self), ?_⟩
      rintro rfl
      rcases Nat.eq_zero_or_pos n with rfl | hpos
      · exact (List.cons.inj hdigits).2.symm
      · exact absurd (congrArg List.head? hdigits) (head?_toDigits_ne_zero hpos)

theorem digitsValue_writeNatural (n : Nat) : digitsValue (writeNatural n) = n :=
  Nat.ofDigitChars_toDigits (by decide) (by decide)

theorem scanDigits_writeNatural (n : Nat) {rest : List Char} (h : Delimited rest) :
    scanDigits (writeNatural n ++ rest) = (writeNatural n, rest) := by
  have hdigits : ∀ c ∈ writeNatural n, c.isDigit = true := fun _ => isDigit_of_mem_writeNatural
  rw [scanDigits, List.takeWhile_append_of_pos hdigits, List.dropWhile_append_of_pos hdigits]
  cases h <;> simp [Char.isDigit]

theorem scanInteger?_writeNatural (n : Nat) {rest : List Char} (h : Delimited rest) :
    scanInteger? (writeNatural n ++ rest) = some (writeNatural n, rest) := by
  rw [scanInteger?, scanDigits_writeNatural n h]
  rcases writeNatural_eq_cons n with ⟨d, ds, hd, _, hzero⟩
  rw [hd]
  split
  case h_1 heq => cases heq
  case h_2 heq =>
    cases heq
    cases hzero rfl
  case h_3 heq =>
    cases heq
    rfl

/-- A written number is read as a natural one: no sign comes before it, and no point or exponent after it. -/
theorem scanNumber?_writeNatural (n : Nat) {rest : List Char} (h : Delimited rest) :
    scanNumber? (writeNatural n ++ rest) = some (.natural n, rest) := by
  have hinteger := scanInteger?_writeNatural n h
  have hfraction : scanFraction? rest = some (false, rest) := by cases h <;> rfl
  have hexponent : scanExponent? rest = some (false, rest) := by cases h <;> rfl
  have hsign : (writeNatural n ++ rest).head? ≠ some '-' := by
    rcases writeNatural_eq_cons n with ⟨d, ds, hd, hdigit, _⟩
    rw [hd]
    intro heq
    cases Option.some.inj heq
    cases hdigit
  generalize writeNatural n ++ rest = cs at hinteger hsign ⊢
  simp [scanNumber?, hsign, hinteger, hfraction, hexponent, digitsValue_writeNatural]

/-! ## Values without parts -/

theorem skipBlanks_of_head {c : Char} (h : isBlank c = false) (cs : List Char) : skipBlanks (c :: cs) = c :: cs :=
  List.dropWhile_cons_of_neg (Bool.eq_false_iff.1 h)

/-- Some characters are a written form of a value. -/
structure Written (cs : List Char) (j : Json) : Prop where
  /-- They start with what no blank and no end of an array is. -/
  starts : ∃ c tail, cs = c :: tail ∧ isBlank c = false ∧ c ≠ ']'
  /-- With as much fuel as there are characters they are read as the value, and what follows is left. -/
  scan_eq : ∀ fuel, cs.length ≤ fuel → ∀ rest, Delimited rest → scanValue fuel (cs ++ rest) = some (j, rest)

/-- A value without parts is read with any fuel. -/
theorem Written.of_scanValue {cs : List Char} {j : Json}
    (hstarts : ∃ c tail, cs = c :: tail ∧ isBlank c = false ∧ c ≠ ']')
    (hscan : ∀ fuel rest, Delimited rest → scanValue (fuel + 1) (cs ++ rest) = some (j, rest)) : Written cs j := by
  refine ⟨hstarts, ?_⟩
  intro fuel hfuel rest hrest
  rcases hstarts with ⟨c, tail, rfl, _⟩
  obtain ⟨fuel, rfl⟩ : ∃ k, fuel = k + 1 := Nat.exists_eq_succ_of_ne_zero (by simp at hfuel; omega)
  exact hscan fuel rest hrest

theorem not_isBlank_of_isDigit {c : Char} (h : c.isDigit = true) : isBlank c = false := by
  rw [Bool.eq_false_iff]
  intro hblank
  simp only [isBlank, Bool.or_eq_true, decide_eq_true_eq] at hblank
  rcases hblank with ((rfl | rfl) | rfl) | rfl <;> cases h

theorem written_natural (n : Nat) : Written (writeNatural n) (.natural n) := by
  rcases writeNatural_eq_cons n with ⟨d, ds, hd, hdigit, _⟩
  apply Written.of_scanValue
  · refine ⟨d, ds, hd, not_isBlank_of_isDigit hdigit, ?_⟩
    rintro rfl
    cases hdigit
  · intro fuel rest hrest
    have hnumber := scanNumber?_writeNatural n hrest
    rw [hd] at hnumber ⊢
    rw [scanValue, List.cons_append, skipBlanks_of_head (not_isBlank_of_isDigit hdigit)]
    -- a digit starts no value of another kind
    split
    case h_7 => exact hnumber
    all_goals
      rename_i heq
      cases (List.cons.inj heq).1
      cases hdigit

theorem writeString_append (s : String) (rest : List Char) :
    writeString s ++ rest = '"' :: (s.toList.flatMap writeChar ++ '"' :: rest) := by
  simp [writeString]

theorem written_string (s : String) : Written (writeString s) (.string (piecesOf s)) := by
  apply Written.of_scanValue
  · exact ⟨'"', _, rfl, rfl, by decide⟩
  · intro fuel rest _
    rw [writeString_append, scanValue, skipBlanks_of_head rfl]
    simp [scanString_writeString s rest]

theorem written_null : Written "null".toList .null := by
  apply Written.of_scanValue
  · exact ⟨'n', _, rfl, rfl, by decide⟩
  · intro fuel rest _
    rfl

/-! ## Arrays -/

theorem intercalate_comma (part next : List Char) (more : List (List Char)) :
    [','].intercalate (part :: next :: more) = part ++ ',' :: [','].intercalate (next :: more) := by
  rw [List.intercalate_cons_cons, List.append_assoc]
  rfl

/-- The first part decides what the text starts with. -/
theorem exists_intercalate_eq_cons (c : Char) (tail : List Char) (more : List (List Char)) :
    ∃ rest, [','].intercalate ((c :: tail) :: more) = c :: rest := by
  cases more with
  | nil => exact ⟨tail, List.intercalate_singleton⟩
  | cons next more => exact ⟨_, intercalate_comma _ next more⟩

/-- Written elements with commas between them are read up to the closing bracket. -/
theorem scanElements_intercalate {items : List (List Char × Json)} (hne : items ≠ [])
    (hitems : ∀ item ∈ items, Written item.1 item.2) (rest : List Char) {fuel : Nat}
    (hfuel : ([','].intercalate (items.map (·.1))).length < fuel) :
    scanElements fuel ([','].intercalate (items.map (·.1)) ++ ']' :: rest) = some (items.map (·.2), rest) := by
  induction items generalizing fuel with
  | nil => exact absurd rfl hne
  | cons item items ih =>
      obtain ⟨fuel, rfl⟩ : ∃ k, fuel = k + 1 := Nat.exists_eq_succ_of_ne_zero (by omega)
      have hitem : Written item.1 item.2 := hitems item List.mem_cons_self
      cases items with
      | nil =>
          simp only [List.map_cons, List.map_nil, List.intercalate_singleton] at hfuel ⊢
          rw [scanElements, hitem.scan_eq fuel (by omega) _ (.bracket rest)]
          rfl
      | cons next more =>
          simp only [List.map_cons, intercalate_comma, List.length_append, List.length_cons] at hfuel
          have hmore := ih (List.cons_ne_nil next more) (fun x hx => hitems x (List.mem_cons_of_mem _ hx))
            (show _ < fuel by simp only [List.map_cons]; omega)
          simp only [List.map_cons, intercalate_comma, List.append_assoc, List.cons_append] at hmore ⊢
          rw [scanElements, hitem.scan_eq fuel (by omega) _ (.comma _)]
          change (scanElements fuel _ >>= _) = _
          rw [hmore]
          rfl

/-- An array of written elements is written with its brackets around them. -/
theorem Written.array {items : List (List Char × Json)} (hitems : ∀ item ∈ items, Written item.1 item.2) :
    Written ('[' :: [','].intercalate (items.map (·.1)) ++ [']']) (.array (items.map (·.2))) := by
  refine ⟨⟨'[', _, rfl, rfl, by decide⟩, ?_⟩
  intro fuel hfuel rest _
  simp only [List.cons_append, List.append_assoc, List.nil_append, List.length_append, List.length_cons,
    List.length_nil] at hfuel ⊢
  obtain ⟨fuel, rfl⟩ : ∃ k, fuel = k + 1 := Nat.exists_eq_succ_of_ne_zero (by omega)
  rw [scanValue, skipBlanks_of_head rfl]
  cases items with
  | nil => rfl
  | cons item items =>
      have helements := scanElements_intercalate (List.cons_ne_nil item items) hitems rest (show _ < fuel by omega)
      -- the first element starts with no closing bracket
      rcases (hitems item List.mem_cons_self).starts with ⟨c, tail, hc, hblank, hbracket⟩
      rcases exists_intercalate_eq_cons c tail (items.map (·.1)) with ⟨inner, hinner⟩
      rw [List.map_cons, hc, hinner, List.cons_append] at helements ⊢
      simp [skipBlanks_of_head hblank, hbracket, helements]

/-! ## Objects -/

/-- Reading a written member comes to what follows its value. -/
theorem scanMembers_writeMember {value : List Char} {j : Json} (h : Written value j) (name : String) {fuel : Nat}
    (hfuel : value.length ≤ fuel) {rest : List Char} (hrest : Delimited rest) :
    scanMembers (fuel + 1) (writeMember name value ++ rest) =
      match skipBlanks rest with
      | ',' :: rest => do
          let (members, rest) ← scanMembers fuel rest
          pure ((piecesOf name, j) :: members, rest)
      | '\x7d' :: rest => pure ([(piecesOf name, j)], rest)
      | _ => none := by
  rw [writeMember, List.append_assoc, writeString_append, scanMembers, skipBlanks_of_head rfl]
  simp only [scanString_writeString, Option.bind_eq_bind, Option.bind_some, List.cons_append]
  rw [skipBlanks_of_head rfl]
  change (scanValue fuel (value ++ rest)).bind _ = _
  rw [h.scan_eq fuel hfuel rest hrest]
  rfl

/-- Written members with commas between them are read up to the closing brace. -/
theorem scanMembers_intercalate {items : List (String × List Char × Json)} (hne : items ≠ [])
    (hitems : ∀ item ∈ items, Written item.2.1 item.2.2) (rest : List Char) {fuel : Nat}
    (hfuel : ([','].intercalate (items.map fun item => writeMember item.1 item.2.1)).length < fuel) :
    scanMembers fuel ([','].intercalate (items.map fun item => writeMember item.1 item.2.1) ++ '\x7d' :: rest) =
      some (items.map fun item => (piecesOf item.1, item.2.2), rest) := by
  induction items generalizing fuel with
  | nil => exact absurd rfl hne
  | cons item items ih =>
      obtain ⟨fuel, rfl⟩ : ∃ k, fuel = k + 1 := Nat.exists_eq_succ_of_ne_zero (by omega)
      have hitem : Written item.2.1 item.2.2 := hitems item List.mem_cons_self
      have hlength : item.2.1.length < (writeMember item.1 item.2.1).length := by
        simp only [writeMember, List.length_append, List.length_cons]
        omega
      cases items with
      | nil =>
          simp only [List.map_cons, List.map_nil, List.intercalate_singleton] at hfuel ⊢
          rw [scanMembers_writeMember hitem item.1 (by omega) (.brace rest)]
          rfl
      | cons next more =>
          simp only [List.map_cons, intercalate_comma, List.length_append, List.length_cons] at hfuel
          have hmore := ih (List.cons_ne_nil next more) (fun x hx => hitems x (List.mem_cons_of_mem _ hx))
            (show _ < fuel by simp only [List.map_cons]; omega)
          simp only [List.map_cons, intercalate_comma, List.append_assoc, List.cons_append] at hmore ⊢
          rw [scanMembers_writeMember hitem item.1 (by omega) (.comma _)]
          change (scanMembers fuel _ >>= _) = _
          rw [hmore]
          rfl

/-- An object of written members is written with its braces around them. -/
theorem Written.object {items : List (String × List Char × Json)}
    (hitems : ∀ item ∈ items, Written item.2.1 item.2.2) :
    Written ('\x7b' :: [','].intercalate (items.map fun item => writeMember item.1 item.2.1) ++ ['\x7d'])
      (.object (items.map fun item => (piecesOf item.1, item.2.2))) := by
  refine ⟨⟨'\x7b', _, rfl, rfl, by decide⟩, ?_⟩
  intro fuel hfuel rest _
  simp only [List.cons_append, List.append_assoc, List.nil_append, List.length_append, List.length_cons,
    List.length_nil] at hfuel ⊢
  obtain ⟨fuel, rfl⟩ : ∃ k, fuel = k + 1 := Nat.exists_eq_succ_of_ne_zero (by omega)
  rw [scanValue, skipBlanks_of_head rfl]
  cases items with
  | nil => rfl
  | cons item items =>
      have hmembers := scanMembers_intercalate (List.cons_ne_nil item items) hitems rest (show _ < fuel by omega)
      -- the name of the first member starts with a quote, and so with no closing brace
      rcases exists_intercalate_eq_cons '"' _ (items.map fun item => writeMember item.1 item.2.1) with
        ⟨inner, hinner⟩
      rw [List.map_cons, writeMember, writeString_append, hinner, List.cons_append] at hmembers ⊢
      simp [skipBlanks_of_head (c := '"') rfl, hmembers]

/-! ## Whole texts -/

/-- A written value is what the text of its characters holds. -/
theorem Written.parse_eq {cs : List Char} {j : Json} (h : Written cs j) : parse (String.ofList cs) = some j := by
  have hscan := h.scan_eq (2 * cs.length + 2) (by omega) [] .nothing
  rw [List.append_nil] at hscan
  rw [parse, String.toList_ofList]
  change (scanValue (2 * cs.length + 2) cs).bind _ = _
  rw [hscan]
  rfl

end Json

end WorksetIteration
