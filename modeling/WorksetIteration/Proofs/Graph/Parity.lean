import WorksetIteration.Graph.OddEven
import WorksetIteration.Proofs.Key

/-!
# Graphs of two parities

Whatever is drawn, the generated edges are the chains through the odd vertices and through the even ones and after
these the random edges, which are drawn within the vertices and moved into one parity.  The check reads each record as
a vertex with its label and compares the label with an expected one.  That is the first vertex of the same parity as
long as the vertex is not negative: the remainder of a negative odd number by two is minus one, so such a vertex is
taken for even.

Main results:

- `OddEven.moveTo_spec`, `OddEven.sameParity_of_mem_edgesOf`: moved vertices and the ends of edges.
- `OddEven.getElem?_edgesOf`: the chains come first, in order.
- `OddEven.edgesOf_exact`: how many edges are generated, and which.
- `OddEven.expectedLabel_eq`: the expected label by the parity and the sign of the vertex.
- `OddEven.check_eq_ok_iff`, `OddEven.check_eq_error_iff`: which labellings pass, and what is reported of others.
- `OddEven.check_exact`: all about the check, and where it is a check of parities.
-/

namespace WorksetIteration

theorem Graph.toNat_toInt_lt (n : Int64) : n.toInt.toNat < 2 ^ 63 := by
  have := n.toInt_lt
  omega

namespace OddEven

open WorksetIteration.Graph

/-! ## Edges -/

/-- An edge between two of the first `n` vertices that have the same parity. -/
def SameParity (n : Nat) (e : Record) : Prop :=
  ∃ source target, 1 ≤ source ∧ source ≤ n ∧ 1 ≤ target ∧ target ≤ n ∧ source % 2 = target % 2 ∧ e = edge source target

theorem sameParity_of_mem_chain {n : Nat} {e : Record} (h : e ∈ chain n) : SameParity n e := by
  rcases List.mem_map.1 h with ⟨i, hi, rfl⟩
  rw [List.mem_range] at hi
  exact ⟨i + 1, i + 3, by omega, by omega, by omega, by omega, by omega, rfl⟩

/-- A moved vertex has the parity that it was moved to, and is one of the first `n` again. -/
theorem moveTo_spec {parity n v : Nat} (hparity : parity < 2) (hn : 2 ≤ n) (hpos : 1 ≤ v) (hle : v ≤ n) :
    1 ≤ moveTo parity v ∧ moveTo parity v ≤ n ∧ moveTo parity v % 2 = parity := by
  unfold moveTo
  split
  · omega
  · split <;> omega

section Draws

variable {σ : Type} {draws : Draws σ}

/-- Whatever is drawn, a random edge stays within the vertices and within one parity. -/
theorem sameParity_randomEdge {n : Nat} (hn : 2 ≤ n) (s : σ) : SameParity n (randomEdge draws n s).1 := by
  have hmoved : ∀ s', 1 ≤ moveTo (draws.coin s).1.toNat (draws.number n s').1 ∧
      moveTo (draws.coin s).1.toNat (draws.number n s').1 ≤ n ∧
      moveTo (draws.coin s).1.toNat (draws.number n s').1 % 2 = (draws.coin s).1.toNat :=
    fun s' => moveTo_spec (Bool.toNat_lt _) hn (draws.one_le_number n s') (draws.number_le n s' (by omega))
  rcases hmoved (draws.coin s).2 with ⟨hsource, hsource', hparity⟩
  rcases hmoved (draws.number n (draws.coin s).2).2 with ⟨htarget, htarget', hparity'⟩
  exact ⟨_, _, hsource, hsource', htarget, htarget', hparity.trans hparity'.symm, rfl⟩

theorem sameParity_of_mem_randomEdges {n : Nat} (hn : 2 ≤ n) {count : Nat} {s : σ} {e : Record}
    (h : e ∈ randomEdges draws n count s) : SameParity n e := by
  induction count generalizing s with
  | zero => cases h
  | succ count ih =>
      rcases List.mem_cons.1 h with rfl | h
      · exact sameParity_randomEdge hn s
      · exact ih h

/-- Every generated edge stays within the vertices and within one parity. -/
theorem sameParity_of_mem_edgesOf {count n : Nat} {s : σ} {e : Record} (h : e ∈ edgesOf draws count n s) :
    SameParity n e := by
  unfold edgesOf at h
  split at h
  · cases h
  · rcases List.mem_append.1 h with h | h
    · exact sameParity_of_mem_chain h
    · exact sameParity_of_mem_randomEdges (by omega) h

/-- The chains come first: the edge that leads to a vertex stands in the place of that vertex, counted from the
third. -/
theorem getElem?_edgesOf {count n v : Nat} (hlow : 3 ≤ v) (hhigh : v ≤ n) (s : σ) :
    (edgesOf draws count n s)[v - 3]? = some (edge (v - 2) v) := by
  obtain ⟨i, rfl⟩ : ∃ i, v = i + 3 := ⟨v - 3, by omega⟩
  have hi : i < n - 2 := by omega
  rw [edgesOf, if_neg (by omega), Nat.add_sub_cancel, List.getElem?_append_left (by rwa [length_chain]), chain,
    List.getElem?_map, List.getElem?_range hi]
  rfl

/-- So they are among the generated edges. -/
theorem edge_mem_edgesOf {count n k : Nat} (hpos : 1 ≤ k) (hle : k + 2 ≤ n) (s : σ) :
    edge k (k + 2) ∈ edgesOf draws count n s :=
  List.mem_of_getElem? (getElem?_edgesOf (by omega) hle s)

/-- Random edges are drawn until there are as many edges as asked for, if the chains have not as many already. -/
theorem length_edgesOf {count n : Nat} (hn : 2 ≤ n) (s : σ) :
    (edgesOf draws count n s).length = max count (n - 2) := by
  rw [edgesOf, if_neg (by omega), List.length_append, length_chain, length_randomEdges]
  omega

end Draws

/-- From two vertices on, as many edges are generated as are asked for, or as the chains need.  The first ones lead to
the vertices from the third on, in order, each from the vertex two below; and whatever is drawn, every edge joins two of
the vertices that have the same parity.  For fewer vertices there is no edge. -/
theorem edgesOf_exact {σ : Type} (draws : Draws σ) (count : Nat) (n : Int64) (s : σ) :
    (2 ≤ n →
      (edgesOf draws count n.toInt.toNat s).length = max count (n.toInt.toNat - 2) ∧
      (∀ v, 3 ≤ v → v ≤ n →
        (edgesOf draws count n.toInt.toNat s)[v.toInt.toNat - 3]? = some (vertexPair (v - 2) v)) ∧
      ∀ e ∈ edgesOf draws count n.toInt.toNat s, ∃ source target, e = vertexPair source target ∧
        1 ≤ source ∧ source ≤ n ∧ 1 ≤ target ∧ target ≤ n ∧ source.toInt % 2 = target.toInt % 2) ∧
    (n < 2 → edgesOf draws count n.toInt.toNat s = []) := by
  have hn := toNat_toInt_lt n
  simp only [Int64.le_iff_toInt_le, Int64.lt_iff_toInt_lt]
  constructor
  · intro htwo
    change 2 ≤ n.toInt at htwo
    refine ⟨length_edgesOf (by omega) s, ?chain, ?parity⟩
    case chain =>
      intro v hlow hhigh
      change 3 ≤ v.toInt at hlow
      obtain ⟨k, hk⟩ : ∃ k : Nat, v.toInt = k := ⟨v.toInt.toNat, by omega⟩
      obtain rfl : v = Int64.ofNat k := by
        rw [← Int64.toInt_inj, hk, Int64.toInt_ofNat_of_lt (by omega)]
      rw [hk, Int.toNat_natCast, getElem?_edgesOf (by omega) (by omega) s, edge, Int64.ofNat_sub _ _ (by omega)]
      rfl
    case parity =>
      intro e he
      rcases sameParity_of_mem_edgesOf he with ⟨a, b, ha, ha', hb, hb', hparity, rfl⟩
      refine ⟨Int64.ofNat a, Int64.ofNat b, rfl, ?_⟩
      rw [Int64.toInt_ofNat_of_lt (by omega), Int64.toInt_ofNat_of_lt (by omega)]
      change 1 ≤ (a : Int) ∧ (a : Int) ≤ n.toInt ∧ 1 ≤ (b : Int) ∧ (b : Int) ≤ n.toInt ∧ (a : Int) % 2 = (b : Int) % 2
      omega
  · intro htwo
    change n.toInt < 2 at htwo
    exact if_pos (by omega)

/-- Five edges over four vertices, of which two are the chains and three are drawn by the generator, and a negative
number of vertices. -/
theorem edgesOf_exact_seeded :
    (edges 5 4 7).length = 5 ∧ (edges 5 4 7)[1]? = some (vertexPair 2 4) ∧
      (∀ e ∈ edges 5 4 7, ∃ source target, e = vertexPair source target ∧
        1 ≤ source ∧ source ≤ 4 ∧ 1 ≤ target ∧ target ≤ 4 ∧ source.toInt % 2 = target.toInt % 2) ∧
      edges 5 (-3) 7 = [] := by
  rcases edgesOf_exact Xoshiro.draws 5 4 (.ofSeed 7) with ⟨hsome, _⟩
  rcases edgesOf_exact Xoshiro.draws 5 (-3) (.ofSeed 7) with ⟨_, hnone⟩
  rcases hsome (by decide) with ⟨hlength, hchain, hparity⟩
  exact ⟨hlength, hchain 4 (by decide) (by decide), hparity, hnone (by decide)⟩

/-! ## Checking a labelling -/

/-- The first vertex of the parity of a vertex: one for odd vertices, and two for even ones. -/
def parityLabel (vertex : Int64) : Int64 :=
  if vertex.toInt % 2 = 1 then 1 else 2

/-- The expected label goes by the parity of a vertex, unless the vertex is negative. -/
theorem expectedLabel_eq (vertex : Int64) :
    expectedLabel vertex = if 0 ≤ vertex.toInt then parityLabel vertex else 2 := by
  have hodd : vertex % 2 = 1 ↔ 0 ≤ vertex.toInt ∧ vertex.toInt % 2 = 1 := by
    rw [← Int64.toInt_inj, Int64.toInt_mod]
    change vertex.toInt.tmod 2 = 1 ↔ _
    rw [Int.tmod_eq_emod]
    split <;> omega
  rw [expectedLabel, parityLabel]
  simp only [hodd, ite_and]

/-- A record of a vertex with the label that a rule gives it. -/
def Follows (rule : Int64 → Int64) (r : Record) : Prop :=
  ∃ vertex label, r.get? 0 = some (.int64 vertex) ∧ r.get? 1 = some (.int64 label) ∧ label = rule vertex

/-- How a record breaks a rule: its first two fields are not a vertex and a label, or the label is another one. -/
inductive Breaks (rule : Int64 → Int64) (r : Record) : Violation → Prop
  | malformed (h : ¬∃ vertex label, r.get? 0 = some (.int64 vertex) ∧ r.get? 1 = some (.int64 label)) :
      Breaks rule r (.malformed r)
  | wrongLabel {vertex label : Int64} (hvertex : r.get? 0 = some (.int64 vertex))
      (hlabel : r.get? 1 = some (.int64 label)) (hne : label ≠ rule vertex) :
      Breaks rule r (.wrongLabel vertex label (rule vertex))

/-- A violation is that of the first record of a list that breaks a rule. -/
def FirstBreak (rule : Int64 → Int64) (rs : List Record) (violation : Violation) : Prop :=
  ∃ before r after, rs = before ++ r :: after ∧ (∀ b ∈ before, Follows rule b) ∧ Breaks rule r violation

theorem bind_asInt64?_eq_some_iff {v? : Option Value} {n : Int64} :
    v?.bind Value.asInt64? = some n ↔ v? = some (.int64 n) := by
  rcases v? with _ | v
  · simp
  · cases v <;> simp [Value.asInt64?]

theorem checkRecord_eq_ok_iff {r : Record} : checkRecord r = .ok () ↔ Follows expectedLabel r := by
  unfold checkRecord Follows
  simp only [← bind_asInt64?_eq_some_iff]
  cases (r.get? 0).bind Value.asInt64? with
  | none => simp
  | some vertex => cases (r.get? 1).bind Value.asInt64? <;> simp

theorem checkRecord_eq_error_iff {r : Record} {violation : Violation} :
    checkRecord r = .error violation ↔ Breaks expectedLabel r violation := by
  constructor
  · intro h
    unfold checkRecord at h
    split at h
    · next vertex label hvertex hlabel =>
      split at h
      · cases h
      · next hne =>
        obtain rfl := Except.error.inj h
        exact .wrongLabel (bind_asInt64?_eq_some_iff.1 hvertex) (bind_asInt64?_eq_some_iff.1 hlabel) hne
    · next hnone =>
      obtain rfl := Except.error.inj h
      refine .malformed ?_
      rintro ⟨vertex, label, hvertex, hlabel⟩
      exact hnone vertex label (bind_asInt64?_eq_some_iff.2 hvertex) (bind_asInt64?_eq_some_iff.2 hlabel)
  · intro h
    unfold checkRecord
    cases h with
    | malformed hnone =>
        split
        · next vertex label hvertex hlabel =>
          exact absurd ⟨vertex, label, bind_asInt64?_eq_some_iff.1 hvertex, bind_asInt64?_eq_some_iff.1 hlabel⟩ hnone
        · rfl
    | wrongLabel hvertex hlabel hne =>
        rw [bind_asInt64?_eq_some_iff.2 hvertex, bind_asInt64?_eq_some_iff.2 hlabel]
        exact if_neg hne

/-- A labelling passes if each of its records does. -/
theorem check_eq_ok_iff {rs : List Record} : check rs = .ok () ↔ ∀ r ∈ rs, checkRecord r = .ok () := by
  induction rs with
  | nil => simp [check]
  | cons r rs ih =>
      rw [check, List.forall_mem_cons, ← ih]
      cases checkRecord r with
      | ok _ => simp
      | error violation => simp

/-- Of a labelling that does not pass, the first record that breaks the rule is reported. -/
theorem check_eq_error_iff {rs : List Record} {violation : Violation} :
    check rs = .error violation ↔ FirstBreak expectedLabel rs violation := by
  unfold FirstBreak
  induction rs with
  | nil => simp [check]
  | cons r rs ih =>
      rw [exists_first_cons_iff, ← ih, ← checkRecord_eq_ok_iff, ← checkRecord_eq_error_iff, check]
      cases checkRecord r <;> simp

theorem checkRecord_expectedLabel (v : Int64) : checkRecord (vertexPair v (expectedLabel v)) = .ok () :=
  if_pos rfl

/-! ## Rules that agree -/

section Rules

variable {rule rule' : Int64 → Int64}

/-- Two rules agree on the vertex of a record, if it has one. -/
def AgreeOn (rule rule' : Int64 → Int64) (r : Record) : Prop :=
  ∀ vertex, r.get? 0 = some (.int64 vertex) → rule vertex = rule' vertex

theorem AgreeOn.symm {r : Record} (h : AgreeOn rule rule' r) : AgreeOn rule' rule r :=
  fun vertex hvertex => (h vertex hvertex).symm

theorem Follows.congr {r : Record} (h : AgreeOn rule rule' r) (hr : Follows rule r) : Follows rule' r := by
  rcases hr with ⟨vertex, label, hvertex, hlabel, heq⟩
  exact ⟨vertex, label, hvertex, hlabel, heq.trans (h vertex hvertex)⟩

theorem Breaks.congr {r : Record} {violation : Violation} (h : AgreeOn rule rule' r)
    (hr : Breaks rule r violation) : Breaks rule' r violation := by
  cases hr with
  | malformed hnone => exact .malformed hnone
  | wrongLabel hvertex hlabel hne =>
      rw [h _ hvertex] at hne ⊢
      exact .wrongLabel hvertex hlabel hne

theorem FirstBreak.congr {rs : List Record} {violation : Violation} (h : ∀ r ∈ rs, AgreeOn rule rule' r)
    (hrs : FirstBreak rule rs violation) : FirstBreak rule' rs violation := by
  rcases hrs with ⟨before, r, after, rfl, hbefore, hr⟩
  refine ⟨before, r, after, rfl, fun b hb => (hbefore b hb).congr (h b ?_), hr.congr (h r ?_)⟩
  · exact List.mem_append_left _ hb
  · exact List.mem_append_right _ List.mem_cons_self

end Rules

/-! ## All about the check -/

/-- The expected label is that of the parity of a vertex from zero on, and two for every negative vertex.  A labelling
passes just if each of its records is a vertex with its expected label, and otherwise the first record that is not is
reported.  So on labellings without negative odd vertices it is a check of parities. -/
theorem check_exact (rs : List Record) :
    (∀ vertex, expectedLabel vertex = if 0 ≤ vertex.toInt then parityLabel vertex else 2) ∧
    (check rs = .ok () ↔ ∀ r ∈ rs, Follows expectedLabel r) ∧
    (∀ violation, check rs = .error violation ↔ FirstBreak expectedLabel rs violation) ∧
    ((∀ r ∈ rs, ∀ vertex, r.get? 0 = some (.int64 vertex) → 0 ≤ vertex.toInt ∨ vertex.toInt % 2 = 0) →
      (check rs = .ok () ↔ ∀ r ∈ rs, Follows parityLabel r) ∧
      ∀ violation, check rs = .error violation ↔ FirstBreak parityLabel rs violation) := by
  have hok : check rs = .ok () ↔ ∀ r ∈ rs, Follows expectedLabel r := by
    rw [check_eq_ok_iff]
    exact forall₂_congr fun _ _ => checkRecord_eq_ok_iff
  refine ⟨expectedLabel_eq, hok, fun violation => check_eq_error_iff, fun hsigns => ?_⟩
  have hagree : ∀ r ∈ rs, AgreeOn expectedLabel parityLabel r := by
    intro r hr vertex hvertex
    rw [expectedLabel_eq]
    rcases hsigns r hr vertex hvertex with hpos | heven
    · exact if_pos hpos
    · rw [parityLabel, heven]
      exact ite_self 2
  refine ⟨hok.trans ?_, fun violation => check_eq_error_iff.trans ?_⟩
  · exact forall₂_congr fun r hr => ⟨.congr (hagree r hr), .congr (hagree r hr).symm⟩
  · exact ⟨.congr hagree, .congr fun r hr => (hagree r hr).symm⟩

/-- A negative even vertex and an odd one with their labels before an even one with the label of the odd ones, and after
it a record that is no vertex. -/
theorem check_exact_of_wrong_label :
    let before : List Record := [vertexPair (-4) 2, vertexPair 5 1]
    let rs : List Record := before ++ [vertexPair 6 1, .pair (.int32 1) (.int64 1)]
    (∀ r ∈ rs, ∀ vertex, r.get? 0 = some (.int64 vertex) → 0 ≤ vertex.toInt ∨ vertex.toInt % 2 = 0) ∧
      check before = .ok () ∧ check rs = .error (.wrongLabel 6 1 2) ∧
      FirstBreak parityLabel rs (.wrongLabel 6 1 2) := by
  intro before rs
  have hsigns : ∀ r ∈ rs, ∀ vertex, r.get? 0 = some (.int64 vertex) → 0 ≤ vertex.toInt ∨ vertex.toInt % 2 = 0 := by
    simp only [rs, before, List.forall_mem_append, List.forall_mem_cons]
    simp [vertexPair]
  have hrefused : check rs = .error (.wrongLabel 6 1 2) := rfl
  exact ⟨hsigns, rfl, hrefused, (((check_exact rs).2.2.2 hsigns).2 _).1 hrefused⟩

/-- The check is neither complete nor sound for parities: it refuses the label one of a negative odd vertex, and accepts
the label two. -/
theorem not_check_parityLabel_of_negative :
    (Follows parityLabel (vertexPair (-1) 1) ∧ check [vertexPair (-1) 1] = .error (.wrongLabel (-1) 1 2)) ∧
      ¬Follows parityLabel (vertexPair (-1) 2) ∧ check [vertexPair (-1) 2] = .ok () := by
  refine ⟨⟨⟨-1, 1, rfl, rfl, rfl⟩, rfl⟩, ?_, rfl⟩
  rintro ⟨vertex, label, hvertex, hlabel, heq⟩
  cases hvertex
  cases hlabel
  exact absurd heq (by decide)

end OddEven

end WorksetIteration
