import WorksetIteration.Proofs.Graph.Convergence
import WorksetIteration.Proofs.Graph.Parity

/-!
# Components of odd and even vertices

Generated edges join vertices of one parity only, whatever is drawn, and their chains lead from the first two vertices
to all the other ones.  So the odd vertices and the even ones are the components of the graph, their least vertices are
one and two, and these are the labels that the check expects of a run.

Main results:

- `Graph.mem_vertices`, `Graph.nodup_vertices`: the vertices from one to a number.
- `OddEven.parity_of_connected`, `OddEven.connected_root`: what the edges connect.
- `OddEven.expectedLabel_isLeast`: the expected label is the least connected vertex.
- `OddEven.connectedComponents_edgesOf`: a run over generated edges converges, and its labels pass the check.
-/

namespace WorksetIteration

/-! ## Vertices -/

namespace Graph

/-- The vertices from one to a number are the integers within these bounds. -/
theorem mem_vertices {n v : Int64} : v ∈ vertices n ↔ 1 ≤ v.toInt ∧ v.toInt ≤ n.toInt := by
  have hn := toNat_toInt_lt n
  rw [vertices, List.mem_map]
  constructor
  · rintro ⟨i, hi, rfl⟩
    rw [List.mem_range] at hi
    rw [Int64.toInt_ofNat_of_lt (by omega)]
    omega
  · rintro ⟨hpos, hle⟩
    refine ⟨v.toInt.toNat - 1, List.mem_range.2 (by omega), ?_⟩
    rw [← Int64.toInt_inj, Int64.toInt_ofNat_of_lt (by omega)]
    omega

theorem nodup_vertices (n : Int64) : (vertices n).Nodup := by
  have hn := toNat_toInt_lt n
  rw [vertices, List.nodup_map_iff_inj_on List.nodup_range]
  intro i hi j hj heq
  rw [List.mem_range] at hi hj
  rw [← Int64.toInt_inj, Int64.toInt_ofNat_of_lt (by omega), Int64.toInt_ofNat_of_lt (by omega)] at heq
  omega

@[simp]
theorem length_vertices (n : Int64) : (vertices n).length = n.toInt.toNat := by
  simp [vertices]

theorem ofNat_mem_vertices {n : Int64} {k : Nat} (hpos : 1 ≤ k) (hle : k ≤ n.toInt.toNat) :
    Int64.ofNat k ∈ vertices n := by
  have hn := toNat_toInt_lt n
  rw [mem_vertices, Int64.toInt_ofNat_of_lt (by omega)]
  omega

end Graph

namespace OddEven

open WorksetIteration.Graph

section Draws

variable {σ : Type} {draws : Draws σ}

/-! ## Components -/

section Components

variable {count : Nat} {n : Int64} {s : σ}

/-- No edge leads from one parity to the other. -/
theorem parity_of_adjacent {u v : Int64} (h : Adjacent (vertices n) (edgesOf draws count n.toInt.toNat s) u v) :
    u.toInt % 2 = v.toInt % 2 := by
  have hn := toNat_toInt_lt n
  rcases h with ⟨_, _, e, he, hends⟩
  rcases sameParity_of_mem_edgesOf he with ⟨a, b, _, ha, _, hb, hparity, rfl⟩
  have hsource : (Int64.ofNat a).toInt = a := Int64.toInt_ofNat_of_lt (by omega)
  have htarget : (Int64.ofNat b).toInt = b := Int64.toInt_ofNat_of_lt (by omega)
  rcases hends with ⟨hu, hv⟩ | ⟨hv, hu⟩
  · cases hu
    cases hv
    omega
  · cases hu
    cases hv
    omega

/-- So neither does a path. -/
theorem parity_of_connected {u v : Int64} (h : Connected (vertices n) (edgesOf draws count n.toInt.toNat s) u v) :
    u.toInt % 2 = v.toInt % 2 := by
  induction h with
  | refl => rfl
  | tail _ hedge ih => exact ih.trans (parity_of_adjacent hedge)

/-- The first vertex with the parity of a vertex. -/
def root (k : Nat) : Nat :=
  if k % 2 = 1 then 1 else 2

theorem root_add_two (k : Nat) : root (k + 2) = root k := by
  simp [root]

/-- The chains connect every vertex with the first one of its parity. -/
theorem connected_root (k : Nat) (hpos : 1 ≤ k) (hle : k ≤ n.toInt.toNat) :
    Connected (vertices n) (edgesOf draws count n.toInt.toNat s) (Int64.ofNat (root k)) (Int64.ofNat k) := by
  induction k using Nat.strongRecOn with
  | ind k ih =>
      rcases Nat.lt_or_ge k 3 with hsmall | hlarge
      · obtain rfl | rfl : k = 1 ∨ k = 2 := by omega
        · exact Relation.ReflTransGen.refl
        · exact Relation.ReflTransGen.refl
      · obtain ⟨j, rfl⟩ : ∃ j, k = j + 2 := ⟨k - 2, by omega⟩
        rw [root_add_two]
        -- the chain leads here from `j`, which it has come to from the first vertex
        refine (ih j (by omega) (by omega) (by omega)).tail ?_
        exact ⟨ofNat_mem_vertices (by omega) (by omega), ofNat_mem_vertices hpos hle, edge j (j + 2),
          edge_mem_edgesOf (by omega) hle s, Or.inl ⟨rfl, rfl⟩⟩

/-- For a vertex from one on, the expected label is the first vertex of its parity. -/
theorem expectedLabel_ofNat {k : Nat} (hk : k < 2 ^ 63) : expectedLabel (Int64.ofNat k) = Int64.ofNat (root k) := by
  have hodd : (k : Int) % 2 = 1 ↔ k % 2 = 1 := by omega
  rw [expectedLabel_eq, parityLabel, Int64.toInt_ofNat_of_lt hk, if_pos (Int.natCast_nonneg k), root]
  simp only [hodd]
  split <;> rfl

/-- The expected label of a vertex is the least vertex that it is connected to. -/
theorem expectedLabel_isLeast {v : Int64} (hv : v ∈ vertices n) :
    IsLeast {u | u ∈ vertices n ∧ Connected (vertices n) (edgesOf draws count n.toInt.toNat s) u v}
      (expectedLabel v) := by
  have hn := toNat_toInt_lt n
  rcases mem_vertices.1 hv with ⟨hpos, hle⟩
  obtain ⟨k, hk⟩ : ∃ k : Nat, v.toInt = k := ⟨v.toInt.toNat, by omega⟩
  obtain rfl : v = Int64.ofNat k := by
    rw [← Int64.toInt_inj, hk, Int64.toInt_ofNat_of_lt (by omega)]
  have hroot : 1 ≤ root k ∧ root k ≤ k ∧ root k % 2 = k % 2 ∧ root k ≤ 2 := by
    unfold root
    split <;> omega
  rw [expectedLabel_ofNat (by omega)]
  refine ⟨⟨ofNat_mem_vertices hroot.1 (by omega), connected_root k (by omega) (by omega)⟩, ?_⟩
  -- a connected vertex has the same parity, and there is none below one
  rintro u ⟨hu, hconnected⟩
  have hparity := parity_of_connected hconnected
  have hfirst := (mem_vertices.1 hu).1
  rw [Int64.le_iff_toInt_le, Int64.toInt_ofNat_of_lt (by omega)]
  omega

end Components

end Draws

/-! ## Runs -/

/-- Whatever is drawn, a run over the generated edges that may take as many rounds as there are vertices converges, and
its labels pass the check. -/
theorem connectedComponents_edgesOf {σ : Type} (draws : Draws σ) (count : Nat) (n : Int64) (state : σ)
    {config : Config} (hworkers : 1 ≤ config.parallelism) (hlimit : config.fanoutLimit = none)
    (hbound : max n.toInt.toNat 1 ≤ config.maxRounds.toNat) (position : Position)
    (schedules : UInt32 → Nat → Schedule) :
    ∃ r, connectedComponents (vertices n) (edgesOf draws count n.toInt.toNat state) config position schedules = .ok r ∧
      r.termination = .converged ∧ r.solution.length = n.toInt.toNat ∧ check r.solution = .ok () := by
  have hedges : ∀ e ∈ edgesOf draws count n.toInt.toNat state, 1 ≤ e.arity := by
    intro e he
    rcases sameParity_of_mem_edgesOf he with ⟨_, _, _, _, _, _, _, rfl⟩
    exact Nat.le_succ 1
  have hvalid : config.validate = .ok () := validate_eq_ok hworkers (by omega) hlimit
  rcases solution_of_bound (nodup_vertices n) hedges hvalid hlimit (by rw [length_vertices]; omega) position schedules
    fun v hv => expectedLabel_isLeast hv with ⟨r, hr, hconverged, hperm⟩
  refine ⟨r, hr, hconverged, ?_, check_eq_ok_iff.2 ?_⟩
  · rw [hperm.length_eq, List.length_map, length_vertices]
  · intro x hx
    rcases List.mem_map.1 (hperm.mem_iff.1 hx) with ⟨v, _, rfl⟩
    exact checkRecord_expectedLabel v

/-- Five edges over three vertices, of which the chain is one and four are drawn by the generator. -/
theorem connectedComponents_edgesOf_seeded :
    ∃ r, connectedComponents (vertices 3) (edges 5 3 7) (.ofMaxRounds 3) .second (fun _ _ => .inOrder) = .ok r ∧
      r.termination = .converged ∧ r.solution.length = 3 ∧ check r.solution = .ok () :=
  connectedComponents_edgesOf Xoshiro.draws 5 3 (.ofSeed 7) (by decide) rfl (by decide) .second _

/-- A worker is needed: settings without one are refused, and no run is begun. -/
theorem not_connectedComponents_edgesOf_without_worker :
    ¬ ∀ (count : Nat) (n : Int64) (seed : UInt64) (config : Config) (position : Position)
        (schedules : UInt32 → Nat → Schedule), 0 ≤ n → config.fanoutLimit = none →
      max n.toInt.toNat 1 ≤ config.maxRounds.toNat →
        ∃ r, connectedComponents (vertices n) (edges count n seed) config position schedules = .ok r ∧
          r.termination = .converged ∧ r.solution.length = n.toInt.toNat ∧ check r.solution = .ok () := by
  intro h
  rcases h 0 4 1 { Config.ofMaxRounds 4 with parallelism := 0 } .first (fun _ _ => .inOrder) (by decide) rfl
    (by decide) with ⟨r, hr, _⟩
  have hrefused : connectedComponents (vertices 4) (edges 0 4 1) { Config.ofMaxRounds 4 with parallelism := 0 } .first
      (fun _ _ => .inOrder) = .error (.invalidConfig .noWorkers) := rfl
  rw [hrefused] at hr
  cases hr

end OddEven

end WorksetIteration
