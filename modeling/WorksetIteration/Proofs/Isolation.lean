import WorksetIteration.Proofs.History
import WorksetIteration.Proofs.Interruption

/-!
# Rounds in isolation

What the calls of a step see of each other.  A call reads the workset that the call before it has returned, and a
solution set in which the deltas of all calls before it are written and nothing else; what it returns itself is not
seen before the next round, and never if the round fails or is cancelled.  A step that has a memory is a function of its
context as well, since no two contexts of a run have the same round.

Main results:

- `Calls`: calls of a step, each in the state that the calls before it have led to.
- `calls_runRounds`: the calls of a run are such calls.
- `Calls.getElem_succ`, `Calls.stores_getElem`: what a call sees of the calls before it.
- `stores_of_stopped`: what is written when a run stops, and how many calls it has made.
- `Iteration.run_isolated`: the calls of every run, and the result that they lead to.
-/

namespace WorksetIteration

/-- The records that a call has handed over to be written. -/
def Invocation.delta (inv : Invocation) : List Record :=
  match inv.reply.outcome with
  | .ok out => out.delta
  | .error _ => []

/-! ## Calls of a step -/

/-- Calls of a step from a solution set and a workset on.  Behind a call that is answered without cancelling there may
be further ones, in the state that it leads to. -/
inductive Calls (env : Surroundings) (step : Step) : SolutionSet → Workset → List Invocation → Prop
  | none (s : SolutionSet) (w : Workset) : Calls env step s w []
  | last {s : SolutionSet} {w : Workset} (hwork : w.isEmpty = false) :
      Calls env step s w [⟨env.context s w, step (env.context s w)⟩]
  | round {s s' : SolutionSet} {w : Workset} {out : StepOutput} {summary : DeltaSummary} {invs : List Invocation}
      (hwork : w.isEmpty = false) (hout : step (env.context s w) = ⟨.ok out, false⟩)
      (hdelta : s.applyDelta out.delta = .ok (s', summary)) (hrest : Calls env step s' (w.replace out.next) invs) :
      Calls env step s w (⟨env.context s w, ⟨.ok out, false⟩⟩ :: invs)

namespace Calls

variable {env : Surroundings} {step : Step} {s : SolutionSet} {w : Workset} {invs : List Invocation}

/-- Every call is one of the step, in the surroundings of the run and with something to process. -/
theorem called (h : Calls env step s w invs) :
    ∀ inv ∈ invs, inv.context = env.context inv.context.solution inv.context.workset ∧ inv.reply = step inv.context ∧
      inv.context.workset.isEmpty = false := by
  induction h with
  | none s w => simp
  | last hwork =>
      intro inv hinv
      rw [List.mem_singleton.1 hinv]
      exact ⟨rfl, rfl, hwork⟩
  | round hwork hout hdelta hrest ih =>
      intro inv hinv
      rcases List.mem_cons.1 hinv with rfl | hinv
      · exact ⟨rfl, hout.symm, hwork⟩
      · exact ih inv hinv

/-- The first call reads the state that the calls start in. -/
theorem context_getElem_zero (h : Calls env step s w invs) (hpos : 0 < invs.length) :
    (invs[0]).context = env.context s w := by
  cases h with
  | none => exact absurd hpos (Nat.lt_irrefl 0)
  | last => rfl
  | round => rfl

/-- A call that is followed by another has been answered without cancelling.  What it has returned is written, and is
what the other one reads. -/
theorem getElem_succ (h : Calls env step s w invs) (i : Nat) (hi : i + 1 < invs.length) :
    ∃ out summary, (invs[i]).reply = ⟨.ok out, false⟩ ∧
      (invs[i]).context.solution.applyDelta out.delta = .ok ((invs[i + 1]).context.solution, summary) ∧
      (invs[i + 1]).context.workset = (invs[i]).context.workset.replace out.next := by
  induction h generalizing i with
  | none s w => exact absurd hi (Nat.not_lt_zero _)
  | last hwork => simp at hi
  | @round s s' w out summary invs hwork hout hdelta hrest ih =>
      cases i with
      | zero =>
          have hpos : 0 < invs.length := by simpa using hi
          have hnext : (invs[0]).context = env.context s' (w.replace out.next) := hrest.context_getElem_zero hpos
          refine ⟨out, summary, rfl, ?_, ?_⟩
          · rw [List.getElem_cons_succ, hnext]
            exact hdelta
          · rw [List.getElem_cons_succ, hnext]
            rfl
      | succ i => exact ih i (by simpa using hi)

/-- The calls are numbered one after the other. -/
theorem toNat_round_getElem (h : Calls env step s w invs) (hcount : w.round.toNat + invs.length ≤ 2 ^ 32) (i : Nat)
    (hi : i < invs.length) : (invs[i]).context.round.toNat = w.round.toNat + i := by
  induction i with
  | zero =>
      rw [h.context_getElem_zero hi]
      rfl
  | succ i ih =>
      rcases h.getElem_succ i hi with ⟨out, _, _, _, hworkset⟩
      have hround : (invs[i]).context.workset.round.toNat = w.round.toNat + i := ih (by omega)
      rw [StepContext.round, hworkset, toNat_round_replace (by omega), hround, Nat.add_assoc]

/-- A call sees the solution set with the deltas of the calls before it written in order, and nothing else. -/
theorem stores_getElem (h : Calls env step s w invs) {written : List Record} (hs : s.Stores written) (i : Nat)
    (hi : i < invs.length) :
    (invs[i]).context.solution.key = s.key ∧
      (invs[i]).context.solution.Stores (written ++ (invs.take i).flatMap Invocation.delta) := by
  induction h generalizing i written with
  | none s w => exact absurd hi (Nat.not_lt_zero i)
  | last hwork =>
      obtain rfl : i = 0 := by simpa using hi
      simpa using ⟨rfl, hs⟩
  | @round s s' w out summary invs hwork hout hdelta hrest ih =>
      cases i with
      | zero => simpa using ⟨rfl, hs⟩
      | succ i =>
          rcases ih (hs.applyDelta hdelta) i (by simpa using hi) with ⟨hkey, hstores⟩
          refine ⟨hkey.trans (SolutionSet.key_applyDelta hdelta), ?_⟩
          rw [List.take_succ_cons, List.flatMap_cons, ← List.append_assoc]
          exact hstores

end Calls

/-! ## Calls of a run -/

section Runs

variable {env : Surroundings} {step : Step}

theorem calls_runRounds (left : Nat) (s : SolutionSet) (w : Workset) (cancelled : Bool) :
    Calls env step s w (runRounds env step left s w cancelled).invocations := by
  fun_induction runRounds env step left s w cancelled with
  | case1 | case2 | case3 => exact .none _ _
  | case4 s w cancelled hwork left | case5 s w cancelled hwork left | case6 s w cancelled hwork left =>
      exact .last (Bool.eq_false_iff.2 hwork)
  | case7 s w cancelled hwork left hflag context reply out hout hcancels s' summary hdelta stats rest ih =>
      have hreply : step (env.context s w) = ⟨.ok out, false⟩ := by
        rw [← hout, ← Bool.eq_false_iff.2 hcancels]
      change Calls env step s w (⟨env.context s w, step (env.context s w)⟩ :: rest.invocations)
      rw [hreply]
      exact .round (Bool.eq_false_iff.2 hwork) hreply hdelta ih

/-- A step is called as often as rounds are allowed at most. -/
theorem length_invocations_le (left : Nat) (s : SolutionSet) (w : Workset) (cancelled : Bool) :
    (runRounds env step left s w cancelled).invocations.length ≤ left := by
  fun_induction runRounds env step left s w cancelled with
  | case1 | case2 | case3 => exact Nat.zero_le _
  | case4 | case5 | case6 => exact Nat.succ_le_succ (Nat.zero_le _)
  | case7 s w cancelled hwork left hflag context reply out hout hcancels s' summary hdelta stats rest ih =>
      exact Nat.succ_le_succ ih

/-- With the flag set no step is called. -/
theorem invocations_of_cancelled (left : Nat) (s : SolutionSet) (w : Workset) :
    (runRounds env step left s w true).invocations = [] := by
  unfold runRounds
  split
  · rfl
  · cases left <;> rfl

/-- Whether the last of some calls asked for the iteration to be cancelled. -/
def lastCancels (invs : List Invocation) : Bool :=
  invs.getLast?.any fun inv => inv.reply.cancels

theorem lastCancels_cons {inv : Invocation} (hinv : inv.reply.cancels = false) (invs : List Invocation) :
    lastCancels (inv :: invs) = lastCancels invs := by
  cases invs with
  | nil => exact hinv
  | cons next invs => rw [lastCancels, lastCancels, List.getLast?_cons_cons]

/-- When a run stops the deltas of its completed rounds are written.  There is one call more than completed rounds just
if the last call has cancelled. -/
theorem stores_of_stopped {left : Nat} {s s' : SolutionSet} {w w' : Workset} {cancelled : Bool} {t : Termination}
    (h : (runRounds env step left s w cancelled).ending = .stopped t s' w') :
    s'.key = s.key ∧
      (∀ written, s.Stores written →
        s'.Stores (written ++ ((runRounds env step left s w cancelled).invocations.take
          (runRounds env step left s w cancelled).stats.length).flatMap Invocation.delta)) ∧
      (runRounds env step left s w cancelled).invocations.length =
        (runRounds env step left s w cancelled).stats.length +
          if lastCancels (runRounds env step left s w cancelled).invocations then 1 else 0 := by
  fun_induction runRounds env step left s w cancelled with
  | case1 | case2 | case3 =>
      cases h
      simp [lastCancels]
  | case4 | case6 => cases h
  | case5 s w cancelled hwork left hflag context reply out hout hcancels =>
      cases h
      have hlast : lastCancels [⟨context, reply⟩] = true := hcancels
      simp [hlast]
  | case7 s w cancelled hwork left hflag context reply out hout hcancels s₁ summary hdelta stats rest ih =>
      have hinv : Invocation.delta ⟨context, reply⟩ = out.delta := by
        rw [Invocation.delta, hout]
      rcases ih h with ⟨hkey, hstores, hlength⟩
      refine ⟨hkey.trans (SolutionSet.key_applyDelta hdelta), ?_, ?_⟩
      · intro written hs
        rw [List.length_cons, List.take_succ_cons, List.flatMap_cons, hinv, ← List.append_assoc]
        exact hstores _ (hs.applyDelta hdelta)
      · rw [List.length_cons, List.length_cons, lastCancels_cons (Bool.eq_false_iff.2 hcancels)]
        exact (congrArg (· + 1) hlength).trans (Nat.add_right_comm _ _ _)

end Runs

/-! ## Runs -/

/-- The calls of a run do not see each other but by what they have returned: how they are made, what each of them sees
of those before it, and what they lead to. -/
structure Run.Isolated (run : Run) (it : Iteration) (interruption : Option Nat) (env : Surroundings) (step : Step)
    (solution workset : List Record) : Prop where
  /-- Every call is one of the step, in the surroundings of the iteration. -/
  called : ∀ inv ∈ run.invocations,
    inv.context = env.context inv.context.solution inv.context.workset ∧ inv.reply = step inv.context
  /-- The calls are numbered from zero, without gaps and without repetition. -/
  round_eq : ∀ i (hi : i < run.invocations.length), (run.invocations[i]).context.round.toNat = i
  /-- There are as many of them as rounds are allowed at most. -/
  length_le : run.invocations.length ≤ it.config.maxRounds.toNat
  /-- Every call has something to process. -/
  workset_nonempty : ∀ inv ∈ run.invocations, inv.context.workset.records ≠ []
  /-- With the flag set at the start no call is made. -/
  unflagged : it.cancelled = true → run.invocations = []
  /-- With the flag set by others after some rounds none is made any more. -/
  uninterrupted : ∀ n, interruption = some n → run.invocations.length ≤ n
  /-- The first call reads the seed records of the workset. -/
  first : ∀ hpos : 0 < run.invocations.length, (run.invocations[0]).context.workset.records = workset
  /-- Behind a call there is another one only if it was answered and has not set the flag, and the other reads the
  workset that it has returned. -/
  next : ∀ i (hi : i + 1 < run.invocations.length), ∃ out, (run.invocations[i]).reply = ⟨.ok out, false⟩ ∧
    (run.invocations[i + 1]).context.workset.records = out.next
  /-- A call reads the seed records of the solution set with the deltas of the calls before it written by key. -/
  solution_eq : ∀ i (hi : i < run.invocations.length),
    (run.invocations[i]).context.solution.Refines it.config.key
      (solution ++ (run.invocations.take i).flatMap Invocation.delta)
  /-- A result has the seed records with the deltas of its completed rounds written by key. -/
  result_solution : ∀ r, run.outcome = .ok r → ∃ s : SolutionSet, r.solution = s.records ∧
    s.Refines it.config.key (solution ++ (run.invocations.take r.rounds.toNat).flatMap Invocation.delta)
  /-- There are as many calls as completed rounds, and one more if the last call has set the flag. -/
  result_length : ∀ r, run.outcome = .ok r →
    run.invocations.length = r.rounds.toNat + if lastCancels run.invocations then 1 else 0

namespace Iteration

variable {it : Iteration} {interruption : Option Nat} {step : Step} {schedules : UInt32 → Nat → Schedule}
  {solution workset : List Record}

/-- A result has the deltas of its completed rounds written to the seed records, and there is one call more than
completed rounds just if the last call has cancelled. -/
theorem solution_of_outcome {r : RunResult}
    (hr : (it.runInterrupted interruption step schedules solution workset).outcome = .ok r) :
    (∃ s : SolutionSet, r.solution = s.records ∧ s.Refines it.config.key (solution ++
      ((it.runInterrupted interruption step schedules solution workset).invocations.take
        r.rounds.toNat).flatMap Invocation.delta)) ∧
    (it.runInterrupted interruption step schedules solution workset).invocations.length = r.rounds.toNat +
      if lastCancels (it.runInterrupted interruption step schedules solution workset).invocations then 1 else 0 := by
  rw [runInterrupted] at hr ⊢
  rcases stopped_of_outcome hr with ⟨s, t, s', w', hseed, hending, rfl⟩
  rcases cutShort_of_interruption (it.surroundings schedules) step interruption it.config.maxRounds.toNat s
    (.seed workset) it.cancelled with ⟨n, hn, _, hcut⟩
  rcases hcut.stopped hending with ⟨t', hbounded⟩
  rcases completes_of_stopped hbounded with ⟨k, hk, hcompletes, _⟩
  have hrounds : w'.round.toNat = 0 + k := hcompletes.toNat_round (toNat_round_seed_add (hk.trans hn) workset)
  rcases SolutionSet.stores_of_seed hseed with ⟨hkey, hs⟩
  rcases stores_of_stopped hbounded with ⟨hsame, hwritten, hlength⟩
  have hrefines := (hwritten _ hs).refines
  rw [invocations_runWith hseed, hcut.invocations_eq, hrounds, Nat.zero_add, ← hcompletes.length_stats]
  rw [hsame, hkey] at hrefines
  exact ⟨⟨s', rfl, hrefines⟩, hlength⟩

/-- What a run from a seeded solution set calls are calls of the step, whether or not it is interrupted. -/
theorem calls_runInterrupted {s : SolutionSet} (hseed : SolutionSet.seed solution it.config.key = .ok s) :
    Calls (it.surroundings schedules) step s (.seed workset)
      (it.runInterrupted interruption step schedules solution workset).invocations := by
  rcases cutShort_of_interruption (it.surroundings schedules) step interruption it.config.maxRounds.toNat s
    (.seed workset) it.cancelled with ⟨n, _, _, hcut⟩
  rw [runInterrupted, invocations_runWith hseed, hcut.invocations_eq]
  exact calls_runRounds _ _ _ _

/-- The calls of a run are isolated whether or not it is interrupted. -/
theorem isolated_runInterrupted (it : Iteration) (interruption : Option Nat) (step : Step)
    (schedules : UInt32 → Nat → Schedule) (solution workset : List Record) :
    (it.runInterrupted interruption step schedules solution workset).Isolated it interruption
      (it.surroundings schedules) step solution workset := by
  rcases it.runWith_cases (fun seeded => runRoundsInterrupted (it.surroundings schedules) step interruption
    it.config.maxRounds.toNat seeded (.seed workset) it.cancelled) solution with ⟨e, _, hrun⟩ | ⟨s, hseed, _⟩
  · rw [runInterrupted, hrun]
    constructor <;> simp
  · rcases cutShort_of_interruption (it.surroundings schedules) step interruption it.config.maxRounds.toNat s
      (.seed workset) it.cancelled with ⟨n, hn, hinterruption, hcut⟩
    rcases SolutionSet.stores_of_seed hseed with ⟨hkey, hs⟩
    have hinvs : (it.runInterrupted interruption step schedules solution workset).invocations =
        (runRounds (it.surroundings schedules) step n s (.seed workset) it.cancelled).invocations :=
      (invocations_runWith hseed _).trans hcut.invocations_eq
    have hcalls : Calls (it.surroundings schedules) step s (.seed workset)
        (it.runInterrupted interruption step schedules solution workset).invocations := calls_runInterrupted hseed
    have hlength : (it.runInterrupted interruption step schedules solution workset).invocations.length ≤ n := by
      rw [hinvs]
      exact length_invocations_le _ _ _ _
    constructor
    case called =>
      intro inv hinv
      rcases hcalls.called inv hinv with ⟨hcontext, hreply, _⟩
      exact ⟨hcontext, hreply⟩
    case round_eq =>
      intro i hi
      have hcount : (Workset.seed workset).round.toNat +
          (it.runInterrupted interruption step schedules solution workset).invocations.length ≤ 2 ^ 32 :=
        Nat.le_of_lt (toNat_round_seed_add (hlength.trans hn) workset)
      exact (hcalls.toNat_round_getElem hcount i hi).trans (Nat.zero_add i)
    case length_le => exact hlength.trans hn
    case workset_nonempty =>
      intro inv hinv
      exact List.isEmpty_eq_false_iff.1 (hcalls.called inv hinv).2.2
    case unflagged =>
      intro hflag
      rw [hinvs, hflag]
      exact invocations_of_cancelled _ _ _
    case uninterrupted => exact fun m hm => hlength.trans (hinterruption m hm)
    case first =>
      intro hpos
      rw [hcalls.context_getElem_zero hpos]
      rfl
    case next =>
      intro i hi
      rcases hcalls.getElem_succ i hi with ⟨out, _, hreply, _, hworkset⟩
      exact ⟨out, hreply, congrArg Workset.records hworkset⟩
    case solution_eq =>
      intro i hi
      rcases hcalls.stores_getElem hs i hi with ⟨hsame, hstores⟩
      have hrefines := hstores.refines
      rwa [hsame, hkey] at hrefines
    case result_solution => exact fun r hr => (solution_of_outcome hr).1
    case result_length => exact fun r hr => (solution_of_outcome hr).2

/-- In every run the calls of the step are isolated from each other, however the run ends and whoever cancels it. -/
theorem run_isolated (it : Iteration) (step : Step) (schedules : UInt32 → Nat → Schedule)
    (solution workset : List Record) :
    (it.run step schedules solution workset).Isolated it none (it.surroundings schedules) step solution workset ∧
    ∀ interruption, (it.runInterrupted interruption step schedules solution workset).Isolated it interruption
      (it.surroundings schedules) step solution workset :=
  ⟨it.isolated_runInterrupted none step schedules solution workset,
    fun interruption => it.isolated_runInterrupted interruption step schedules solution workset⟩

/-- A step that writes and hands on what it reads, and cancels in its second call. -/
example :
    let step : Step := fun ctx =>
      ⟨.ok (.unified (ctx.workset.records.map fun r => ⟨r.values ++ r.values⟩)), ctx.round = 1⟩
    let run := ({ config := .ofMaxRounds 5 } : Iteration).run step (fun _ _ => .inOrder) [] [⟨[.int64 7]⟩]
    run.invocations.map (fun inv => inv.context.workset.records) = [[⟨[.int64 7]⟩], [⟨[.int64 7, .int64 7]⟩]] ∧
      run.outcome.toOption.map RunResult.solution = some [⟨[.int64 7, .int64 7]⟩] :=
  ⟨rfl, rfl⟩

end Iteration

end WorksetIteration
