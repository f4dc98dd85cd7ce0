import WorksetIteration.Iteration.Commands
import WorksetIteration.Proofs.Interruption

/-!
# How runs end

Whatever an iteration is asked to do, each of its runs leaves a state that says how the run has ended, and an outcome
that says the same.  A run fails because its seed records are refused, because its step fails, or because a round hands
over a delta with a record that has no key; it fails for nothing else.

Main results:

- `SolutionSet.isSeedError_of_seed`, `SolutionSet.firstMalformed_of_applyDelta`: why records are refused.
- `failed_cause`: why a round fails.
- `ending_of_called`: errors of the step come before cancelling, and cancelling comes before errors of the delta.
- `Run.Classified`: the state, the outcome and the calls of a run say the same.
- `Iteration.perform_classified`: they do so after every run among any commands.
-/

namespace WorksetIteration

/-! ## Refused records -/

namespace SolutionSet

theorem keyed_eq_error_iff {key : KeySpec} {rs : List Record} {e : Error} :
    keyed key rs = .error e ↔ key.FirstMalformed rs e := by
  induction rs with
  | nil => exact iff_of_false nofun (key.not_firstMalformed_nil e)
  | cons r rs ih =>
      rw [keyed]
      exact KeySpec.bind_extract_eq_error_iff fun k => bind_pure_eq_error_iff.trans ih

/-- A delta is refused for the first of its records without a key. -/
theorem firstMalformed_of_applyDelta {s : SolutionSet} {delta : List Record} {e : Error}
    (h : s.applyDelta delta = .error e) : s.key.FirstMalformed delta e := by
  cases hentries : keyed s.key delta with
  | ok entries =>
      rw [applyDelta, hentries] at h
      cases h
  | error e' =>
      rw [applyDelta, hentries] at h
      obtain rfl := Except.error.inj h
      exact keyed_eq_error_iff.1 hentries

theorem isSeedError_of_insertNew {s : SolutionSet} {rs : List Record} {e : Error} (h : s.insertNew rs = .error e) :
    e.isSeedError = true := by
  induction rs generalizing s with
  | nil => cases h
  | cons r rs ih =>
      cases hk : s.key.extract r with
      | error e' =>
          rw [insertNew, hk] at h
          obtain rfl := Except.error.inj h
          rcases KeySpec.extract_eq_error hk with ⟨i, _, _, rfl⟩
          rfl
      | ok k =>
          rw [insertNew, hk] at h
          change (if s.entries.contains k then _ else _) = _ at h
          split at h
          · obtain rfl := Except.error.inj h
            rfl
          · exact ih h

/-- Seed records are refused for a key that occurs twice or is missing. -/
theorem isSeedError_of_seed {rs : List Record} {key : KeySpec} {e : Error} (h : seed rs key = .error e) :
    e.isSeedError = true :=
  isSeedError_of_insertNew h

end SolutionSet

/-! ## The last call -/

section LastCall

variable {env : Surroundings} {step : Step}

/-- A run fails in the round of its last call, and because of what this call has answered: an error, or without
cancelling a delta with a record that has no key. -/
theorem failed_cause {left : Nat} {s : SolutionSet} {w : Workset} {cancelled : Bool} {round : UInt32} {e : Error}
    (h : (runRounds env step left s w cancelled).ending = .failed round e) :
    ∃ inv, (runRounds env step left s w cancelled).invocations.getLast? = some inv ∧ inv.context.round = round ∧
      (inv.reply.outcome = .error e ∨
        ∃ out, inv.reply = ⟨.ok out, false⟩ ∧ s.key.FirstMalformed out.delta e) := by
  fun_induction runRounds env step left s w cancelled with
  | case1 | case2 | case3 | case5 => cases h
  | case4 s w cancelled hwork left hflag context reply e' hout =>
      cases h
      exact ⟨⟨context, reply⟩, rfl, rfl, Or.inl hout⟩
  | case6 s w cancelled hwork left hflag context reply out hout hcancels e' hdelta =>
      cases h
      have hreply : reply = ⟨.ok out, false⟩ := by
        rw [← hout, ← Bool.eq_false_iff.2 hcancels]
      exact ⟨⟨context, reply⟩, rfl, rfl, Or.inr ⟨out, hreply, SolutionSet.firstMalformed_of_applyDelta hdelta⟩⟩
  | case7 s w cancelled hwork left hflag context reply out hout hcancels s₁ summary hdelta stats rest ih =>
      rcases ih h with ⟨inv, hlast, hround, hcause⟩
      rw [SolutionSet.key_applyDelta hdelta] at hcause
      refine ⟨inv, ?_, hround, hcause⟩
      rw [List.getLast?_cons, hlast]
      rfl

/-- How a run has ended if a call has ended it: with the error that the call was answered by, or without one when it has
cancelled. -/
def Invocation.ending? (inv : Invocation) : Option Ending :=
  match inv.reply.outcome, inv.reply.cancels with
  | .error e, _ => some (.failed inv.context.round e)
  | .ok _, true => some (.stopped .cancelled inv.context.solution inv.context.workset)
  | .ok _, false => none

theorem Invocation.ending?_of_error {inv : Invocation} {e : Error} (he : inv.reply.outcome = .error e) :
    inv.ending? = some (.failed inv.context.round e) := by
  rw [ending?, he]

theorem Invocation.ending?_of_cancelling {inv : Invocation} {out : StepOutput} (hreply : inv.reply = ⟨.ok out, true⟩) :
    inv.ending? = some (.stopped .cancelled inv.context.solution inv.context.workset) := by
  rw [ending?, hreply]

/-- No call ends a run at its bound. -/
theorem Invocation.ending?_ne_bound (inv : Invocation) (s : SolutionSet) (w : Workset) :
    inv.ending? ≠ some (.stopped .maxRoundsReached s w) := by
  rw [ending?]
  split <;> simp

/-- An error ends the run whether or not the call has cancelled, and cancelling ends it whatever the delta is. -/
theorem ending_of_called {left : Nat} {s : SolutionSet} {w : Workset} {cancelled : Bool} {inv : Invocation}
    {ending : Ending} (h : inv ∈ (runRounds env step left s w cancelled).invocations)
    (hends : inv.ending? = some ending) : (runRounds env step left s w cancelled).ending = ending := by
  fun_induction runRounds env step left s w cancelled with
  | case1 | case2 | case3 => cases h
  | case4 s w cancelled hwork left hflag context reply e hout =>
      obtain rfl := List.mem_singleton.1 h
      rw [Invocation.ending?, hout] at hends
      exact Option.some.inj hends
  | case5 s w cancelled hwork left hflag context reply out hout hcancels =>
      obtain rfl := List.mem_singleton.1 h
      rw [Invocation.ending?, hout, hcancels] at hends
      exact Option.some.inj hends
  | case6 s w cancelled hwork left hflag context reply out hout hcancels e hdelta =>
      obtain rfl := List.mem_singleton.1 h
      simp [Invocation.ending?, hout, hcancels] at hends
  | case7 s w cancelled hwork left hflag context reply out hout hcancels s₁ summary hdelta stats rest ih =>
      rcases List.mem_cons.1 h with rfl | h
      · simp [Invocation.ending?, hout, hcancels] at hends
      · exact ih h

/-- The flag does not change how a call ends the run. -/
theorem Rounds.CutShort.ending_of_called {rounds : Rounds} {left : Nat} {s : SolutionSet} {w : Workset}
    {cancelled : Bool} {inv : Invocation} {ending : Ending}
    (hcut : rounds.CutShort (runRounds env step left s w cancelled)) (h : inv ∈ rounds.invocations)
    (hends : inv.ending? = some ending) : rounds.ending = ending := by
  rw [hcut.invocations_eq] at h
  refine hcut.ended (WorksetIteration.ending_of_called h hends) ?_
  rintro s' w' rfl
  exact absurd hends (inv.ending?_ne_bound s' w')

end LastCall

/-! ## Runs -/

/-- What a run says about its end: by the state that it leaves, by its outcome and by its calls. -/
structure Run.Classified (run : Run) (config : Config) : Prop where
  /-- The run is over. -/
  terminal : run.after.state.isTerminal = true
  /-- The state counts the rounds of a result and gives its reason to stop. -/
  result_iff : ∀ t rounds, run.after.state = .ofTermination t rounds ↔
    ∃ r, run.outcome = .ok r ∧ r.termination = t ∧ r.rounds = rounds
  /-- The state tells that seed records were refused just if the error does, which no round has wrapped. -/
  seedingFailed_iff : run.after.state = .seedingFailed ↔ ∃ e, run.outcome = .error e ∧ e.isSeedError = true
  /-- In this case no step was called. -/
  seedingFailed_calls : run.after.state = .seedingFailed → run.invocations = []
  /-- The state and the error tell in which round the run has failed. -/
  failed_iff : ∀ round, run.after.state = .failed round ↔ ∃ e, run.outcome = .error (.stepFailed round e)
  /-- The round that has failed was allowed and is the one of the last call.  The error has the one that the step has
  answered there, or the one that reports the first record of its delta without a key. -/
  failed_cause : ∀ round e, run.outcome = .error (.stepFailed round e) → round < config.maxRounds ∧
    ∃ inv, run.invocations.getLast? = some inv ∧ inv.context.round = round ∧
      (inv.reply.outcome = .error e ∨ ∃ out, inv.reply = ⟨.ok out, false⟩ ∧ config.key.FirstMalformed out.delta e)
  /-- There is no other error. -/
  error_cases : ∀ e, run.outcome = .error e → e.isSeedError = true ∨ ∃ round source, e = .stepFailed round source
  /-- An error of the step is reported, whether or not the step has cancelled. -/
  step_error : ∀ inv ∈ run.invocations, ∀ e, inv.reply.outcome = .error e →
    run.outcome = .error (.stepFailed inv.context.round e)
  /-- A round that was answered and cancelled is no failure, whatever its delta is. -/
  cancelling : ∀ inv ∈ run.invocations, ∀ out, inv.reply = ⟨.ok out, true⟩ →
    ∃ r, run.outcome = .ok r ∧ r.termination = .cancelled ∧ r.rounds = inv.context.round

theorem RunState.ofTermination_inj {t t' : Termination} {n n' : UInt32} :
    RunState.ofTermination t n = RunState.ofTermination t' n' ↔ t = t' ∧ n = n' := by
  cases t <;> cases t' <;> simp [RunState.ofTermination]

theorem RunState.ofTermination_ne_seedingFailed (t : Termination) (n : UInt32) :
    RunState.ofTermination t n ≠ .seedingFailed := by
  cases t <;> simp [RunState.ofTermination]

theorem RunState.ofTermination_ne_failed (t : Termination) (n round : UInt32) :
    RunState.ofTermination t n ≠ .failed round := by
  cases t <;> simp [RunState.ofTermination]

namespace Run.Classified

variable {config : Config} {after : Iteration} {invs : List Invocation}

/-- A run whose seed records are refused. -/
theorem of_seed_error {e : Error} (he : e.isSeedError = true) (hstate : after.state = .seedingFailed) :
    Run.Classified ⟨.error e, [], after⟩ config := by
  have hunwrapped : ∀ round source, e ≠ .stepFailed round source := by
    rintro round source rfl
    cases he
  constructor
  case terminal => simp [hstate, RunState.isTerminal]
  case result_iff =>
    intro t rounds
    simp [hstate, (RunState.ofTermination_ne_seedingFailed t rounds).symm]
  case seedingFailed_iff => simp [hstate, he]
  case seedingFailed_calls => exact fun _ => rfl
  case failed_iff => simp [hstate, hunwrapped]
  case failed_cause =>
    intro round source h
    exact absurd (Except.error.inj h) (hunwrapped round source)
  case error_cases =>
    intro e' h
    obtain rfl := Except.error.inj h
    exact Or.inl he
  case step_error => simp
  case cancelling => simp

/-- A run that has a result. -/
theorem of_result {r : RunResult} (hstate : after.state = .ofTermination r.termination r.rounds)
    (hanswered : ∀ inv ∈ invs, ∀ e, inv.reply.outcome ≠ .error e)
    (hcancelling : ∀ inv ∈ invs, ∀ out, inv.reply = ⟨.ok out, true⟩ →
      r.termination = .cancelled ∧ r.rounds = inv.context.round) : Run.Classified ⟨.ok r, invs, after⟩ config := by
  constructor
  case terminal => cases ht : r.termination <;> simp [hstate, ht, RunState.ofTermination, RunState.isTerminal]
  case result_iff =>
    intro t rounds
    simp [hstate, RunState.ofTermination_inj]
  case seedingFailed_iff => simp [hstate, RunState.ofTermination_ne_seedingFailed]
  case seedingFailed_calls =>
    intro h
    exact absurd (hstate.symm.trans h) (RunState.ofTermination_ne_seedingFailed _ _)
  case failed_iff => simp [hstate, RunState.ofTermination_ne_failed]
  case failed_cause => simp
  case error_cases => simp
  case step_error =>
    intro inv hinv e he
    exact absurd he (hanswered inv hinv e)
  case cancelling =>
    intro inv hinv out hreply
    exact ⟨r, rfl, hcancelling inv hinv out hreply⟩

/-- A run with a round that has failed. -/
theorem of_failed {round : UInt32} {e : Error} (hstate : after.state = .failed round)
    (hbound : round < config.maxRounds)
    (hcause : ∃ inv, invs.getLast? = some inv ∧ inv.context.round = round ∧
      (inv.reply.outcome = .error e ∨ ∃ out, inv.reply = ⟨.ok out, false⟩ ∧ config.key.FirstMalformed out.delta e))
    (herror : ∀ inv ∈ invs, ∀ e', inv.reply.outcome = .error e' → inv.context.round = round ∧ e' = e)
    (hcancelling : ∀ inv ∈ invs, ∀ out, inv.reply ≠ ⟨.ok out, true⟩) :
    Run.Classified ⟨.error (.stepFailed round e), invs, after⟩ config := by
  constructor
  case terminal => simp [hstate, RunState.isTerminal]
  case result_iff =>
    intro t rounds
    simp [hstate, (RunState.ofTermination_ne_failed t rounds round).symm]
  case seedingFailed_iff => simp [hstate, Error.isSeedError]
  case seedingFailed_calls => simp [hstate]
  case failed_iff => simp [hstate]
  case failed_cause =>
    intro round' e' h
    obtain ⟨rfl, rfl⟩ := Error.stepFailed.inj (Except.error.inj h)
    exact ⟨hbound, hcause⟩
  case error_cases =>
    intro e' h
    exact Or.inr ⟨round, e, (Except.error.inj h).symm⟩
  case step_error =>
    intro inv hinv e' he'
    rcases herror inv hinv e' he' with ⟨hround, rfl⟩
    rw [hround]
  case cancelling =>
    intro inv hinv out hreply
    exact absurd hreply (hcancelling inv hinv out)

end Run.Classified

namespace Iteration

/-- A run says the same about its end by its state, its outcome and its calls, if its rounds are those that some bound
allows, cut short or not. -/
theorem classified_runWith (it : Iteration) {env : Surroundings} {step : Step} {rounds : SolutionSet → Rounds}
    {workset : List Record} (solution : List Record)
    (hcut : ∀ s, ∃ n ≤ it.config.maxRounds.toNat,
      (rounds s).CutShort (runRounds env step n s (.seed workset) it.cancelled)) :
    (it.runWith rounds solution).Classified it.config := by
  rcases it.runWith_cases rounds solution with
    ⟨e, hseed, hrun⟩ | ⟨s, hseed, ⟨t, s', w', hending, hrun⟩ | ⟨round, e, hending, hrun⟩⟩
  · rw [hrun]
    exact .of_seed_error (SolutionSet.isSeedError_of_seed hseed) rfl
  · rcases hcut s with ⟨n, _, hcut⟩
    rw [hrun]
    refine .of_result rfl ?_ ?_
    · intro inv hinv e he
      cases hending.symm.trans (hcut.ending_of_called hinv (inv.ending?_of_error he))
    · intro inv hinv out hreply
      have hstopped := hcut.ending_of_called hinv (inv.ending?_of_cancelling hreply)
      obtain ⟨rfl, _, rfl⟩ := Ending.stopped.inj (hending.symm.trans hstopped)
      exact ⟨rfl, rfl⟩
  · rcases hcut s with ⟨n, hn, hcut⟩
    rcases failed_cause (hcut.failed hending) with ⟨inv, hlast, hround, hcause⟩
    have hallowed : round < it.config.maxRounds := by
      rw [← hround]
      exact round_lt_of_mem_invocations hn (List.mem_of_getLast? hlast)
    rw [(SolutionSet.stores_of_seed hseed).1] at hcause
    rw [← hcut.invocations_eq] at hlast
    rw [hrun]
    refine .of_failed rfl hallowed ⟨inv, hlast, hround, hcause⟩ ?_ ?_
    · intro inv hinv e' he'
      have hfailed := hcut.ending_of_called hinv (inv.ending?_of_error he')
      obtain ⟨hround, hsame⟩ := Ending.failed.inj (hending.symm.trans hfailed)
      exact ⟨hround.symm, hsame.symm⟩
    · intro inv hinv out hreply
      cases hending.symm.trans (hcut.ending_of_called hinv (inv.ending?_of_cancelling hreply))

theorem classified_runInterrupted (it : Iteration) (interruption : Option Nat) (step : Step)
    (schedules : UInt32 → Nat → Schedule) (solution workset : List Record) :
    (it.runInterrupted interruption step schedules solution workset).Classified it.config := by
  apply it.classified_runWith solution
  intro s
  rcases cutShort_of_interruption (it.surroundings schedules) step interruption it.config.maxRounds.toNat s
    (.seed workset) it.cancelled with ⟨n, hn, _, hcut⟩
  exact ⟨n, hn, hcut⟩

/-- A run leaves the settings as they are. -/
theorem config_after (it : Iteration) (interruption : Option Nat) (step : Step) (schedules : UInt32 → Nat → Schedule)
    (solution workset : List Record) :
    (it.runInterrupted interruption step schedules solution workset).after.config = it.config := by
  rw [runInterrupted]
  rcases it.runWith_cases _ solution with ⟨_, _, hrun⟩ | ⟨_, _, ⟨_, _, _, _, hrun⟩ | ⟨_, _, _, hrun⟩⟩ <;> rw [hrun]

/-! ## Commands -/

/-- The state that the last of some runs has left, if there is one. -/
def stateAfter (state : RunState) (runs : List Run) : RunState :=
  (runs.getLast?.map fun run => run.after.state).getD state

theorem stateAfter_cons (state : RunState) (run : Run) (runs : List Run) :
    stateAfter state (run :: runs) = stateAfter run.after.state runs := by
  rw [stateAfter, stateAfter, List.getLast?_cons]
  cases runs.getLast? <;> rfl

/-- Every run among any commands says the same about its end by its state, its outcome and its calls, and what the last
run says by its state is not changed by setting or clearing the flag. -/
theorem perform_classified (it : Iteration) (commands : List Command) :
    (∀ run ∈ (it.perform commands).1, run.Classified it.config) ∧
      (it.perform commands).2.state = stateAfter it.state (it.perform commands).1 := by
  induction commands generalizing it with
  | nil => exact ⟨by simp [perform], rfl⟩
  | cons command rest ih =>
      have hrun : ∀ interruption step schedules solution workset,
          let run := it.runInterrupted interruption step schedules solution workset
          (∀ r ∈ run :: (run.after.perform rest).1, r.Classified it.config) ∧
            (run.after.perform rest).2.state = stateAfter it.state (run :: (run.after.perform rest).1) := by
        intro interruption step schedules solution workset run
        rcases ih run.after with ⟨hclassified, hstate⟩
        rw [it.config_after interruption step schedules solution workset] at hclassified
        rw [stateAfter_cons]
        exact ⟨List.forall_mem_cons.2
          ⟨it.classified_runInterrupted interruption step schedules solution workset, hclassified⟩, hstate⟩
      cases command with
      | run interruption step schedules solution workset => exact hrun interruption step schedules solution workset
      | runUnified interruption step schedules seed => exact hrun interruption step schedules seed seed
      | cancel => exact ih it.cancel
      | reset => exact ih it.reset

end Iteration

end WorksetIteration
