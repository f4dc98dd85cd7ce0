import WorksetIteration.Key.Extraction

/-!
# Configurations

The settings of an iteration: its name, the bound on its rounds, the key of its solution set, the number of workers and
the limit on the pairs of a join.  Every setting has a default.

Main definitions:

- `Config`: the settings.
- `Config.validate`: what a configuration must satisfy before it is run.
-/

namespace WorksetIteration

/-- The settings of an iteration. -/
structure Config where
  /-- A label. -/
  name : String := "delta-iteration"
  /-- The number of rounds at most. -/
  maxRounds : UInt32 := 100
  /-- The key of the solution set. -/
  key : KeySpec := .field 0
  /-- The number of workers of a join or an aggregate. -/
  parallelism : UInt64 := 1
  /-- The number of pairs that one join may combine, if it is bounded. -/
  fanoutLimit : Option UInt64 := none
deriving DecidableEq, Repr

namespace Config

/-- The settings by default, with the given bound on the rounds. -/
def ofMaxRounds (maxRounds : UInt32) : Config :=
  { maxRounds := maxRounds }

/-- Refuses a configuration with no round, with no worker or with a limit of no pair, in this order. -/
def validate (c : Config) : Except Error Unit :=
  if c.maxRounds = 0 then .error (.invalidConfig .noRounds)
  else if c.parallelism = 0 then .error (.invalidConfig .noWorkers)
  else if c.fanoutLimit = some 0 then .error (.invalidConfig .zeroFanoutLimit)
  else .ok ()

end Config

end WorksetIteration
