import WorksetIteration.SolutionSet

/-!
# Solution sets changed in place

Deltas written to a set that is kept where it is.  A delta answers with its counts or with an error, and in both cases
the set stays as the writes made so far have left it.

Main definitions:

- `SolutionSet.upsert`: a delta written in place.
- `SolutionSet.upsertAll`: deltas one after the other, with those that fail among them.
- `SolutionSet.accepted`: the records of the deltas that did not fail.
-/

namespace WorksetIteration

namespace SolutionSet

/-- An operation on a solution set that may fail.  The set that it leaves behind is there in both cases. -/
abbrev Update (α : Type) := ExceptT Error (StateM SolutionSet) α

/-- A record written under a key and counted as new or as a replacement. -/
def writeCounted (summary : DeltaSummary) (entry : Key × Record) : Update DeltaSummary := do
  let s ← get
  set (s.write entry)
  pure (if s.entries.contains entry.1 then { summary with updated := summary.updated + 1 }
    else { summary with inserted := summary.inserted + 1 })

/-- Records written and counted in order. -/
def writeEach (summary : DeltaSummary) : List (Key × Record) → Update DeltaSummary
  | [] => pure summary
  | entry :: rest => do
      let summary ← writeCounted summary entry
      writeEach summary rest

/-- A delta written in place.  The keys of all its records are extracted before the first one is written. -/
def upsert (delta : List Record) : Update DeltaSummary := do
  let s ← get
  let entries ← MonadExcept.ofExcept (keyed s.key delta)
  writeEach ⟨0, 0⟩ entries

/-- Deltas written in place one after the other, whether or not those before have failed. -/
def upsertAll : List (List Record) → StateM SolutionSet (List (Except Error DeltaSummary))
  | [] => pure []
  | delta :: rest => do
      let reply ← (upsert delta).run
      let replies ← upsertAll rest
      pure (reply :: replies)

/-- The records of the deltas that did not fail, in the order in which they were written. -/
def accepted : List (List Record) → List (Except Error DeltaSummary) → List Record
  | delta :: rest, .ok _ :: replies => delta ++ accepted rest replies
  | _ :: rest, .error _ :: replies => accepted rest replies
  | _, _ => []

end SolutionSet

end WorksetIteration
