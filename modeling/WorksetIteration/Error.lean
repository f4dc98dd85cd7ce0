import WorksetIteration.Key

/-!
# Errors

What can go wrong, each cause with what it concerns.  The wording stands in one place.

Main definitions:

- `ConfigFault`, `OperationFault`: the causes of a refused configuration and of a refused operation.
- `Error`: every cause of failure.
- `Error.kind`, `Error.message`: the name of its kind, and its wording.
-/

namespace WorksetIteration

/-- One of the two operands of a join. -/
inductive Side where
  | left
  | right
deriving DecidableEq, Repr

/-- The name of a side in messages. -/
def Side.name : Side → String
  | .left => "left"
  | .right => "right"

/-- Why a configuration is refused. -/
inductive ConfigFault where
  /-- A key of no field. -/
  | emptyKey
  /-- A bound of no round. -/
  | noRounds
  /-- No worker. -/
  | noWorkers
  /-- A join limit of no pair. -/
  | zeroFanoutLimit
  /-- A second side input of one name. -/
  | sideInputTwice (name : String)
  /-- A reason in the caller's words. -/
  | other (reason : String)
deriving DecidableEq, Repr

/-- The wording of a configuration fault. -/
def ConfigFault.text : ConfigFault → String
  | .emptyKey => "a key needs at least one field"
  | .noRounds => "max_rounds must be at least 1"
  | .noWorkers => "parallelism must be at least 1"
  | .zeroFanoutLimit => "join_fanout_limit must be positive"
  | .sideInputTwice name => "side input '" ++ name ++ "' registered twice"
  | .other reason => reason

/-- Why an operation is refused. -/
inductive OperationFault where
  /-- A join whose declared key is not the one its indexed operand is stored by. -/
  | joinKeyMismatch (side : Side) (declared stored : KeySpec)
  /-- An aggregate over a field that a record does not have. -/
  | aggregateFieldMissing (field : UInt64) (arity : Nat)
  /-- A side input that was never registered. -/
  | unknownSideInput (name : String)
  /-- A reason in the caller's words. -/
  | other (reason : String)
deriving DecidableEq, Repr

/-- The wording of an operation fault. -/
def OperationFault.text : OperationFault → String
  | .joinKeyMismatch side declared stored =>
      side.name ++ " join key " ++ declared.text ++ " does not match the key " ++ stored.text ++
        " its input is indexed by"
  | .aggregateFieldMissing field arity =>
      "aggregate field " ++ toString field ++ " missing from record of arity " ++ toString arity
  | .unknownSideInput name => "unknown side input '" ++ name ++ "'"
  | .other reason => reason

/-- Every cause of failure. -/
inductive Error where
  /-- Two seed records of a solution set have one key. -/
  | duplicateKey (key : Key)
  /-- A record lacks a key field. -/
  | missingKeyField (field : UInt64) (arity : Nat)
  /-- A step function refused in its own words. -/
  | stepFunction (reason : String)
  /-- A round of an iteration failed. -/
  | stepFailed (round : UInt32) (source : Error)
  /-- A join matched more pairs than its limit allows. -/
  | fanoutExceeded (limit : UInt64) (key : Key)
  /-- A value of the wrong type where a number is needed. -/
  | notNumeric (field : UInt64) (got : Option DataType)
  /-- A sum left the range of its type. -/
  | numericOverflow (field : UInt64)
  /-- A configuration was refused. -/
  | invalidConfig (fault : ConfigFault)
  /-- An operation was refused. -/
  | invalidOperation (fault : OperationFault)
deriving DecidableEq, Repr

namespace Error

/-- The printed form of the type found, if a value was found at all. -/
def foundText : Option DataType → String
  | none => "None"
  | some t => "Some(" ++ t.name ++ ")"

/-- The wording of an error. -/
def message : Error → String
  | .duplicateKey key => "Duplicate key in solution set seed: " ++ key.text
  | .missingKeyField field arity =>
      "Key field " ++ toString field ++ " missing from record of arity " ++ toString arity
  | .stepFunction reason => "Step function error: " ++ reason
  | .stepFailed round source => "Iteration aborted in round " ++ toString round ++ ": " ++ source.message
  | .fanoutExceeded limit key =>
      "Join exceeded fan-out limit of " ++ toString limit ++ " pairs while probing key " ++ key.text
  | .notNumeric field got =>
      "Type mismatch on field " ++ toString field ++ ": expected numeric, got " ++ foundText got
  | .numericOverflow field => "Numeric overflow aggregating field " ++ toString field
  | .invalidConfig fault => "Invalid configuration: " ++ fault.text
  | .invalidOperation fault => "Invalid operation: " ++ fault.text

/-- The name of the kind of an error. -/
def kind : Error → String
  | .duplicateKey _ => "DuplicateKey"
  | .missingKeyField _ _ => "MissingKeyField"
  | .stepFunction _ => "StepFunction"
  | .stepFailed _ _ => "StepFailed"
  | .fanoutExceeded _ _ => "JoinCardinalityExplosion"
  | .notNumeric _ _ => "TypeMismatch"
  | .numericOverflow _ => "NumericOverflow"
  | .invalidConfig _ => "InvalidConfig"
  | .invalidOperation _ => "InvalidOperation"

/-- Whether the error says that seed records were refused. -/
def isSeedError : Error → Bool
  | .duplicateKey _ | .missingKeyField _ _ => true
  | _ => false

/-- The error that a failed round reports as its reason. -/
def cause? : Error → Option Error
  | .stepFailed _ source => some source
  | _ => none

end Error

end WorksetIteration
