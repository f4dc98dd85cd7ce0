import WorksetIteration.Join

/-!
# Side inputs

Records that all rounds read and none changes, such as the edges of a graph.  A side input is indexed once and has a
name of its own in its registry.

Main definitions:

- `SideInput.build`: the side input of a list of records.
- `SideInputs`: a registry of side inputs with different names.
-/

namespace WorksetIteration

/-- A named index. -/
structure SideInput where
  /-- The name it is registered by. -/
  name : String
  /-- The records by key. -/
  index : Index

namespace SideInput

/-- The side input of a list of records; the first record without a key is reported. -/
def build (name : String) (records : List Record) (key : KeySpec) : Except Error SideInput := do
  let index ← Index.build records key
  pure ⟨name, index⟩

/-- The side input as an operand of a join. -/
def toOperand (input : SideInput) : Operand :=
  .keyed input.index.toKeyed

end SideInput

/-- Side inputs with different names. -/
structure SideInputs where
  /-- The side inputs in the order in which they were registered. -/
  toList : List SideInput := []

namespace SideInputs

/-- The side input of a name. -/
def get? (inputs : SideInputs) (name : String) : Option SideInput :=
  inputs.toList.find? fun input => input.name = name

/-- The registry with one more side input; a name is registered once. -/
def insert (inputs : SideInputs) (input : SideInput) : Except Error SideInputs :=
  match inputs.get? input.name with
  | some _ => .error (.invalidConfig (.sideInputTwice input.name))
  | none => .ok ⟨inputs.toList ++ [input]⟩

/-- The number of side inputs. -/
def size (inputs : SideInputs) : Nat :=
  inputs.toList.length

/-- Whether there is no side input. -/
def isEmpty (inputs : SideInputs) : Bool :=
  inputs.toList.isEmpty

/-- The names in the order in which they were registered. -/
def names (inputs : SideInputs) : List String :=
  inputs.toList.map SideInput.name

end SideInputs

end WorksetIteration
