import BehaviorScript.Evidence.Basic
import BehaviorScript.Json.Basic

/-!
# Reading evidence

The JSON form of an evidence record: an object whose fields are all
optional, other fields being ignored. The fields may also be listed
without their names, in their order; a list may end early.
-/

namespace BehaviorScript

namespace Evidence

/-- The field names in their order. -/
def fieldNames : List String :=
  ["lifecycle_hook", "interaction", "inbound_calls", "observed_yield", "max_iterations"]

/-- The name of a case: a text, or the one key of an object without
content. -/
def caseName? : Json → Option String
  | .text name => some name
  | .object [(name, .null)] => some name
  | _ => none

/-- An absent field or `null` is no value; any other value must be read. -/
def optional? {α : Type} (read : Json → Option α) : Option Json → Option (Option α)
  | none => some none
  | some .null => some none
  | some j => (read j).map some

def hook? (j : Json) : Option LifecycleHook := (caseName? j).bind LifecycleHook.ofKey?

def interaction? (j : Json) : Option Interaction := (caseName? j).bind Interaction.ofKey?

/-- A count of 32 bits. -/
def count? (j : Json) : Option Nat := j.natUpTo? (UInt32.size - 1)

def flag? : Option Json → Option Bool
  | none => some false
  | some (.bool b) => some b
  | some _ => none

/-- Reads the fields that `field` finds. -/
def read? (field : String → Option Json) : Option Evidence := do
  let lifecycleHook ← optional? hook? (field "lifecycle_hook")
  let interaction ← optional? interaction? (field "interaction")
  let inboundCalls ← optional? count? (field "inbound_calls")
  let observedYield ← flag? (field "observed_yield")
  let maxIterations ← optional? count? (field "max_iterations")
  some ⟨lifecycleHook, interaction, inboundCalls, observedYield, maxIterations⟩

def ofJson? : Json → Option Evidence
  | .object fields => read? fun name => fields.lookup name
  | .array items =>
    if items.length ≤ fieldNames.length then read? fun name => (fieldNames.zip items).lookup name
    else none
  | _ => none

end Evidence

end BehaviorScript
