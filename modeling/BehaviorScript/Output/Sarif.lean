import BehaviorScript.Corpus.Basic
import BehaviorScript.Json.Basic
import BehaviorScript.Text.Hex

/-!
# SARIF

The findings of a corpus as a SARIF log: one run, with one result for
each finding, by script and in the order of the findings. Fields are in
alphabetical order.
-/

namespace BehaviorScript

/-- The name that the tool gives itself. -/
def toolName : String := "bhavscope"

def toolVersion : String := "0.1.0"

namespace Sarif

structure Result where
  /-- Owner, script and instruction. -/
  location : String
  text : String
  ruleId : String
deriving DecidableEq, Repr

/-- The name of an instruction of a script. -/
def locationName (owner : String) (id : UInt16) (index : Nat) : String :=
  s!"{owner}::{Hex.word id}[{index}]"

def result (r : Report) (f : Finding) : Result where
  location := locationName r.owner r.id f.index
  text := match f.suggestion? with
    | some suggestion => s!"{f.message} ({suggestion})"
    | none => f.message
  ruleId := f.ruleId

def results (reports : List Report) : List Result :=
  reports.flatMap fun r => r.findings.map (result r)

def Result.toJson (r : Result) : Json :=
  let logical := Json.object [("kind", .text "instruction"), ("name", .text r.location)]
  .object
    [ ("locations", .array [.object [("logicalLocations", .array [logical])]]),
      ("message", .object [("text", .text r.text)]),
      ("ruleId", .text r.ruleId) ]

def invocation (arguments : List String) : Json :=
  .object
    [ ("arguments", .array (arguments.map Json.text)),
      ("commandLine", .text (" ".intercalate arguments)),
      ("executionSuccessful", .bool true) ]

/-- The log of a run with these arguments, the program's name first. -/
def log (arguments : List String) (reports : List Report) : Json :=
  let driver := Json.object [("name", .text toolName), ("version", .text toolVersion)]
  .object
    [ ("$schema",
        .text "https://schemastore.azurewebsites.net/schemas/json/sarif-2.1.0.json"),
      ("runs", .array [.object
        [ ("invocations", .array [invocation arguments]),
          ("results", .array ((results reports).map Result.toJson)),
          ("tool", .object [("driver", driver)]) ]]),
      ("version", .text "2.1.0") ]

end Sarif

end BehaviorScript
