import BehaviorScript.Corpus.Basic
import BehaviorScript.Json.Basic

/-!
# Reports as JSON

The JSON form of everything that a report holds. Fields come in a fixed
order; what is absent is `null`, except that a finding without a
suggestion has no such field.
-/

namespace BehaviorScript

def wordJson (w : UInt16) : Json := .nat w.toNat

def byteJson (b : UInt8) : Json := .nat b.toNat

/-- Hundredths as a fraction. -/
def hundredthsJson (n : Nat) : Json := .number (.double (Binary64.ofHundredths n))

def textsJson (texts : List String) : Json := .array (texts.map Json.text)

def DecodeStatus.toJson : DecodeStatus → Json
  | .complete => .object [("status", .text "complete")]
  | .truncated needed available => .object
      [("status", .text "partial"), ("reason", .text "truncated"),
        ("needed_bytes", .nat needed), ("available_bytes", .nat available)]

def Finding.toJson (f : Finding) : Json :=
  .object ([("rule_id", .text f.ruleId), ("index", .nat f.index),
    ("severity", .text f.severity.key), ("category", .text f.category.key),
    ("message", .text f.message)]
      ++ (f.suggestion?.map fun s => ("suggestion", Json.text s)).toList)

def Profile.toJson (p : Profile) : Json :=
  .object [
    ("identity", .object [("id", wordJson p.identity.id), ("owner", .text p.identity.owner),
      ("scope", .text p.identity.scope.key)]),
    ("structure", .object [("instruction_count", .nat p.shape.instructionCount),
      ("declared_instruction_count", .nat p.shape.declaredInstructionCount),
      ("arg_count", byteJson p.shape.argCount), ("local_count", byteJson p.shape.localCount),
      ("unknown_opcode_count", .nat p.shape.unknownOpcodeCount),
      ("has_branching", .bool p.shape.hasBranching),
      ("dead_instruction_count", .nat p.shape.deadInstructionCount),
      ("truncated", .bool p.shape.truncated)]),
    ("dynamics", .object [("has_loops", .bool p.dynamics.hasLoops),
      ("can_yield", .bool p.dynamics.canYield),
      ("observed_yield", .bool p.dynamics.observedYield),
      ("yield_sites", .array (p.dynamics.yieldSites.map Json.nat)),
      ("max_iterations", .option Json.nat p.dynamics.maxIterations)]),
    ("relationships", .object [("inbound_calls", .nat p.relationships.inboundCalls),
      ("outbound_calls", .nat p.relationships.outboundCalls),
      ("lifecycle_hook", .option (fun h => .text h.key) p.relationships.lifecycleHook),
      ("interaction", .option (fun i => .text i.key) p.relationships.interaction),
      ("is_interaction_guard", .bool p.relationships.isGuard),
      ("graph_status", .option (fun s => .text s.key) p.relationships.graphStatus)]),
    ("reachability", .text p.reachability.key),
    ("validation_errors", .nat p.validationErrors)]

def Classification.toJson (c : Classification) : Json :=
  .object [("id", wordJson c.id), ("role", .text c.role.key),
    ("confidence", hundredthsJson c.confidence), ("matched_rule", .text c.matchedRule),
    ("low_confidence", .bool c.lowConfidence), ("evidence", textsJson c.evidence),
    ("notes", textsJson c.notes)]

def Report.toJson (r : Report) : Json :=
  .object [("id", wordJson r.id), ("owner", .text r.owner), ("decode_status", r.status.toJson),
    ("findings", .array (r.findings.map Finding.toJson)), ("profile", r.profile.toJson),
    ("classification", r.classification.toJson)]

def Failure.toJson (f : Failure) : Json :=
  .object [("id", wordJson f.id), ("owner", .text f.owner), ("error", .text f.error)]

def Summary.toJson (s : Summary) : Json :=
  .object [("scripts", .nat s.scripts), ("decoded", .nat s.decoded),
    ("partial", .nat s.partlyDecoded), ("failed", .nat s.failed),
    ("findings", .object (s.findings.map fun entry => (entry.1.key, .nat entry.2))),
    ("roles", .object (s.roles.map fun entry => (entry.1.key, .nat entry.2))),
    ("entry_points", .nat s.entryPoints), ("utilities", .nat s.utilities),
    ("orphans", .nat s.orphans)]

end BehaviorScript
