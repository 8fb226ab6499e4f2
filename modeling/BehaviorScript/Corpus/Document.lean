import BehaviorScript.Corpus.Basic
import BehaviorScript.Evidence.Reader
import BehaviorScript.Json.Reader
import BehaviorScript.Json.Schema
import BehaviorScript.Text.Hex

/-!
# Documents

Two kinds of JSON documents come from outside: a manifest lists scripts
with their code in hexadecimal, an evidence document lists evidence
records. A document is parsed, checked against its schema and then read
into values; each step has its own error, and the first one that fails
decides. A script whose code is no hexadecimal text is rejected alone.
-/

namespace BehaviorScript

inductive LoadError where
  /-- Not a JSON document. -/
  | malformed (source : String)
  | schemaViolation (source : String) (violations : List Violation)
  /-- A number of the manifest does not fit its field. -/
  | unreadableScripts (source : String)
  /-- A number of the evidence document does not fit its field. -/
  | unreadableEvidence (source : String)
  | unreadableFile (path : String)
  | missingArchive (path : String)
  | unsupportedFile (path : String)
  | duplicateScript (id : UInt16) (first second : String)
deriving DecidableEq, Repr

def LoadError.message : LoadError → String
  | .malformed source => s!"failed to parse {source}"
  | .schemaViolation source violations =>
    s!"{source} does not match the expected schema: "
      ++ "; ".intercalate (violations.map Violation.message)
  | .unreadableScripts source => s!"failed to read scripts from {source}"
  | .unreadableEvidence source => s!"failed to read evidence from {source}"
  | .unreadableFile path => s!"failed to read {path}"
  | .missingArchive path => s!"failed to open {path}"
  | .unsupportedFile path => s!"unsupported input file: {path}"
  | .duplicateScript id first second =>
    s!"duplicate script id {Hex.word id} (owners `{first}` and `{second}`)"

/-- The value of a document that matches a schema. -/
def checkedDocument (source : String) (schema : Schema) (bytes : ByteArray) :
    Except LoadError Json :=
  match Json.ofBytes? bytes with
  | none => .error (.malformed source)
  | some j =>
    match Schema.violations schema j with
    | [] => .ok j
    | violations => .error (.schemaViolation source violations)

/-- A schema for whole numbers in `0 .. limit`. -/
def wholeUpTo (limit : Nat) : Schema := [.maximum limit, .minimum 0, .type [.integer]]

/-- A schema for documents with a list of scripts. -/
def scriptsSchema (script : Schema) : Schema :=
  [.properties [("scripts", [.items script, .type [.array]])], .required ["scripts"],
    .type [.object]]

/-! ## Manifests -/

structure ManifestScript where
  id : UInt16
  owner : String
  argCount : UInt8
  localCount : UInt8
  instructionCount : Nat
  code : String
deriving DecidableEq, Repr

namespace Manifest

def schema : Schema :=
  scriptsSchema
    [ .properties
        [ ("arg_count", wholeUpTo 255),
          ("code", [.type [.string]]),
          ("id", wholeUpTo 65535),
          ("instruction_count", [.minimum 0, .type [.integer]]),
          ("local_count", wholeUpTo 255),
          ("owner", [.type [.string]]) ],
      .required ["id", "owner", "instruction_count", "code"],
      .type [.object] ]

/-- A byte that may be absent. -/
def byte? : Option Json → Option UInt8
  | none => some 0
  | some j => (j.natUpTo? 255).map UInt8.ofNat

def script? (j : Json) : Option ManifestScript := do
  let id ← (j.field? "id").bind (Json.natUpTo? 65535)
  let owner ← (j.field? "owner").bind Json.text?
  let argCount ← byte? (j.field? "arg_count")
  let localCount ← byte? (j.field? "local_count")
  let instructionCount ← (j.field? "instruction_count").bind (Json.natUpTo? (UInt64.size - 1))
  let code ← (j.field? "code").bind Json.text?
  some ⟨UInt16.ofNat id, owner, argCount, localCount, instructionCount, code⟩

def scripts? (j : Json) : Option (List ManifestScript) :=
  ((j.field? "scripts").bind Json.array?).bind fun items => items.mapM script?

end Manifest

namespace ManifestScript

/-- The bytes that the code spells, blanks around it apart. -/
def bytes? (s : ManifestScript) : Option (List UInt8) := Hex.decode? (trimBlank s.code.toList)

def image? (s : ManifestScript) : Option Image :=
  s.bytes?.map fun code => ⟨s.id, s.owner, s.argCount, s.localCount, s.instructionCount, code⟩

/-- Why the script is rejected. -/
def failure? (s : ManifestScript) : Option Failure :=
  match s.bytes? with
  | some _ => none
  | none => some ⟨s.id, s.owner, s!"script {Hex.word s.id}: code is not valid hex"⟩

end ManifestScript

/-- The scripts of a manifest, the rejected ones apart. -/
def Corpus.ofManifest (scripts : List ManifestScript) : Corpus :=
  ⟨scripts.filterMap ManifestScript.image?, scripts.filterMap ManifestScript.failure?⟩

/-- The scripts of a manifest document. `source` names it in errors. -/
def Corpus.parse (source : String) (bytes : ByteArray) : Except LoadError Corpus :=
  match checkedDocument source Manifest.schema bytes with
  | .error e => .error e
  | .ok j =>
    match Manifest.scripts? j with
    | some scripts => .ok (Corpus.ofManifest scripts)
    | none => .error (.unreadableScripts source)

/-! ## Evidence documents -/

namespace EvidenceDocument

def schema : Schema :=
  scriptsSchema
    [ .properties
        [ ("id", wholeUpTo 65535),
          ("inbound_calls", [.minimum 0, .type [.integer, .null]]),
          ("interaction",
            [.enum (Interaction.all.map (fun i => .text i.key) ++ [.null])]),
          ("lifecycle_hook",
            [.enum (LifecycleHook.all.map (fun hook => .text hook.key) ++ [.null])]),
          ("max_iterations", [.minimum 0, .type [.integer, .null]]),
          ("observed_yield", [.type [.boolean]]) ],
      .required ["id"],
      .type [.object] ]

def entry? (j : Json) : Option (UInt16 × Evidence) := do
  let id ← (j.field? "id").bind (Json.natUpTo? 65535)
  let evidence ← Evidence.ofJson? j
  some (UInt16.ofNat id, evidence)

def entries? (j : Json) : Option (List (UInt16 × Evidence)) :=
  ((j.field? "scripts").bind Json.array?).bind fun items => items.mapM entry?

end EvidenceDocument

/-- The evidence of a document; the last record of a script counts. -/
def EvidenceTable.parse (source : String) (bytes : ByteArray) :
    Except LoadError EvidenceTable :=
  match checkedDocument source EvidenceDocument.schema bytes with
  | .error e => .error e
  | .ok j =>
    match EvidenceDocument.entries? j with
    | some entries => .ok (IdMap.ofList entries)
    | none => .error (.unreadableEvidence source)

end BehaviorScript
