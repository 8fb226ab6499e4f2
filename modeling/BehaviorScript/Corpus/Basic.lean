import BehaviorScript.Report.Basic

/-!
# Corpora

All scripts of an input, analyzed together. A script that cannot be
analyzed is recorded as a failure and stays in the call graph, so that
calls of it lead to a node of the corpus; it never stops the others.
-/

namespace BehaviorScript

/-- A script without a report. -/
structure Failure where
  id : UInt16
  owner : String
  error : String
deriving DecidableEq, Repr

structure Corpus where
  images : List Image
  /-- The scripts whose code could not be read. -/
  rejected : List Failure
deriving DecidableEq, Repr

namespace Corpus

def empty : Corpus := ⟨[], []⟩

def size (c : Corpus) : Nat := c.images.length + c.rejected.length

def append (c d : Corpus) : Corpus := ⟨c.images ++ d.images, c.rejected ++ d.rejected⟩

/-- Adds a script, whether or not its id is taken. -/
def add (c : Corpus) (image : Image) : Corpus := { c with images := c.images ++ [image] }

/-- Adds a script whose code could not be read. -/
def reject (c : Corpus) (f : Failure) : Corpus := { c with rejected := c.rejected ++ [f] }

/-- Removes every script with an id. -/
def erase (c : Corpus) (id : UInt16) : Corpus :=
  ⟨c.images.filter fun image => image.id ≠ id, c.rejected.filter fun f => f.id ≠ id⟩

end Corpus

/-! ## Counts -/

structure Summary where
  scripts : Nat
  decoded : Nat
  partlyDecoded : Nat
  failed : Nat
  /-- For each severity that occurs, how often. -/
  findings : List (Severity × Nat)
  /-- For each role that occurs, how often. -/
  roles : List (Role × Nat)
  entryPoints : Nat
  utilities : Nat
  orphans : Nat
deriving DecidableEq, Repr

/-- How often each of `kinds` occurs in a list; kinds that do not occur
are left out. -/
def census {κ : Type} [DecidableEq κ] (kinds occurring : List κ) : List (κ × Nat) :=
  (kinds.map fun kind => (kind, occurring.count kind)).filter fun entry => 0 < entry.2

def Summary.of (scripts : Nat) (reports : List Report) (failures : List Failure)
    (graph : CallGraph) : Summary where
  scripts
  decoded := reports.countP fun r => r.status = .complete
  partlyDecoded := reports.countP fun r => r.status ≠ .complete
  failed := failures.length
  findings := census Severity.all
    (reports.flatMap fun r => r.findings.map Finding.severity)
  roles := census Role.all (reports.map fun r => r.classification.role)
  entryPoints := (graph.withStatus .entry).length
  utilities := (graph.withStatus .utility).length
  orphans := (graph.withStatus .orphan).length

/-! ## Analysis -/

structure CorpusAnalysis where
  /-- By id. -/
  reports : List Report
  /-- By id. -/
  failures : List Failure
  graph : CallGraph
  summary : Summary
deriving DecidableEq, Repr

namespace Corpus

/-- The scripts that decode. -/
def scripts (c : Corpus) : List Script :=
  c.images.filterMap fun image => (Script.ofImage image).toOption

/-- Why an image gets no report. -/
def failure? (image : Image) : Option Failure :=
  match image.decode with
  | .ok _ => none
  | .error e => some ⟨image.id, image.owner, e.message⟩

/-- The rejected scripts, then the images that do not decode. -/
def failures (c : Corpus) : List Failure := c.rejected ++ c.images.filterMap failure?

def callsOf (image : Image) : ScriptCalls :=
  match image.decode with
  | .ok decoded => ScriptCalls.ofCode image.id image.owner decoded.code
  | .error _ => ScriptCalls.withoutCode image.id image.owner

def calls (c : Corpus) : List ScriptCalls :=
  c.images.map callsOf ++ c.rejected.map fun f => ScriptCalls.withoutCode f.id f.owner

def callGraph (c : Corpus) (evidence : EvidenceTable) : CallGraph :=
  CallGraph.build c.calls evidence

def analyze (c : Corpus) (evidence : EvidenceTable) (options : Options) : CorpusAnalysis :=
  let graph := c.callGraph evidence
  let reports := (c.scripts.map fun s =>
    s.report options (evidence.get s.image.id) (some graph)).mergeSort fun a b => a.id ≤ b.id
  let failures := c.failures.mergeSort fun a b => a.id ≤ b.id
  { reports, failures, graph, summary := Summary.of c.size reports failures graph }

end Corpus

end BehaviorScript
