import BehaviorScript.CallGraph.Drawing
import BehaviorScript.CommandLine.Arguments
import BehaviorScript.Corpus.Load
import BehaviorScript.Json.Printer
import BehaviorScript.Output.Json
import BehaviorScript.Output.Sarif

/-!
# Running the command

`plan` says what a run writes, in order, as a function of the files and
the settings; `run` writes it to a file tree. A destination that cannot
be written to ends the run, and what was written before stays.
-/

namespace BehaviorScript.CommandLine

/-! ## Texts -/

/-- The report on a corpus. -/
def reportJson (a : CorpusAnalysis) : Json :=
  .object
    [ ("tool", .text toolName), ("version", .text toolVersion), ("summary", a.summary.toJson),
      ("scripts", .array (a.reports.map Report.toJson)),
      ("failures", .array (a.failures.map Failure.toJson)) ]

def jsonText (j : Json) : String := j.pretty ++ "\n"

def versionText : String := toolName ++ " " ++ toolVersion ++ "\n"

def helpText : String :=
  "\n".intercalate
    [ "Deterministic CFG, lint and role classification for behavior-script bytecode.",
      "",
      "Usage: bhavscope [OPTIONS] --input <PATH>",
      "",
      "Options:",
      "      --input <PATH>         Manifest (.json), bundle (.zip) or directory of manifests",
      "      --evidence <PATH>      Relational evidence: hooks, interactions, caller counts",
      "      --output <PATH>        SARIF destination; `-` or absent writes to stdout",
      "      --report <PATH>        JSON classification report",
      "      --graph <PATH>         Graphviz call graph",
      "      --max-stack-depth <N>  [default: 256]",
      "      --jobs <N>             Worker threads; 0 picks one per core [default: 0]",
      "      --quiet",
      "      --verbose",
      "      --timing",
      "  -h, --help                 Print help",
      "  -V, --version              Print version",
      "" ]

/-! ## What a run writes -/

inductive RunError where
  | inputNotFound (path : String)
  | load (e : LoadError)
  | unopened (path : String)
  | unwritten (path : String)
deriving DecidableEq, Repr

def RunError.message : RunError → String
  | .inputNotFound path => s!"input not found: {path}"
  | .load e => e.message
  | .unopened path => s!"failed to open {path}"
  | .unwritten path => s!"failed to write {path}"

/-- A text and where it goes. -/
structure Writing where
  /-- Absent for standard output. -/
  destination : Option String
  text : String
  /-- The error if it cannot be written there. -/
  failure : String → RunError

/-- Standard output is the destination if none is given, or a dash. -/
def destination (path : Option String) : Option String :=
  path.filter fun p => !Path.isJust "-" p

/-- The log, then the report and the drawing that are asked for. -/
def writings (arguments : List String) (s : Settings) (a : CorpusAnalysis) : List Writing :=
  let log := jsonText (Sarif.log (toolName :: arguments) a.reports)
  [⟨destination s.output, log, .unopened⟩]
    ++ (s.report.map fun path => Writing.mk (destination (some path)) (jsonText (reportJson a))
        .unopened).toList
    ++ (s.graph.map fun path => Writing.mk (some path) a.graph.dot .unwritten).toList

def analysis (files : Files) (input : String) (s : Settings) :
    Except RunError CorpusAnalysis := do
  if (files input).isNone then throw (.inputNotFound input)
  let corpus ← (Corpus.load files input).mapError .load
  let evidence ← match s.evidence with
    | some path => (EvidenceTable.load files path).mapError .load
    | none => .ok .empty
  return corpus.analyze evidence s.options

/-- What a run writes, in order. -/
def plan (files : Files) (arguments : List String) (input : String) (s : Settings) :
    Except RunError (List Writing) :=
  (analysis files input s).map (writings arguments s)

/-! ## Writing to a tree -/

structure Outcome where
  exitCode : Nat
  stdout : String
  error : Option RunError
  tree : FileNode

def writeAll (stdout : String) (tree : FileNode) : List Writing → Outcome
  | [] => ⟨0, stdout, none, tree⟩
  | w :: rest =>
    match w.destination with
    | none => writeAll (stdout ++ w.text) tree rest
    | some path =>
      match tree.write? path w.text.toUTF8 with
      | some tree => writeAll stdout tree rest
      | none => ⟨1, stdout, some (w.failure path), tree⟩

/-- Runs the command with these arguments in a directory. -/
def run (root : FileNode) (arguments : List String) : Outcome :=
  match Request.ofArguments arguments with
  | .help => ⟨0, helpText, none, root⟩
  | .version => ⟨0, versionText, none, root⟩
  | .refused => ⟨2, "", none, root⟩
  | .run input s =>
    match plan root.find? arguments input s with
    | .ok writings => writeAll "" root writings
    | .error e => ⟨1, "", some e, root⟩

end BehaviorScript.CommandLine
