import BehaviorScript.CommandLine.Run

/-!
# The command

Reads the files that the arguments name, and performs what the plan of
the run says. Files are read as they are: to this layer an archive is a
file that is no manifest, and a directory cannot be read.
-/

namespace BehaviorScript.CommandLine

/-- The file at a path, if there is one. -/
def readNode (path : String) : IO (Option FileNode) := do
  try
    let bytes ← IO.FS.readBinFile path
    return some (.file bytes)
  catch
    | .noFileOrDirectory .. => return none
    | _ => throw (.userError (LoadError.unreadableFile path).message)

/-- The files that a run may look at. An evidence document that cannot be
read counts as absent, which is the same error later. -/
def readFiles (input : String) (evidence : Option String) : IO Files := do
  let node ← readNode input
  let others ← evidence.toList.mapM fun path => do
    let node ← try readNode path catch _ => pure none
    return (path, node)
  return fun path => (((input, node) :: others).lookup path).join

/-- Writes in order; a destination that cannot be written to ends the
run. -/
def perform (writings : List Writing) : IO Unit := do
  for w in writings do
    match w.destination with
    | none => IO.print w.text
    | some path =>
      try IO.FS.writeFile path w.text
      catch _ => throw (.userError (w.failure path).message)

def execute (arguments : List String) (input : String) (s : Settings) : IO Unit := do
  let files ← readFiles input s.evidence
  match plan files arguments input s with
  | .ok writings => perform writings
  | .error e => throw (.userError e.message)

end BehaviorScript.CommandLine

open BehaviorScript.CommandLine in
/-- Exits with 1 if the run fails and with 2 if the arguments are wrong. -/
def main (arguments : List String) : IO UInt32 := do
  match Request.ofArguments arguments with
  | .help => IO.print helpText; return 0
  | .version => IO.print versionText; return 0
  | .refused =>
    IO.eprint helpText
    return 2
  | .run input s =>
    try
      execute arguments input s
      return 0
    catch e =>
      IO.eprintln s!"Error: {e}"
      return 1
