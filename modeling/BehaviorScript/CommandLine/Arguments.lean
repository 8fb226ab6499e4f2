import BehaviorScript.Script.Basic

/-!
# Command-line arguments

Arguments are taken one by one from the left. A value follows its option,
or is attached to it by an equals sign; one that begins with a dash must
be attached, a dash alone apart. The first argument that cannot be taken
decides, and so does a request for help or for the version. What is
missing or excludes something else is seen at the end.
-/

namespace BehaviorScript.CommandLine

/-- What the arguments ask for. -/
structure Settings where
  input : Option String
  evidence : Option String
  output : Option String
  report : Option String
  graph : Option String
  maxStackDepth : Option Int
  jobs : Option Nat
  quiet : Bool
  verbose : Bool
  timing : Bool
deriving DecidableEq, Repr

def Settings.start : Settings := ⟨none, none, none, none, none, none, none, false, false, false⟩

inductive Request where
  | help
  | version
  | run (input : String) (settings : Settings)
  /-- The arguments are wrong. -/
  | refused
deriving DecidableEq, Repr

/-! ## Numbers -/

/-- Decimal digits, at least one. -/
def digits? (cs : List Char) : Option Nat :=
  if cs.isEmpty || !cs.all Char.isDigit then none
  else some (cs.foldl (fun n c => n * 10 + (c.toNat - 48)) 0)

/-- A number without a minus sign, below `2 ^ 64`. -/
def natural? (value : String) : Option Nat :=
  let n? := match value.toList with
    | '+' :: rest => digits? rest
    | cs => digits? cs
  n?.filter fun n => n < UInt64.size

/-- A number of 32 bits with its sign. -/
def integer? (value : String) : Option Int :=
  let n? : Option Int := match value.toList with
    | '+' :: rest => (digits? rest).map Int.ofNat
    | '-' :: rest => (digits? rest).map fun n => -(n : Int)
    | cs => (digits? cs).map Int.ofNat
  n?.filter fun n => -2147483648 ≤ n && n < 2147483648

/-! ## Options -/

/-- Sets what has not been set yet. -/
def once {α : Type} (old : Option α) (value : Option α) : Option (Option α) :=
  match old, value with
  | none, some v => some (some v)
  | _, _ => none

def path? (value : String) : Option String := if value.isEmpty then none else some value

/-- Takes an option with its value; `none` if the option is unknown or
repeated, or the value is no good. -/
def option? (s : Settings) (name value : String) : Option Settings :=
  match name with
  | "input" => (once s.input (path? value)).map fun v => { s with input := v }
  | "evidence" => (once s.evidence (path? value)).map fun v => { s with evidence := v }
  | "output" => (once s.output (path? value)).map fun v => { s with output := v }
  | "report" => (once s.report (path? value)).map fun v => { s with report := v }
  | "graph" => (once s.graph (path? value)).map fun v => { s with graph := v }
  | "max-stack-depth" =>
    (once s.maxStackDepth (integer? value)).map fun v => { s with maxStackDepth := v }
  | "jobs" => (once s.jobs (natural? value)).map fun v => { s with jobs := v }
  | _ => none

def takesValue (name : String) : Bool :=
  ["input", "evidence", "output", "report", "graph", "max-stack-depth", "jobs"].contains name

/-- Takes an option without a value, once. -/
def flag? (s : Settings) (name : String) : Option Settings :=
  match name with
  | "quiet" => if s.quiet then none else some { s with quiet := true }
  | "verbose" => if s.verbose then none else some { s with verbose := true }
  | "timing" => if s.timing then none else some { s with timing := true }
  | _ => none

/-! ## Arguments -/

/-- An argument by its form. -/
inductive Argument where
  /-- `--name`, or `--name=value`. -/
  | long (name : String) (value : Option String)
  /-- A dash and letters; the first one counts. -/
  | short (letter : Char)
  /-- Two dashes: what follows is no option. -/
  | separator
  /-- Anything else. -/
  | plain

def Argument.ofString (arg : String) : Argument :=
  match arg.toList with
  | ['-', '-'] => .separator
  | '-' :: '-' :: rest =>
    let name := String.ofList (rest.takeWhile fun c => c ≠ '=')
    match rest.dropWhile fun c => c ≠ '=' with
    | _ :: value => .long name (some (String.ofList value))
    | [] => .long name none
  | '-' :: letter :: _ => .short letter
  | _ => .plain

/-- Can stand behind an option as its value. -/
def isValue (arg : String) : Bool :=
  match arg.toList with
  | ['-'] => true
  | '-' :: _ => false
  | _ => true

/-- What all arguments together ask for. -/
def finish (s : Settings) : Request :=
  match s.input with
  | some input => if s.quiet && s.verbose then .refused else .run input s
  | none => .refused

/-- Takes the arguments from the left. -/
def take (s : Settings) : List String → Request
  | [] => finish s
  | arg :: rest =>
    match Argument.ofString arg with
    | .separator => if rest.isEmpty then finish s else .refused
    | .short 'h' => .help
    | .short 'V' => .version
    | .long "help" none => .help
    | .long "version" none => .version
    | .long name none =>
      if takesValue name then
        match rest with
        | value :: rest =>
          if isValue value then
            match option? s name value with
            | some s => take s rest
            | none => .refused
          else .refused
        | [] => .refused
      else match flag? s name with
        | some s => take s rest
        | none => .refused
    | .long name (some value) =>
      match option? s name value with
      | some s => take s rest
      | none => .refused
    | _ => .refused

def Request.ofArguments (arguments : List String) : Request := take .start arguments

/-- The options of the analysis. -/
def Settings.options (s : Settings) : Options :=
  { Options.default with
    maxStackDepth := s.maxStackDepth.getD Options.default.maxStackDepth
    jobs := s.jobs.getD Options.default.jobs }

end BehaviorScript.CommandLine
