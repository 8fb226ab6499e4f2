import BehaviorScript.Lint.Finding
import BehaviorScript.Script.Basic

/-!
# Variable usage

One pass over the instructions that control can get to, in index order.
An expression reads before it writes. Locals and temporaries are tracked:
a first read without an earlier write is reported there, a first write
without any read at the end. Locals and arguments are held against the
declared counts, once for each slot.
-/

namespace BehaviorScript.Lint

namespace VariableUsage

/-- What the pass knows of the slots so far. -/
structure Usage where
  read : List Slot
  /-- Each slot with the index of its first write. -/
  written : List (Slot × Nat)
  outOfRange : List Slot
  findings : List Finding

def Usage.start : Usage := ⟨[], [], [], []⟩

def isTracked (slot : Slot) : Bool := slot.scope = .local || slot.scope = .temporary

/-- The number of places that the script declares in a scope. -/
def declared? (image : Image) : VariableScope → Option Nat
  | .local => some image.localCount.toNat
  | .parameter => some image.argCount.toNat
  | _ => none

def checkRange (image : Image) (index : Nat) (u : Usage) (slot : Slot) : Usage :=
  match declared? image slot.scope with
  | some declared =>
    if slot.index.toNat < declared || u.outOfRange.contains slot then u
    else
      { u with
        outOfRange := slot :: u.outOfRange
        findings := u.findings ++ [⟨index, .slotOutOfRange slot declared⟩] }
  | none => u

def noteRead (options : Options) (index : Nat) (u : Usage) (slot : Slot) : Usage :=
  if u.read.contains slot then u
  else
    let reported := (u.written.lookup slot).isNone
      && (slot.scope = .local || options.reportTempReads)
    { u with
      read := slot :: u.read
      findings := if reported then u.findings ++ [⟨index, .readBeforeWrite slot⟩] else u.findings }

def noteWrite (index : Nat) (u : Usage) (slot : Slot) : Usage :=
  if (u.written.lookup slot).isSome then u
  else { u with written := u.written ++ [(slot, index)] }

/-- Takes in an expression: ranges first, then reads, then the write. -/
def visit (image : Image) (options : Options) (u : Usage) (index : Nat) (e : Expression) :
    Usage :=
  let reads := e.reads.filterMap Variable.slot?
  let writes := (e.write?.bind Variable.slot?).toList
  let ranged := (reads ++ writes).foldl (checkRange image index) u
  let readOn := (reads.filter isTracked).foldl (noteRead options index) ranged
  (writes.filter isTracked).foldl (noteWrite index) readOn

/-- The expressions of the script that control can get to. -/
def liveExpressions (s : Script) : List (Expression × Nat) :=
  s.liveCode.filterMap fun (i, index) => i.operand.expression?.map fun e => (e, index)

/-- The slots that are written and never read. Other scripts may read a
temporary, if the script calls any. They come in the order of their first
writes and not of the slots; `Script.lint` sorts the findings. -/
def unread (makesCalls : Bool) (u : Usage) : List Finding :=
  (u.written.filter fun (slot, _) =>
    !u.read.contains slot && (slot.scope = .local || !makesCalls)).map fun (slot, index) =>
      ⟨index, .neverRead slot⟩

end VariableUsage

open VariableUsage in
def variableUsage (options : Options) (s : Script) : List Finding :=
  let u := (liveExpressions s).foldl (fun u (e, index) => visit s.image options u index e)
    Usage.start
  let makesCalls := s.code.any fun i => i.callTarget?.isSome
  u.findings ++ unread makesCalls u

end BehaviorScript.Lint
