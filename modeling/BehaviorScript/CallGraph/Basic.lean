import BehaviorScript.Code.Instruction
import BehaviorScript.Evidence.Basic
import BehaviorScript.Script.Scope

/-!
# Call graphs

Who calls whom in a corpus. The nodes are the scripts of the corpus in
ascending order of their ids, then the ids that are called but not part
of it, in the order in which they are first called. A node is referred to
by its place (`CallGraph.nodeIds`). Calls come first among the edges,
hooks of the engine last.
-/

namespace BehaviorScript

/-- The calls that one script makes. -/
structure ScriptCalls where
  id : UInt16
  owner : String
  instructionCount : Nat
  /-- The number of call sites for each script that is called. -/
  callees : IdMap Nat

namespace ScriptCalls

def ofCode (id : UInt16) (owner : String) (code : List Instruction) : ScriptCalls :=
  ⟨id, owner, code.length, IdMap.tally (code.filterMap Instruction.callTarget?)⟩

/-- A script whose code cannot be used. -/
def withoutCode (id : UInt16) (owner : String) : ScriptCalls := ⟨id, owner, 0, IdMap.empty⟩

end ScriptCalls

/-- The part that a node plays. -/
inductive NodeStatus where
  /-- Run by hooks alone. -/
  | entry
  /-- Called by `utilityCallers` scripts or more. -/
  | utility
  /-- Neither called nor run by a hook. -/
  | orphan
  | internal
deriving DecidableEq, Repr

/-- The identifier in reports. -/
def NodeStatus.key : NodeStatus → String
  | .entry => "entry"
  | .utility => "utility"
  | .orphan => "orphan"
  | .internal => "internal"

/-- As many callers make a utility. -/
def utilityCallers : Nat := 3

structure CallNode where
  scriptId : UInt16
  /-- Absent for a node outside of the corpus. -/
  owner : Option String
  instructionCount : Nat
  /-- Called, but not part of the corpus. -/
  isExternal : Bool
  /-- Calls itself. -/
  isRecursive : Bool
  /-- The nodes that call this one, itself apart, in ascending order. -/
  callers : List Nat
  /-- The nodes that this one calls, itself apart, in ascending order. -/
  callees : List Nat
  hooks : List Hook
deriving DecidableEq, Repr

namespace CallNode

def scope (n : CallNode) : ScriptScope := ScriptScope.ofId n.scriptId

def status (n : CallNode) : NodeStatus :=
  if n.callers.isEmpty then (if n.hooks.isEmpty then .orphan else .entry)
  else if utilityCallers ≤ n.callers.length then .utility
  else .internal

end CallNode

inductive CallSource where
  | script (node : Nat)
  | engine (hook : Hook)
deriving DecidableEq, Repr

inductive CallKind where
  | call
  | lifecycleHook
  | interactionAction
  | interactionGuard
deriving DecidableEq, Repr

namespace CallKind

def ofHook : Hook → CallKind
  | .lifecycle _ => .lifecycleHook
  | .interactionAction => .interactionAction
  | .interactionGuard => .interactionGuard

/-- The identifier in reports. -/
def key : CallKind → String
  | .call => "call"
  | .lifecycleHook => "lifecycle_hook"
  | .interactionAction => "interaction_action"
  | .interactionGuard => "interaction_guard"

end CallKind

structure CallEdge where
  source : CallSource
  callee : Nat
  kind : CallKind
  /-- The number of call sites; one for a hook. -/
  sites : Nat
deriving DecidableEq, Repr

structure CallGraph where
  nodes : List CallNode
  edges : List CallEdge
deriving DecidableEq, Repr

namespace CallGraph

/-! ## Construction -/

/-- The scripts in ascending order; equal ids stay in the given order. -/
def sortScripts (scripts : List ScriptCalls) : List ScriptCalls :=
  scripts.mergeSort fun a b => a.id ≤ b.id

/-- The script ids of the nodes: those of the scripts, then those only
called. -/
def nodeIds (sorted : List ScriptCalls) : List UInt16 :=
  (sorted.map (fun s => s.id) ++ sorted.flatMap fun s => s.callees.keys).eraseDups

/-- One edge for each script and each script that it calls. -/
def callEdges (ids : List UInt16) (sorted : List ScriptCalls) : List CallEdge :=
  sorted.flatMap fun s => s.callees.entries.map fun (target, sites) =>
    ⟨.script (ids.idxOf s.id), ids.idxOf target, .call, sites⟩

/-- One edge for each hook, in ascending order of the script ids. -/
def hookEdges (ids : List UInt16) (evidence : EvidenceTable) : List CallEdge :=
  (ids.mergeSort fun a b => a ≤ b).flatMap fun id =>
    (evidence.get id).hooks.map fun hook =>
      ⟨.engine hook, ids.idxOf id, .ofHook hook, 1⟩

/-- The node at the other end of an edge between `node` and another one. -/
def caller? (node : Nat) (e : CallEdge) : Option Nat :=
  match e.source with
  | .script caller => if e.callee = node && caller ≠ node then some caller else none
  | .engine _ => none

def callee? (node : Nat) (e : CallEdge) : Option Nat :=
  match e.source with
  | .script caller => if caller = node && e.callee ≠ node then some e.callee else none
  | .engine _ => none

/-- The node of a script id. Of scripts with the same id the last one is
described; the calls of all of them count. -/
def node (sorted : List ScriptCalls) (evidence : EvidenceTable) (count : Nat)
    (calls : List CallEdge) (place : Nat) (id : UInt16) : CallNode :=
  let script? := (sorted.filter fun s => s.id = id).getLast?
  let callers := calls.filterMap (caller? place)
  let callees := calls.filterMap (callee? place)
  { scriptId := id
    owner := script?.map fun s => s.owner
    instructionCount := (script?.map fun s => s.instructionCount).getD 0
    isExternal := script?.isNone
    isRecursive := calls.any fun e => e.source = .script place && e.callee = place
    callers := (List.range count).filter callers.contains
    callees := (List.range count).filter callees.contains
    hooks := (evidence.get id).hooks }

/-- The call graph of these scripts, with the hooks that `evidence` knows
of. -/
def build (scripts : List ScriptCalls) (evidence : EvidenceTable) : CallGraph :=
  let sorted := sortScripts scripts
  let ids := nodeIds sorted
  let calls := callEdges ids sorted
  { nodes := ids.mapIdx (node sorted evidence ids.length calls)
    edges := calls ++ hookEdges ids evidence }

/-! ## Queries -/

/-- The place of a script's node. -/
def place? (g : CallGraph) (id : UInt16) : Option Nat :=
  g.nodes.findIdx? fun n => n.scriptId = id

def lookup (g : CallGraph) (id : UInt16) : Option CallNode :=
  g.nodes.find? fun n => n.scriptId = id

def statusOf? (g : CallGraph) (id : UInt16) : Option NodeStatus :=
  (g.lookup id).map CallNode.status

def callerCount (g : CallGraph) (id : UInt16) : Nat :=
  ((g.lookup id).map fun n => n.callers.length).getD 0

def calleeCount (g : CallGraph) (id : UInt16) : Nat :=
  ((g.lookup id).map fun n => n.callees.length).getD 0

/-- The nodes of the corpus that play a part. -/
def withStatus (g : CallGraph) (status : NodeStatus) : List CallNode :=
  g.nodes.filter fun n => !n.isExternal && n.status = status

end CallGraph

end BehaviorScript
