import BehaviorScript.Script.IdMap

/-!
# Evidence

What is known of a script from outside of its code: which hooks of the
engine run it, and how often it is called. An absent record knows
nothing.
-/

namespace BehaviorScript

/-- An engine event that runs a script. -/
inductive LifecycleHook where
  | init
  | main
  | cleanup
  | load
  | reset
deriving DecidableEq, Repr

namespace LifecycleHook

def all : List LifecycleHook := [.init, .main, .cleanup, .load, .reset]

/-- The identifier in documents and reports. -/
def key : LifecycleHook → String
  | .init => "init"
  | .main => "main"
  | .cleanup => "cleanup"
  | .load => "load"
  | .reset => "reset"

def ofKey? (key : String) : Option LifecycleHook := all.find? fun hook => hook.key = key

end LifecycleHook

/-- What a script does for a user interaction. -/
inductive Interaction where
  /-- Runs when the interaction is picked. -/
  | action
  /-- Decides whether the interaction is offered. -/
  | guard
deriving DecidableEq, Repr

namespace Interaction

def all : List Interaction := [.action, .guard]

/-- The identifier in documents and reports. -/
def key : Interaction → String
  | .action => "action"
  | .guard => "guard"

def ofKey? (key : String) : Option Interaction := all.find? fun i => i.key = key

end Interaction

structure Evidence where
  lifecycleHook : Option LifecycleHook
  interaction : Option Interaction
  /-- Calls from other scripts; `knownGuardCalls` marks a guard instead. -/
  inboundCalls : Option Nat
  /-- A pause was observed at run time. -/
  observedYield : Bool
  maxIterations : Option Nat
deriving DecidableEq, Repr

/-- A way in which the engine runs a script. -/
inductive Hook where
  | lifecycle (hook : LifecycleHook)
  | interactionAction
  | interactionGuard
deriving DecidableEq, Repr

def Hook.label : Hook → String
  | .lifecycle hook => "lifecycle:" ++ hook.key
  | .interactionAction => "interaction:action"
  | .interactionGuard => "interaction:guard"

/-- The number of inbound calls that stands for "a known guard". -/
def knownGuardCalls : Nat := 999

namespace Evidence

/-- Nothing is known. -/
def absent : Evidence := ⟨none, none, none, false, none⟩

def isAction (e : Evidence) : Bool := e.interaction = some .action

def isGuard (e : Evidence) : Bool :=
  e.interaction = some .guard || e.inboundCalls = some knownGuardCalls

/-- The number of calls, where it is one. -/
def callerCount? (e : Evidence) : Option Nat :=
  e.inboundCalls.filter fun n => n ≠ knownGuardCalls

/-- Some hook runs the script. -/
def hasHook (e : Evidence) : Bool :=
  e.lifecycleHook.isSome || e.interaction.isSome || e.isGuard

/-- The hooks that run the script. -/
def hooks (e : Evidence) : List Hook :=
  (e.lifecycleHook.map Hook.lifecycle).toList
    ++ (if e.isAction then [.interactionAction] else [])
    ++ (if e.isGuard then [.interactionGuard] else [])

end Evidence

/-- Evidence by script id. -/
abbrev EvidenceTable := IdMap Evidence

/-- The record of a script; one that is not listed has the absent record. -/
def EvidenceTable.get (table : EvidenceTable) (id : UInt16) : Evidence :=
  (table.get? id).getD .absent

end BehaviorScript
