import BehaviorScript.Profile.Basic

/-!
# Roles

The rules are tried in order, and the first one that matches gives the
role and a confidence in hundredths. What degrades the input lowers the
confidence, never below zero, and every deduction is noted; so is what
contradicts the role.
-/

namespace BehaviorScript

inductive Role where
  /-- Driven by the engine, mostly a main loop. -/
  | role
  /-- The body of an interaction. -/
  | action
  /-- Decides whether an interaction is offered, or a small test that
  many share. -/
  | guard
  /-- A straight helper that many call. -/
  | utility
  /-- Calls other scripts in sequence. -/
  | flow
  | unknown
deriving DecidableEq, Repr

namespace Role

def all : List Role := [.role, .action, .guard, .utility, .flow, .unknown]

/-- The identifier in reports. -/
def key : Role → String
  | .role => "ROLE"
  | .action => "ACTION"
  | .guard => "GUARD"
  | .utility => "UTILITY"
  | .flow => "FLOW"
  | .unknown => "UNKNOWN"

end Role

/-! ## Facts -/

namespace Profile

def isLifecycleEntry (p : Profile) : Bool := p.relationships.lifecycleHook.isSome

def isAction (p : Profile) : Bool := p.relationships.isAction

def isGuard (p : Profile) : Bool := p.relationships.isGuard

def isEntryPoint (p : Profile) : Bool := p.relationships.isEntryPoint

def hasLoops (p : Profile) : Bool := p.dynamics.hasLoops

def canYield (p : Profile) : Bool := p.dynamics.canYield

def hasBranching (p : Profile) : Bool := p.shape.hasBranching

def usesUnknownOpcode (p : Profile) : Bool := 0 < p.shape.unknownOpcodeCount

def hasDeadCode (p : Profile) : Bool := p.reachability = .hasDeadCode

def isOrphan (p : Profile) : Bool := p.relationships.graphStatus = some .orphan

def instructionCount (p : Profile) : Nat := p.shape.instructionCount

def callerCount (p : Profile) : Nat := p.relationships.inboundCalls

def outboundCalls (p : Profile) : Nat := p.relationships.outboundCalls

end Profile

/-! ## Rules -/

structure RoleRule where
  name : String
  role : Role
  isMatch : Profile → Bool
  /-- In hundredths, for a profile that matches. -/
  confidence : Profile → Nat

namespace RoleRule

def lifecycleLoop : RoleRule where
  name := "lifecycle_loop"
  role := .role
  isMatch p := p.isLifecycleEntry && p.hasLoops
  confidence p := if p.canYield then 95 else 90

def interactionAction : RoleRule where
  name := "interaction_action"
  role := .action
  isMatch p := p.isAction && !p.hasLoops
  confidence p := if p.callerCount ≤ 1 then 90 else 85

def availabilityGuard : RoleRule where
  name := "availability_guard"
  role := .guard
  isMatch p :=
    p.isGuard
      || (p.instructionCount ≤ 5 && 3 ≤ p.callerCount && !p.canYield && !p.isAction)
  confidence p := if p.isGuard then (if p.instructionCount ≤ 5 then 90 else 85) else 80

def sharedUtility : RoleRule where
  name := "shared_utility"
  role := .utility
  isMatch p := !p.isEntryPoint && 5 ≤ p.callerCount && !p.hasBranching && !p.isAction
  confidence _ := 75

def callSequence : RoleRule where
  name := "call_sequence"
  role := .flow
  isMatch p :=
    !p.isEntryPoint && 0 < p.outboundCalls && 6 ≤ p.instructionCount && p.instructionCount ≤ 15
  confidence _ := 70

/-- The rules in the order in which they are tried. -/
def all : List RoleRule :=
  [lifecycleLoop, interactionAction, availabilityGuard, sharedUtility, callSequence]

/-- What is assumed where no rule matches. -/
def fallback : RoleRule where
  name := "default"
  role := .flow
  isMatch _ := true
  confidence _ := 50

end RoleRule

/-! ## Classification -/

structure Classification where
  id : UInt16
  role : Role
  /-- In hundredths. -/
  confidence : Nat
  matchedRule : String
  /-- No rule matched. -/
  lowConfidence : Bool
  evidence : List String
  notes : List String
deriving DecidableEq, Repr

/-- A reason to trust a role less: hundredths and note. -/
structure Penalty where
  hundredths : Nat
  note : String
deriving DecidableEq, Repr

namespace Profile

def rule? (p : Profile) : Option RoleRule := RoleRule.all.find? fun rule => rule.isMatch p

def rule (p : Profile) : RoleRule := p.rule?.getD .fallback

def deadCodePenalty (p : Profile) : List Penalty :=
  if p.hasDeadCode then
    [⟨10, s!"dead code: {p.shape.deadInstructionCount} unreachable instruction(s) (-0.10)"⟩]
  else []

/-- Unknown opcodes speak against a utility only. -/
def unknownOpcodePenalty (p : Profile) : List Penalty :=
  if p.rule.role = .utility && p.usesUnknownOpcode then
    [⟨15, s!"utility uses {p.shape.unknownOpcodeCount} unknown opcode(s) (-0.15)"⟩]
  else []

def validationPenalty (p : Profile) : List Penalty :=
  if 0 < p.validationErrors then
    [⟨5 * p.validationErrors, s!"{p.validationErrors} validation error(s) (-0.05 each)"⟩]
  else []

def penalties (p : Profile) : List Penalty :=
  p.deadCodePenalty ++ p.unknownOpcodePenalty ++ p.validationPenalty

/-- What speaks against the role without lowering the confidence. -/
def contradictions (p : Profile) : List String :=
  let assigned := p.rule.role
  (if assigned = .role && !p.canYield then ["lifecycle loop has no yield-capable primitive"] else [])
    ++ (if p.isAction && p.hasLoops then ["interaction action contains a loop"] else [])
    ++ (if assigned = .action && 1 < p.callerCount then
        [s!"interaction action is also called by {p.callerCount} scripts"] else [])
    ++ (if p.isGuard && p.canYield then ["availability guard can yield"] else [])
    ++ (if p.isOrphan then ["no caller or hook reaches this script"] else [])
    ++ (if p.shape.truncated then ["decoded from a truncated buffer"] else [])

/-- The facts that the rules looked at. -/
def supportingFacts (p : Profile) : List String :=
  let flags :=
    [(p.isLifecycleEntry, "lifecycle hook"), (p.isAction, "interaction action"),
      (p.isGuard, "interaction guard"), (p.hasLoops, "loop"), (p.canYield, "can yield"),
      (p.hasBranching, "branches")]
  (flags.filter fun flag => flag.1).map (fun flag => flag.2)
    ++ [s!"{p.instructionCount} instruction(s)", s!"{p.callerCount} caller(s)",
      s!"{p.outboundCalls} outbound call(s)"]

/-- The confidence that is left, in hundredths. -/
def confidence (p : Profile) : Nat :=
  p.rule.confidence p - p.penalties.foldr (fun penalty total => penalty.hundredths + total) 0

def classify (p : Profile) : Classification where
  id := p.identity.id
  role := p.rule.role
  confidence := p.confidence
  matchedRule := p.rule.name
  lowConfidence := p.rule?.isNone
  evidence := p.supportingFacts
  notes :=
    (if p.rule?.isNone then ["no rule matched; FLOW is a coarse fallback"] else [])
      ++ p.penalties.map (fun penalty => penalty.note) ++ p.contradictions

end Profile

/-- The classification of a script without a profile. -/
def Classification.unclassified (id : UInt16) (reason : String) : Classification :=
  ⟨id, .unknown, 0, RoleRule.fallback.name, true, [], [reason]⟩

end BehaviorScript
