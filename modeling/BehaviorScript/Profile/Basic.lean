import BehaviorScript.CallGraph.Basic
import BehaviorScript.Script.Basic

/-!
# Profiles

What is known of a script in one record: facts of its code and flow,
joined with the evidence and its place in the call graph.
-/

namespace BehaviorScript

/-- Whether a script and all of its instructions can run. Dead code
outranks the rest. -/
inductive Reachability where
  | fullyReachable
  | hasDeadCode
  /-- Neither called nor run by a hook. -/
  | unreachable
deriving DecidableEq, Repr

/-- The identifier in reports. -/
def Reachability.key : Reachability → String
  | .fullyReachable => "fully_reachable"
  | .hasDeadCode => "has_dead_code"
  | .unreachable => "unreachable"

structure Identity where
  id : UInt16
  owner : String
  scope : ScriptScope
deriving DecidableEq, Repr

structure Shape where
  instructionCount : Nat
  declaredInstructionCount : Nat
  argCount : UInt8
  localCount : UInt8
  unknownOpcodeCount : Nat
  hasBranching : Bool
  deadInstructionCount : Nat
  truncated : Bool
deriving DecidableEq, Repr

structure Dynamics where
  hasLoops : Bool
  canYield : Bool
  observedYield : Bool
  /-- The instructions that may suspend the script. -/
  yieldSites : List Nat
  maxIterations : Option Nat
deriving DecidableEq, Repr

structure Relationships where
  inboundCalls : Nat
  /-- The number of call instructions. -/
  outboundCalls : Nat
  lifecycleHook : Option LifecycleHook
  interaction : Option Interaction
  isGuard : Bool
  graphStatus : Option NodeStatus
deriving DecidableEq, Repr

namespace Relationships

def isAction (r : Relationships) : Bool := r.interaction = some .action

/-- Some hook runs the script. -/
def isEntryPoint (r : Relationships) : Bool :=
  r.lifecycleHook.isSome || r.interaction.isSome || r.isGuard

end Relationships

structure Profile where
  identity : Identity
  shape : Shape
  dynamics : Dynamics
  relationships : Relationships
  reachability : Reachability
  /-- Operand issues, invalid pointers, and one for a buffer that is too
  short. -/
  validationErrors : Nat
deriving DecidableEq, Repr

namespace Script

/-- Some instruction that control can get to has two ways out. -/
def hasBranching (s : Script) : Bool :=
  s.liveCode.any fun (i, _) =>
    i.flow = .branches
      && Target.resolve i.truePointer s.code.length ≠ Target.resolve i.falsePointer s.code.length

/-- The instructions with an opcode of `yielding`. -/
def yieldSites (yielding : List UInt16) (s : Script) : List Nat :=
  (s.code.zipIdx.filter fun entry => yielding.contains entry.1.opcode).map fun entry => entry.2

def outboundCalls (s : Script) : Nat := s.code.countP fun i => i.callTarget?.isSome

def invalidPointers (s : Script) : Nat :=
  s.flow.edges.countP fun e => match e.target with
    | .invalid _ => true
    | _ => false

def validationErrors (s : Script) : Nat :=
  s.decoded.operandIssueCount + s.invalidPointers + (if s.decoded.isTruncated then 1 else 0)

def deadCount (s : Script) : Nat := s.flow.deadInstructions.length

/-- The profile of a script. Evidence on its callers outranks the call
graph. -/
def profile (yielding : List UInt16) (s : Script) (evidence : Evidence)
    (graph : Option CallGraph) : Profile :=
  let graphStatus := graph.bind fun g => g.statusOf? s.image.id
  let inGraph := (graph.map fun g => g.callerCount s.image.id).getD 0
  let yieldSites := s.yieldSites yielding
  { identity := ⟨s.image.id, s.image.owner, ScriptScope.ofId s.image.id⟩
    shape :=
      { instructionCount := s.code.length
        declaredInstructionCount := s.decoded.declaredCount
        argCount := s.image.argCount
        localCount := s.image.localCount
        unknownOpcodeCount := s.decoded.unknownOpcodeCount
        hasBranching := s.hasBranching
        deadInstructionCount := s.deadCount
        truncated := s.decoded.isTruncated }
    dynamics :=
      { hasLoops := s.flow.hasLoops
        canYield := evidence.observedYield || !yieldSites.isEmpty
        observedYield := evidence.observedYield
        yieldSites
        maxIterations := evidence.maxIterations }
    relationships :=
      { inboundCalls := evidence.callerCount?.getD inGraph
        outboundCalls := s.outboundCalls
        lifecycleHook := evidence.lifecycleHook
        interaction := evidence.interaction
        isGuard := evidence.isGuard
        graphStatus }
    reachability :=
      if 0 < s.deadCount then .hasDeadCode
      else if graphStatus = some .orphan then .unreachable
      else .fullyReachable
    validationErrors := s.validationErrors }

end Script

end BehaviorScript
