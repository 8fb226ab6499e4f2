import BehaviorScript.Code.Instruction

/-!
# Findings

A finding is a defect at an instruction. Severity, category, rule and
wording follow from the defect. Findings are listed by instruction, then
by category, severity and message (`Finding.notAfter`).
-/

namespace BehaviorScript

inductive Severity where
  | error
  | warning
  | info
deriving DecidableEq, Repr

inductive Category where
  | deadCode
  | stackBalance
  | logicError
  | variableUsage
deriving DecidableEq, Repr

inductive Defect where
  /-- Control cannot get to the instruction. -/
  | unreachable (i : Instruction)
  /-- The stack holds less than the instruction leaves behind. -/
  | underflow (i : Instruction) (depth : Int)
  | tooDeep (depth limit : Int)
  /-- Two ways to the instruction leave the stack at different depths. -/
  | depthMismatch (seen other : Int)
  /-- A pointer behind the last instruction that is no end either. -/
  | pointerOutOfRange (outcome : Bool) (pointer : UInt8) (last : Nat)
  | selfLoop (i : Instruction)
  /-- Both outcomes lead to the same place. -/
  | sameBranches (i : Instruction) (target : Target)
  /-- The script declares fewer places of this scope. -/
  | slotOutOfRange (slot : Slot) (declared : Nat)
  | readBeforeWrite (slot : Slot)
  | neverRead (slot : Slot)
deriving DecidableEq, Repr

structure Finding where
  index : Nat
  defect : Defect
deriving DecidableEq, Repr

namespace Severity

def rank : Severity → Nat
  | .error => 0
  | .warning => 1
  | .info => 2

/-- The identifier in reports. -/
def key : Severity → String
  | .error => "error"
  | .warning => "warning"
  | .info => "info"

/-- From the gravest on. -/
def all : List Severity := [.error, .warning, .info]

end Severity

namespace Category

def rank : Category → Nat
  | .deadCode => 0
  | .stackBalance => 1
  | .logicError => 2
  | .variableUsage => 3

/-- The identifier in reports. -/
def key : Category → String
  | .deadCode => "dead_code"
  | .stackBalance => "stack_balance"
  | .logicError => "logic_error"
  | .variableUsage => "variable_usage"

/-- The identifier of the rule that looks for the category. -/
def ruleId : Category → String
  | .deadCode => "DEAD_CODE"
  | .stackBalance => "STACK_BALANCE"
  | .logicError => "BRANCH_LOGIC"
  | .variableUsage => "VARIABLE_USAGE"

end Category

namespace Defect

def category : Defect → Category
  | .unreachable _ => .deadCode
  | .underflow _ _ | .tooDeep _ _ | .depthMismatch _ _ => .stackBalance
  | .pointerOutOfRange _ _ _ | .selfLoop _ | .sameBranches _ _ => .logicError
  | .slotOutOfRange _ _ | .readBeforeWrite _ | .neverRead _ => .variableUsage

/-- A loop of a yielding instruction waits; any other one spins. A
temporary may be set and read by other scripts, a local may not. -/
def severity : Defect → Severity
  | .underflow _ _ | .pointerOutOfRange _ _ _ | .slotOutOfRange _ _ => .error
  | .selfLoop i => if i.yields then .warning else .error
  | .readBeforeWrite slot | .neverRead slot => if slot.scope = .local then .warning else .info
  | _ => .warning

end Defect

/-- What the script declares places of. -/
def Slot.declaredAs (slot : Slot) : String :=
  if slot.scope = .local then "locals" else "arguments"

namespace Finding

def category (f : Finding) : Category := f.defect.category

def severity (f : Finding) : Severity := f.defect.severity

def ruleId (f : Finding) : String := f.category.ruleId

def message (f : Finding) : String :=
  match f.defect with
  | .unreachable i => s!"instruction {f.index} ({i.mnemonic}) is never reached"
  | .underflow i depth => s!"{i.mnemonic} pops from a stack of depth {depth}"
  | .tooDeep depth limit => s!"stack depth reaches {depth}, above the limit of {limit}"
  | .depthMismatch seen other =>
    s!"paths reach instruction {f.index} with stack depths {seen} and {other}"
  | .pointerOutOfRange outcome pointer last =>
    s!"{outcome} pointer {pointer.toNat} is past the last instruction ({last}) "
      ++ "and not a return code"
  | .selfLoop i => s!"instruction {f.index} ({i.mnemonic}) branches to itself"
  | .sameBranches i target => s!"both branches of {i.mnemonic} lead to {target.label}"
  | .slotOutOfRange slot declared =>
    s!"{slot.label} is out of range; the script declares {declared} {slot.declaredAs}"
  | .readBeforeWrite slot =>
    if slot.scope = .local then s!"{slot.label} is read before any write"
    else s!"{slot.label} is read before any write; the caller may set it"
  | .neverRead slot => s!"{slot.label} is written but never read"

def suggestion? (f : Finding) : Option String :=
  match f.defect with
  | .unreachable _ => some "point a live branch at it or remove it from the tree"
  | .underflow _ _ => some "push a value on every path before this instruction"
  | .depthMismatch _ _ => some "balance pushes and pops on every path into this instruction"
  | .pointerOutOfRange _ _ _ =>
    some "point it at an instruction or at return true/false/error"
  | .sameBranches _ _ => some "the outcome is ignored; check the false pointer"
  | .readBeforeWrite slot =>
    if slot.scope = .local then some "assign the local before this instruction" else none
  | _ => none

/-- The order of findings in a list. -/
def notAfter (a b : Finding) : Bool :=
  if a.index ≠ b.index then a.index < b.index
  else if a.category.rank ≠ b.category.rank then a.category.rank < b.category.rank
  else if a.severity.rank ≠ b.severity.rank then a.severity.rank < b.severity.rank
  else a.message ≤ b.message

end Finding

end BehaviorScript
