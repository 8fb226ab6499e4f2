import BehaviorScript.Code.Operand
import BehaviorScript.Code.Pointer
import BehaviorScript.Text.Hex

/-!
# Instructions

An instruction is an opcode, two pointers and eight operand bytes. What
it does is read off these: whether control continues or branches, which
script it calls, whether it may suspend, and what it does to the
found-action stack. Its index is its place in the script and is not part
of it.
-/

namespace BehaviorScript

structure Instruction where
  opcode : UInt16
  truePointer : UInt8
  falsePointer : UInt8
  bytes : OperandBytes
deriving DecidableEq, Repr

/-- How control leaves an instruction. -/
inductive Flow where
  /-- Always through the true pointer. -/
  | continues
  /-- Through the true or the false pointer. -/
  | branches
deriving DecidableEq, Repr

namespace Instruction

def primitive? (i : Instruction) : Option Primitive := Primitive.find? i.opcode

def isCall (i : Instruction) : Bool := isCallOpcode i.opcode

/-- Neither a call nor a known primitive. -/
def isUnknown (i : Instruction) : Bool := !i.isCall && i.primitive?.isNone

def operand (i : Instruction) : Operand := Operand.decode i.opcode i.bytes

def issues (i : Instruction) : List OperandIssue := i.operand.issues

/-- The script that is called, through the opcode or through the operand. -/
def callTarget? (i : Instruction) : Option UInt16 :=
  match i.operand with
  | .call c => some c.target
  | _ => none

/-- Only an instruction that is known to continue continues. -/
def flow (i : Instruction) : Flow :=
  if i.isCall then .branches
  else match i.primitive?.map Primitive.flow with
    | some .continues => .continues
    | some .byOperand =>
      match i.operand with
      | .expression e => if e.operator.branches then .branches else .continues
      | _ => .branches
    | _ => .branches

def yields (i : Instruction) : Bool :=
  match i.primitive? with
  | some p => p.yields
  | none => false

/-- Net effect on the found-action stack. -/
def stackEffect (i : Instruction) : Int :=
  let own := (i.primitive?.map Primitive.stackEffect).getD 0
  match i.operand with
  | .expression e => own + e.operator.stackEffect
  | _ => own

/-- The pointers in use, each with the outcome that it is for. -/
def exits (i : Instruction) : List (Bool × UInt8) :=
  match i.flow with
  | .continues => [(true, i.truePointer)]
  | .branches => [(true, i.truePointer), (false, i.falsePointer)]

/-- The targets in use in a script of `count` instructions. -/
def targets (count : Nat) (i : Instruction) : List Target :=
  i.exits.map fun exit => Target.resolve exit.2 count

/-- The instructions that control can go to. -/
def successors (count : Nat) (i : Instruction) : List Nat :=
  (i.targets count).filterMap Target.index?

/-! ## Listing -/

def mnemonic (i : Instruction) : String :=
  if i.isCall then "call " ++ Hex.word i.opcode
  else match i.primitive? with
    | some p => p.name
    | none => "prim " ++ Hex.word i.opcode

end Instruction

def CallParams.label (p : CallParams) : String :=
  s!"({p.p0.toNat} {p.p1.toNat} {p.p2.toNat} {p.p3.toNat})"

/-- The operand as a listing shows it, with the blanks in front. -/
def Operand.label : Operand → String
  | .expression e => s!"  {e.left.label} {e.operator.symbol} {e.right.label}"
  | .call c =>
    if c.implicit then s!"  {c.params.label}" else s!"  {Hex.word c.target} {c.params.label}"
  | .raw bytes => " " ++ String.join (bytes.toList.map fun b => " " ++ Hex.byte b)

/-- An index in four digits or more. -/
def indexLabel (index : Nat) : String :=
  let digits := (toString index).toList
  String.ofList (List.replicate (4 - digits.length) '0' ++ digits)

/-- The line of a listing: index, mnemonic, operand and both pointers as
they are encoded. -/
def Instruction.line (index : Nat) (i : Instruction) : String :=
  s!"{indexLabel index}: {i.mnemonic}{i.operand.label}"
    ++ s!"  T->{i.truePointer.toNat} F->{i.falsePointer.toNat}"

/-- The listing of a script. -/
def listing (code : List Instruction) : List String :=
  code.mapIdx fun index i => i.line index

end BehaviorScript
