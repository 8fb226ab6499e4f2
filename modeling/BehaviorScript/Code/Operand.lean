import BehaviorScript.Code.Operator
import BehaviorScript.Code.Primitive
import BehaviorScript.Code.Variable

/-!
# Operands

Every instruction carries eight operand bytes. `Operand.decode` reads
them by the schema of the opcode; `Operand.issues` lists what is wrong
with the result, none of which stops decoding.
-/

namespace BehaviorScript

/-! ## Words in bytes, the low byte first -/

def wordOfBytes (low high : UInt8) : UInt16 := UInt16.ofNat (low.toNat + 256 * high.toNat)

def lowByte (w : UInt16) : UInt8 := UInt8.ofNat (w.toNat % 256)

def highByte (w : UInt16) : UInt8 := UInt8.ofNat (w.toNat / 256)

/-! ## Operands -/

structure OperandBytes where
  b0 : UInt8
  b1 : UInt8
  b2 : UInt8
  b3 : UInt8
  b4 : UInt8
  b5 : UInt8
  b6 : UInt8
  b7 : UInt8
deriving DecidableEq, Repr

namespace OperandBytes

def toList (b : OperandBytes) : List UInt8 :=
  [b.b0, b.b1, b.b2, b.b3, b.b4, b.b5, b.b6, b.b7]

/-- The bytes of a list of eight. -/
def ofList? : List UInt8 → Option OperandBytes
  | [b0, b1, b2, b3, b4, b5, b6, b7] => some ⟨b0, b1, b2, b3, b4, b5, b6, b7⟩
  | _ => none

end OperandBytes

structure Expression where
  left : Variable
  right : Variable
  operator : Operator
  /-- The flag bit as it is encoded. -/
  assignmentFlag : Bool
deriving DecidableEq, Repr

structure CallParams where
  p0 : UInt8
  p1 : UInt8
  p2 : UInt8
  p3 : UInt8
deriving DecidableEq, Repr

def CallParams.toList (p : CallParams) : List UInt8 := [p.p0, p.p1, p.p2, p.p3]

structure Call where
  target : UInt16
  params : CallParams
  /-- The opcode itself is the target. -/
  implicit : Bool
deriving DecidableEq, Repr

inductive Operand where
  | expression (e : Expression)
  | call (c : Call)
  | raw (bytes : OperandBytes)
deriving DecidableEq, Repr

/-- The side of an expression. -/
inductive Side where
  | left
  | right
deriving DecidableEq, Repr

def Side.label : Side → String
  | .left => "left"
  | .right => "right"

inductive OperandIssue where
  | unknownScope (side : Side) (code : UInt8)
  | unknownOperator (code : UInt8)
  | flagMismatch (flag : Bool) (operator : Operator)
  | constantWrite (operator : Operator) (target : Variable)
deriving DecidableEq, Repr

def OperandIssue.message : OperandIssue → String
  | .unknownScope side code => s!"unknown {side.label} variable scope code {code.toNat}"
  | .unknownOperator code => s!"unknown expression operator code {code.toNat}"
  | .flagMismatch flag operator =>
    s!"assignment flag is {flag} but operator `{operator.symbol}` disagrees"
  | .constantWrite operator target =>
    s!"operator `{operator.symbol}` writes to constant {target.label}"

namespace Expression

def decode (b : OperandBytes) : Expression where
  left := Variable.decode b.b6 (wordOfBytes b.b0 b.b1)
  right := Variable.decode b.b7 (wordOfBytes b.b2 b.b3)
  operator := Operator.ofCode b.b5
  assignmentFlag := b.b4 % 2 = 1

def scopeIssue (side : Side) : Variable → List OperandIssue
  | .unknown code _ => [.unknownScope side code]
  | _ => []

/-- The flag is set exactly for assignments. -/
def operatorIssue (e : Expression) : List OperandIssue :=
  match e.operator with
  | .unknown code => [.unknownOperator code]
  | op =>
    if e.assignmentFlag = decide (op.kind? = some .assignment) then []
    else [.flagMismatch e.assignmentFlag op]

def writeIssue (e : Expression) : List OperandIssue :=
  if e.operator.writesLeft && e.left.isConstant then [.constantWrite e.operator e.left] else []

/-- The right side counts only where the operator reads it. -/
def issues (e : Expression) : List OperandIssue :=
  scopeIssue .left e.left
    ++ (if e.operator.readsRight then scopeIssue .right e.right else [])
    ++ e.operatorIssue ++ e.writeIssue

/-- The variables that are read, the left one first. -/
def reads (e : Expression) : List Variable :=
  (if e.operator.readsLeft then [e.left] else [])
    ++ (if e.operator.readsRight then [e.right] else [])

/-- The variable that is written. -/
def write? (e : Expression) : Option Variable :=
  if e.operator.writesLeft then some e.left else none

end Expression

namespace Operand

/-- The schema of an opcode that names no call. -/
def schemaOf (opcode : UInt16) : OperandSchema :=
  match Primitive.find? opcode with
  | some p => p.schema
  | none => .raw

def decode (opcode : UInt16) (b : OperandBytes) : Operand :=
  if isCallOpcode opcode then .call ⟨opcode, ⟨b.b0, b.b1, b.b2, b.b3⟩, true⟩
  else match schemaOf opcode with
    | .expression => .expression (Expression.decode b)
    | .call => .call ⟨wordOfBytes b.b0 b.b1, ⟨b.b2, b.b3, b.b4, b.b5⟩, false⟩
    | .raw => .raw b

def issues : Operand → List OperandIssue
  | .expression e => e.issues
  | _ => []

def expression? : Operand → Option Expression
  | .expression e => some e
  | _ => none

end Operand

end BehaviorScript
