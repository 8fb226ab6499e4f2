import BehaviorScript.Code.Instruction

/-!
# Records

The byte format of scripts: records of twelve bytes, one after another.
`decode` reads as many as are declared and present. A buffer that is too
short gives what it holds; only a count above `maxInstructions` is an
error.
-/

namespace BehaviorScript

def recordSize : Nat := 12

/-- Opcode, pointers and operand bytes; the low byte of the opcode comes
first. -/
def Instruction.encode (i : Instruction) : List UInt8 :=
  lowByte i.opcode :: highByte i.opcode :: i.truePointer :: i.falsePointer :: i.bytes.toList

/-- The record at the front of a buffer, and the bytes behind it. -/
def Instruction.read? : List UInt8 → Option (Instruction × List UInt8)
  | o0 :: o1 :: t :: f :: b0 :: b1 :: b2 :: b3 :: b4 :: b5 :: b6 :: b7 :: rest =>
    some (⟨wordOfBytes o0 o1, t, f, ⟨b0, b1, b2, b3, b4, b5, b6, b7⟩⟩, rest)
  | _ => none

/-- At most `count` records from the front of a buffer. -/
def readRecords : Nat → List UInt8 → List Instruction
  | 0, _ => []
  | count + 1, bytes =>
    match Instruction.read? bytes with
    | some (i, rest) => i :: readRecords count rest
    | none => []

def encodeRecords (code : List Instruction) : List UInt8 := code.flatMap Instruction.encode

inductive DecodeStatus where
  | complete
  /-- The buffer ends before the declared count. -/
  | truncated (needed available : Nat)
deriving DecidableEq, Repr

structure Decoded where
  code : List Instruction
  declaredCount : Nat
  status : DecodeStatus
deriving DecidableEq, Repr

inductive DecodeError where
  | tooManyInstructions (declared : Nat)
deriving DecidableEq, Repr

def DecodeError.message : DecodeError → String
  | .tooManyInstructions declared =>
    s!"declared instruction count {declared} exceeds the addressable maximum of "
      ++ toString maxInstructions

def decode (bytes : List UInt8) (count : Nat) : Except DecodeError Decoded :=
  if maxInstructions < count then .error (.tooManyInstructions count)
  else
    let code := readRecords count bytes
    let status :=
      if code.length < count then .truncated (count * recordSize) bytes.length else .complete
    .ok ⟨code, count, status⟩

namespace Decoded

def isTruncated (d : Decoded) : Bool := d.status ≠ .complete

def unknownOpcodeCount (d : Decoded) : Nat := d.code.countP Instruction.isUnknown

def operandIssueCount (d : Decoded) : Nat := (d.code.flatMap Instruction.issues).length

end Decoded

end BehaviorScript
