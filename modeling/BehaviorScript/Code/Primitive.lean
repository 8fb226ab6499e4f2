/-!
# Primitives

The catalog of built-in operations. An opcode below `callThreshold`
names a primitive, if the catalog has it; every other opcode calls the
script of that id.
-/

namespace BehaviorScript

/-- How the operand bytes of a primitive are laid out. -/
inductive OperandSchema where
  /-- A comparison of or an assignment between two variables. -/
  | expression
  /-- A call of a script with four parameter bytes. -/
  | call
  /-- Bytes without a known structure. -/
  | raw
deriving DecidableEq, Repr

/-- How control leaves a primitive. -/
inductive PrimitiveFlow where
  | continues
  | branches
  | byOperand
deriving DecidableEq, Repr

structure Primitive where
  opcode : UInt16
  name : String
  schema : OperandSchema
  flow : PrimitiveFlow
  /-- May suspend the script until a later tick. -/
  yields : Bool
  /-- Net effect on the found-action stack. -/
  stackEffect : Int
deriving DecidableEq, Repr

/-- Opcodes from here on are calls. -/
def callThreshold : UInt16 := 0x0100

def isCallOpcode (opcode : UInt16) : Bool := callThreshold ≤ opcode

namespace Primitive

def expressionOpcode : UInt16 := 0x02

def gosubOpcode : UInt16 := 0x1C

/-- The known primitives in ascending order. -/
def catalog : List Primitive :=
  [ ⟨0x00, "sleep", .raw, .continues, true, 0⟩,
    ⟨0x01, "generic call", .raw, .branches, false, 0⟩,
    ⟨expressionOpcode, "expression", .expression, .byOperand, false, 0⟩,
    ⟨0x03, "find best interaction", .raw, .branches, false, 1⟩,
    ⟨0x04, "grab", .raw, .branches, false, 0⟩,
    ⟨0x05, "drop", .raw, .branches, false, 0⟩,
    ⟨0x06, "change suit", .raw, .continues, false, 0⟩,
    ⟨0x07, "refresh", .raw, .continues, false, 0⟩,
    ⟨0x08, "random number", .raw, .continues, false, 0⟩,
    ⟨0x09, "burn", .raw, .branches, false, 0⟩,
    ⟨0x0A, "tutorial", .raw, .continues, false, 0⟩,
    ⟨0x0B, "get distance to", .raw, .continues, false, 0⟩,
    ⟨0x0C, "get direction to", .raw, .continues, false, 0⟩,
    ⟨0x0D, "push interaction", .raw, .branches, false, 0⟩,
    ⟨0x0E, "find best object for function", .raw, .branches, false, 0⟩,
    ⟨0x0F, "breakpoint", .raw, .continues, false, 0⟩,
    ⟨0x10, "find location for", .raw, .branches, false, 0⟩,
    ⟨0x11, "idle for input", .raw, .branches, true, 0⟩,
    ⟨0x12, "remove object instance", .raw, .continues, false, 0⟩,
    ⟨0x13, "make new character", .raw, .continues, false, 0⟩,
    ⟨0x14, "run functional tree", .raw, .branches, false, 0⟩,
    ⟨0x15, "show string", .raw, .continues, false, 0⟩,
    ⟨0x16, "look towards", .raw, .branches, true, 0⟩,
    ⟨0x17, "play sound event", .raw, .continues, false, 0⟩,
    ⟨0x18, "old relationship", .raw, .branches, false, 0⟩,
    ⟨0x19, "alter budget", .raw, .branches, false, 0⟩,
    ⟨0x1A, "relationship", .raw, .branches, false, 0⟩,
    ⟨0x1B, "go to relative position", .raw, .branches, true, 0⟩,
    ⟨gosubOpcode, "gosub", .call, .branches, false, 0⟩,
    ⟨0x1D, "set motive change", .raw, .continues, false, 0⟩,
    ⟨0x1E, "gosub found action", .raw, .branches, false, -1⟩,
    ⟨0x1F, "set to next", .raw, .branches, false, 0⟩,
    ⟨0x20, "test object type", .raw, .branches, false, 0⟩,
    ⟨0x21, "find 5 worst motives", .raw, .continues, false, 0⟩,
    ⟨0x22, "ui effect", .raw, .continues, false, 0⟩,
    ⟨0x23, "special effect", .raw, .continues, false, 0⟩,
    ⟨0x24, "dialog", .raw, .branches, true, 0⟩,
    ⟨0x25, "test sim interacting with", .raw, .branches, false, 0⟩,
    ⟨0x29, "set balloon", .raw, .continues, false, 0⟩,
    ⟨0x2A, "create object instance", .raw, .branches, false, 0⟩,
    ⟨0x2B, "drop onto", .raw, .branches, false, 0⟩,
    ⟨0x2C, "animate sim", .raw, .branches, true, 0⟩,
    ⟨0x2D, "go to routing slot", .raw, .branches, true, 0⟩,
    ⟨0x2E, "snap", .raw, .branches, false, 0⟩,
    ⟨0x2F, "reach", .raw, .branches, true, 0⟩,
    ⟨0x30, "stop all sounds", .raw, .continues, false, 0⟩,
    ⟨0x31, "notify out of idle", .raw, .continues, false, 0⟩,
    ⟨0x32, "change action string", .raw, .continues, false, 0⟩,
    ⟨0x33, "manage inventory", .raw, .branches, false, 0⟩ ]

/-- The primitive of an opcode. -/
def find? (opcode : UInt16) : Option Primitive :=
  catalog.find? fun p => p.opcode == opcode

/-- The opcodes of the primitives that may suspend a script. -/
def yieldOpcodes : List UInt16 :=
  (catalog.filter fun p => p.yields).map fun p => p.opcode

end Primitive

end BehaviorScript
