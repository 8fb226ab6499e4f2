import BehaviorScript.Code.Record
import BehaviorScript.Flow.Graph

/-!
# Scripts

An image is a script as a container holds it. A script ready to be
analyzed is its image, what was decoded from it, and its flow graph. Only
a script that decodes gets this far.
-/

namespace BehaviorScript

/-- The id and owner of a script, the counts that it declares, and its code
bytes. -/
structure Image where
  id : UInt16
  /-- The object or group that the script belongs to. -/
  owner : String
  argCount : UInt8
  localCount : UInt8
  instructionCount : Nat
  code : List UInt8
deriving DecidableEq, Repr

def Image.decode (image : Image) : Except DecodeError Decoded :=
  BehaviorScript.decode image.code image.instructionCount

structure Script where
  image : Image
  decoded : Decoded
  flow : FlowGraph
deriving Repr

namespace Script

def ofImage (image : Image) : Except DecodeError Script :=
  match image.decode with
  | .ok decoded => .ok ⟨image, decoded, FlowGraph.ofCode decoded.code⟩
  | .error e => .error e

def code (s : Script) : List Instruction := s.decoded.code

theorem decode_ofImage {image : Image} {s : Script} (h : ofImage image = .ok s) :
    image.decode = .ok s.decoded := by
  unfold ofImage at h
  split at h
  · next hdecode =>
    cases h
    exact hdecode
  · cases h

theorem flow_ofImage {image : Image} {s : Script} (h : ofImage image = .ok s) :
    s.flow = FlowGraph.ofCode s.code := by
  unfold ofImage at h
  split at h
  · cases h
    rfl
  · cases h

/-- The instructions that control can get to, with their indices. -/
def liveCode (s : Script) : List (Instruction × Nat) :=
  s.code.zipIdx.filter fun entry => s.flow.isReachable entry.2

end Script

structure Options where
  /-- Depths above this one are reported. -/
  maxStackDepth : Int
  /-- Report temporaries that are read before they are written. -/
  reportTempReads : Bool
  /-- The number of workers asked for; no answer depends on it. -/
  jobs : Nat
deriving DecidableEq, Repr

def Options.default : Options := ⟨256, true, 0⟩

end BehaviorScript
