import BehaviorScript.Lint.StackBalance
import BehaviorScript.Lint.VariableUsage

/-!
# Linting

Four passes go over a script. Those for the stack and for the variables
carry a state along and have their own modules. Here are the two that look
at each instruction alone, dead code and branch logic, and all four in one
list.
-/

namespace BehaviorScript

namespace Lint

/-! ## Dead code -/

/-- One finding for each instruction that control cannot get to. -/
def deadCode (s : Script) : List Finding :=
  (s.code.zipIdx.filter fun entry => !s.flow.isReachable entry.2).map fun entry =>
    ⟨entry.2, .unreachable entry.1⟩

/-! ## Branch logic -/

def outOfRange? (count index : Nat) (exit : Bool × UInt8) : Option Finding :=
  match Target.resolve exit.2 count with
  | .invalid pointer => some ⟨index, .pointerOutOfRange exit.1 pointer (count - 1)⟩
  | _ => none

def selfLoop (index : Nat) (i : Instruction) : List Finding :=
  if i.exits.any fun exit => exit.2.toNat = index then [⟨index, .selfLoop i⟩] else []

def sameBranches (count index : Nat) (i : Instruction) : List Finding :=
  if i.flow = .branches && i.truePointer = i.falsePointer then
    [⟨index, .sameBranches i (Target.resolve i.truePointer count)⟩]
  else []

/-- Pointers in use that cannot be meant: out of range, back to the
instruction itself, or both to the same place. Instructions that control
cannot get to are looked at as well. -/
def branchLogic (code : List Instruction) : List Finding :=
  code.zipIdx.flatMap fun (i, index) =>
    i.exits.filterMap (outOfRange? code.length index)
      ++ selfLoop index i ++ sameBranches code.length index i

/-! ## All passes -/

/-- The findings of the four passes, one pass after another. -/
def passes (options : Options) (s : Script) : List Finding :=
  deadCode s ++ stackBalance options.maxStackDepth s.code ++ branchLogic s.code
    ++ variableUsage options s

end Lint

/-- The findings on a script in their order. -/
def Script.lint (options : Options) (s : Script) : List Finding :=
  (Lint.passes options s).mergeSort Finding.notAfter

end BehaviorScript
