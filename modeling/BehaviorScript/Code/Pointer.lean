/-!
# Pointers

A pointer is a byte. The three greatest values end the script; a smaller
one is the index of an instruction, if the script has that many. Hence a
script holds at most `maxInstructions`, so that no index is taken for an
end.
-/

namespace BehaviorScript

/-- How a script ends. -/
inductive Terminal where
  | error
  | returnFalse
  | returnTrue
deriving DecidableEq, Repr

def Terminal.label : Terminal → String
  | .error => "error"
  | .returnFalse => "false"
  | .returnTrue => "true"

/-- The number of pointer values that can name an instruction. -/
def maxInstructions : Nat := 253

/-- Where a pointer leads. -/
inductive Target where
  | instruction (index : Nat)
  | terminal (terminal : Terminal)
  /-- Behind the last instruction, and no end either. -/
  | invalid (pointer : UInt8)
deriving DecidableEq, Repr

namespace Target

/-- Where a pointer leads in a script of `count` instructions. -/
def resolve (pointer : UInt8) (count : Nat) : Target :=
  if pointer = 253 then .terminal .error
  else if pointer = 254 then .terminal .returnFalse
  else if pointer = 255 then .terminal .returnTrue
  else if pointer.toNat < count then .instruction pointer.toNat
  else .invalid pointer

def label : Target → String
  | .instruction index => toString index
  | .terminal t => t.label
  | .invalid pointer => s!"invalid({pointer.toNat})"

/-- The index of a target that is an instruction. -/
def index? : Target → Option Nat
  | .instruction index => some index
  | _ => none

end Target

end BehaviorScript
