/-!
# Expression operators

What an operator does with the left and right side of an expression, and
with the found-action stack.
-/

namespace BehaviorScript

inductive Operator where
  | greaterThan
  | lessThan
  | equal
  | add
  | subtract
  | assign
  | multiply
  | divide
  | isFlagSet
  | setFlag
  | clearFlag
  | incrementAndLess
  | modulo
  | bitAnd
  | greaterOrEqual
  | lessOrEqual
  | notEqual
  | decrementAndGreater
  | push
  | pop
  | unknown (code : UInt8)
deriving DecidableEq, Repr

inductive OperatorKind where
  /-- Tests its sides and branches. -/
  | comparison
  /-- Writes the left side and continues. -/
  | assignment
  /-- Writes the left side, then branches on the result. -/
  | modifyAndTest
deriving DecidableEq, Repr

namespace Operator

/-- The known operators; the place of an operator is its code. -/
def all : List Operator :=
  [ .greaterThan, .lessThan, .equal, .add, .subtract, .assign, .multiply, .divide,
    .isFlagSet, .setFlag, .clearFlag, .incrementAndLess, .modulo, .bitAnd,
    .greaterOrEqual, .lessOrEqual, .notEqual, .decrementAndGreater, .push, .pop ]

def ofCode (code : UInt8) : Operator := (all[code.toNat]?).getD (.unknown code)

/-- The code that an operator is encoded with. -/
def code : Operator → UInt8
  | .unknown code => code
  | op => UInt8.ofNat (all.idxOf op)

/-- An unknown operator is of no kind. -/
def kind? : Operator → Option OperatorKind
  | .greaterThan | .lessThan | .equal | .isFlagSet | .greaterOrEqual | .lessOrEqual
  | .notEqual => some .comparison
  | .add | .subtract | .assign | .multiply | .divide | .setFlag | .clearFlag | .modulo
  | .bitAnd | .push | .pop => some .assignment
  | .incrementAndLess | .decrementAndGreater => some .modifyAndTest
  | .unknown _ => none

def symbol : Operator → String
  | .greaterThan => ">"
  | .lessThan => "<"
  | .equal => "=="
  | .add => "+="
  | .subtract => "-="
  | .assign => ":="
  | .multiply => "*="
  | .divide => "/="
  | .isFlagSet => "flag set?"
  | .setFlag => "set flag"
  | .clearFlag => "clear flag"
  | .incrementAndLess => "++ and <"
  | .modulo => "%="
  | .bitAnd => "&="
  | .greaterOrEqual => ">="
  | .lessOrEqual => "<="
  | .notEqual => "!="
  | .decrementAndGreater => "-- and >"
  | .push => "push"
  | .pop => "pop"
  | .unknown _ => "?"

def readsLeft : Operator → Bool
  | .assign | .pop | .unknown _ => false
  | _ => true

def writesLeft (op : Operator) : Bool :=
  match op.kind? with
  | some .assignment => op ≠ .push
  | some .modifyAndTest => true
  | _ => false

def readsRight : Operator → Bool
  | .push | .pop | .unknown _ => false
  | _ => true

/-- Net effect on the found-action stack. -/
def stackEffect : Operator → Int
  | .push => 1
  | .pop => -1
  | _ => 0

/-- Leaves through one pointer or the other. An operator that is not
known to continue is taken to branch, so that no way out is hidden. -/
def branches (op : Operator) : Bool := op.kind? ≠ some .assignment

end Operator

end BehaviorScript
