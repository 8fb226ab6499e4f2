import BehaviorScript.Flow.Explore
import BehaviorScript.Lint.Finding

/-!
# Stack balance

The depth of the found-action stack is carried along the flow of control
from an empty stack at the first instruction. Each instruction is visited
once, with the depth of the first arrival at it (`StackBalance.visits`).
Later arrivals at another depth are a mismatch; the first one is
reported. A depth below zero is reported and carried on.
-/

namespace BehaviorScript.Lint

namespace StackBalance

/-- The arrivals that instruction `index` leads to when it is entered at
`depth`. -/
def arrivals (code : List Instruction) (index : Nat) (depth : Int) : List (Nat × Int) :=
  match code[index]? with
  | some i => (i.successors code.length).map fun next => (next, depth + i.stackEffect)
  | none => []

/-- The instructions in the order of their visits, each with the depth
before it. -/
def visits (code : List Instruction) : List (Nat × Int) :=
  explore (List.range code.length) (arrivals code) 0 0

/-- What is wrong with the depth behind an instruction. -/
def depthFindings (code : List Instruction) (limit : Int) (visit : Nat × Int) : List Finding :=
  match code[visit.1]? with
  | some i =>
    let after := visit.2 + i.stackEffect
    (if after < 0 then [⟨visit.1, .underflow i visit.2⟩] else [])
      ++ (if limit < after then [⟨visit.1, .tooDeep after limit⟩] else [])
  | none => []

/-- The first arrival at a depth other than the one visited. -/
def mismatch? (arrived : List (Nat × Int)) (visit : Nat × Int) : Option Finding :=
  match arrived.find? fun a => a.1 = visit.1 && a.2 ≠ visit.2 with
  | some a => some ⟨visit.1, .depthMismatch visit.2 a.2⟩
  | none => none

end StackBalance

/-- The findings on the depths, then those on mismatches, each in the order
of the visits. A pass that reported a mismatch as it arrived would list the
same findings in another order; `Script.lint` sorts them. -/
def stackBalance (limit : Int) (code : List Instruction) : List Finding :=
  let visits := StackBalance.visits code
  let arrived := visits.flatMap fun visit => StackBalance.arrivals code visit.1 visit.2
  visits.flatMap (StackBalance.depthFindings code limit)
    ++ visits.filterMap (StackBalance.mismatch? arrived)

end BehaviorScript.Lint
