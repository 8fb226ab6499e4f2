import BehaviorScript.Code.Instruction
import Mathlib.Tactic.SplitIfs

/-!
# Paths of control

Control flow of a script without any blocks: `Flow.Step` follows one
pointer that an instruction uses to the instruction it resolves to, and
`Flow.Path` strings such steps together from the first instruction on.
The flow graph and the passes over it are held against these two.
-/

namespace BehaviorScript

namespace Flow

/-- Control can go from instruction `a` to instruction `b`: through the
true pointer or, where `a` branches, through the false pointer. -/
def Step (code : List Instruction) (a b : Nat) : Prop :=
  ∃ i, code[a]? = some i
    ∧ (Target.resolve i.truePointer code.length = .instruction b
      ∨ i.flow = .branches ∧ Target.resolve i.falsePointer code.length = .instruction b)

/-- Control starts at the first instruction, runs `before` in this order
and is then about to run `i`. -/
inductive Path (code : List Instruction) : List Nat → Nat → Prop
  | start : Path code [] 0
  | step {before : List Nat} {a b : Nat} :
      Path code before a → Step code a b → Path code (before ++ [a]) b

/-- Some path leads to instruction `i`. -/
def Reachable (code : List Instruction) (i : Nat) : Prop := ∃ before, Path code before i

/-! ## Pointers in use -/

theorem resolve_lt {pointer : UInt8} {count index : Nat}
    (h : Target.resolve pointer count = .instruction index) : index < count := by
  unfold Target.resolve at h
  split_ifs at h with h253 h254 h255 hlt
  obtain rfl := Target.instruction.inj h
  exact hlt

theorem mem_exits_iff {i : Instruction} {exit : Bool × UInt8} :
    exit ∈ i.exits ↔
      exit = (true, i.truePointer) ∨ i.flow = .branches ∧ exit = (false, i.falsePointer) := by
  unfold Instruction.exits
  cases hflow : i.flow <;> simp

theorem mem_successors_iff {i : Instruction} {count b : Nat} :
    b ∈ i.successors count ↔ ∃ exit ∈ i.exits, Target.resolve exit.2 count = .instruction b := by
  have hindex : ∀ t : Target, t.index? = some b ↔ t = .instruction b := by
    intro t
    cases t <;> simp [Target.index?]
  simp only [Instruction.successors, Instruction.targets, List.mem_filterMap, List.mem_map]
  constructor
  · rintro ⟨t, ⟨exit, hexit, rfl⟩, ht⟩
    exact ⟨exit, hexit, (hindex _).mp ht⟩
  · rintro ⟨exit, hexit, ht⟩
    exact ⟨_, ⟨exit, hexit, rfl⟩, (hindex _).mpr ht⟩

/-! ## Steps -/

theorem step_iff_exit {code : List Instruction} {a b : Nat} :
    Step code a b ↔ ∃ i, code[a]? = some i
      ∧ ∃ exit ∈ i.exits, Target.resolve exit.2 code.length = .instruction b := by
  constructor
  · rintro ⟨i, hi, htrue | ⟨hflow, hfalse⟩⟩
    · exact ⟨i, hi, _, mem_exits_iff.mpr (Or.inl rfl), htrue⟩
    · exact ⟨i, hi, _, mem_exits_iff.mpr (Or.inr ⟨hflow, rfl⟩), hfalse⟩
  · rintro ⟨i, hi, exit, hexit, htarget⟩
    rcases mem_exits_iff.mp hexit with rfl | ⟨hflow, rfl⟩
    · exact ⟨i, hi, Or.inl htarget⟩
    · exact ⟨i, hi, Or.inr ⟨hflow, htarget⟩⟩

theorem step_iff_successor {code : List Instruction} {a b : Nat} :
    Step code a b ↔ ∃ i, code[a]? = some i ∧ b ∈ i.successors code.length := by
  simp only [step_iff_exit, mem_successors_iff]

theorem Step.source_lt {code : List Instruction} {a b : Nat} (h : Step code a b) :
    a < code.length := by
  obtain ⟨i, hi, -⟩ := h
  exact (List.getElem?_eq_some_iff.mp hi).1

theorem Step.target_lt {code : List Instruction} {a b : Nat} (h : Step code a b) :
    b < code.length := by
  obtain ⟨i, -, exit, -, htarget⟩ := step_iff_exit.mp h
  exact resolve_lt htarget

/-! ## Reachable instructions -/

theorem reachable_zero (code : List Instruction) : Reachable code 0 := ⟨[], Path.start⟩

theorem Reachable.step {code : List Instruction} {a b : Nat} (ha : Reachable code a)
    (h : Step code a b) : Reachable code b := by
  obtain ⟨before, hpath⟩ := ha
  exact ⟨before ++ [a], hpath.step h⟩

end Flow

end BehaviorScript
