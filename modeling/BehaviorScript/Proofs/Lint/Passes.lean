import BehaviorScript.Lint.Passes
import BehaviorScript.Profile.Basic
import BehaviorScript.Proofs.Lint.StackBalance
import BehaviorScript.Proofs.Lint.VariableUsage

/-!
# The four passes side by side

Each pass reports findings of its own category (`category_of_mem_pass`),
so that the joint list falls apart into the four passes again
(`filter_lint_perm`): what is said of a category is said of its pass.

Two of the passes stay with the code that control can get to, and one
reports all of the rest. The branch logic looks at every pointer in use,
as the edges of the flow graph do; that it finds the pointers that lead
nowhere among them is a count of the same pointers
(`countP_outOfRange`).
-/

namespace BehaviorScript

/-- A pointer is known by where it leads. -/
theorem Target.resolve_injective (count : Nat) :
    Function.Injective fun pointer => Target.resolve pointer count := by
  intro p q h
  simp only [resolve] at h
  split_ifs at h <;> simp_all [UInt8.toNat_inj]

def Target.isInvalid : Target → Bool
  | .invalid _ => true
  | _ => false

namespace Finding

def isOutOfRange (f : Finding) : Bool :=
  match f.defect with
  | .pointerOutOfRange _ _ _ => true
  | _ => false

def isSameBranches (f : Finding) : Bool :=
  match f.defect with
  | .sameBranches _ _ => true
  | _ => false

theorem category_of_isOutOfRange {f : Finding} (h : f.isOutOfRange = true) :
    f.category = .logicError := by
  obtain ⟨a, defect⟩ := f
  cases defect <;> simp_all [isOutOfRange, category, Defect.category]

theorem category_of_isSameBranches {f : Finding} (h : f.isSameBranches = true) :
    f.category = .logicError := by
  obtain ⟨a, defect⟩ := f
  cases defect <;> simp_all [isSameBranches, category, Defect.category]

end Finding

namespace Lint

open BehaviorScript.Flow

/-- The pass that looks for a category. -/
def pass (options : Options) (s : Script) : Category → List Finding
  | .deadCode => deadCode s
  | .stackBalance => stackBalance options.maxStackDepth s.code
  | .logicError => branchLogic s.code
  | .variableUsage => variableUsage options s

/-! ## Branch logic -/

section

variable {code : List Instruction}

theorem outOfRange?_eq_some_iff {count a : Nat} {exit : Bool × UInt8} {f : Finding} :
    outOfRange? count a exit = some f ↔ ∃ pointer, Target.resolve exit.2 count = .invalid pointer
      ∧ f = ⟨a, .pointerOutOfRange exit.1 pointer (count - 1)⟩ := by
  unfold outOfRange?
  cases Target.resolve exit.2 count <;> simp [eq_comm]

theorem mem_selfLoop_iff {a : Nat} {i : Instruction} {f : Finding} :
    f ∈ selfLoop a i ↔ (∃ exit ∈ i.exits, exit.2.toNat = a) ∧ f = ⟨a, .selfLoop i⟩ := by
  unfold selfLoop
  split <;> simp_all

theorem mem_sameBranches_iff {count a : Nat} {i : Instruction} {f : Finding} :
    f ∈ sameBranches count a i ↔ (i.flow = .branches ∧ i.truePointer = i.falsePointer)
      ∧ f = ⟨a, .sameBranches i (Target.resolve i.truePointer count)⟩ := by
  unfold sameBranches
  split <;> simp_all

theorem mem_branchLogic_iff {f : Finding} :
    f ∈ branchLogic code ↔ ∃ a i, code[a]? = some i
      ∧ ((∃ exit ∈ i.exits, ∃ pointer, Target.resolve exit.2 code.length = .invalid pointer
          ∧ f = ⟨a, .pointerOutOfRange exit.1 pointer (code.length - 1)⟩)
        ∨ (∃ exit ∈ i.exits, exit.2.toNat = a) ∧ f = ⟨a, .selfLoop i⟩
        ∨ (i.flow = .branches ∧ i.truePointer = i.falsePointer)
          ∧ f = ⟨a, .sameBranches i (Target.resolve i.truePointer code.length)⟩) := by
  simp only [branchLogic, List.mem_flatMap, List.mem_append, List.mem_filterMap,
    outOfRange?_eq_some_iff, mem_selfLoop_iff, mem_sameBranches_iff, or_assoc, Prod.exists,
    List.mem_zipIdx_iff_getElem?]
  exact exists_comm

theorem getElem?_of_mem_branchLogic {f : Finding} (hf : f ∈ branchLogic code) :
    (∃ i, code[f.index]? = some i) ∧ f.category = .logicError := by
  obtain ⟨a, i, hi, ⟨_, _, _, _, rfl⟩ | ⟨-, rfl⟩ | ⟨-, rfl⟩⟩ := mem_branchLogic_iff.mp hf
  · exact ⟨⟨i, hi⟩, rfl⟩
  · exact ⟨⟨i, hi⟩, rfl⟩
  · exact ⟨⟨i, hi⟩, rfl⟩

theorem sameBranches_mem_iff {a : Nat} {i : Instruction} (hi : code[a]? = some i) :
    (∃ f ∈ branchLogic code, f.index = a ∧ f.isSameBranches = true) ↔
      i.flow = .branches ∧ i.truePointer = i.falsePointer := by
  constructor
  · rintro ⟨f, hf, rfl, hsame⟩
    obtain ⟨b, j, hj, ⟨_, _, _, _, rfl⟩ | ⟨_, rfl⟩ | ⟨hflow, rfl⟩⟩ := mem_branchLogic_iff.mp hf
    · cases hsame
    · cases hsame
    · obtain rfl := Option.some.inj (hi.symm.trans hj)
      exact hflow
  · intro hflow
    exact ⟨_, mem_branchLogic_iff.mpr ⟨a, i, hi, Or.inr (Or.inr ⟨hflow, rfl⟩)⟩, rfl, rfl⟩

theorem countP_outOfRange_at (count a : Nat) (i : Instruction) :
    (i.exits.filterMap (outOfRange? count a) ++ selfLoop a i
      ++ sameBranches count a i).countP Finding.isOutOfRange
        = i.exits.countP fun exit => (Target.resolve exit.2 count).isInvalid := by
  have hself : (selfLoop a i).countP Finding.isOutOfRange = 0 := by
    unfold selfLoop
    split <;> rfl
  have hsame : (sameBranches count a i).countP Finding.isOutOfRange = 0 := by
    unfold sameBranches
    split <;> rfl
  rw [List.countP_append, List.countP_append, hself, hsame, List.countP_filterMap]
  refine List.countP_congr fun exit _ => ?_
  unfold outOfRange?
  cases Target.resolve exit.2 count <;> simp [Target.isInvalid, Finding.isOutOfRange]

theorem countP_invalid_at (count : Nat) (runs : List (List Nat)) (a : Nat) (i : Instruction) :
    ((i.exits.map (edge count runs a i)).countP fun e => match e.target with
      | .invalid _ => true
      | _ => false)
        = i.exits.countP fun exit => (Target.resolve exit.2 count).isInvalid := by
  rw [List.countP_map]
  refine List.countP_congr fun exit _ => ?_
  simp only [Function.comp_apply, edge]
  cases Target.resolve exit.2 count <;> simp [edgeTarget, Target.isInvalid]

end

/-! ## Dead code and live code -/

theorem nodup_index_deadCode (s : Script) : ((deadCode s).map Finding.index).Nodup := by
  rw [deadCode, List.map_map]
  exact (pairwise_filter_zipIdx s.code _).imp Nat.ne_of_lt

theorem visit_of_mem_stackBalance {limit : Int} {code : List Instruction} {f : Finding}
    (hf : f ∈ stackBalance limit code) :
    (∃ d, (f.index, d) ∈ StackBalance.visits code) ∧ f.category = .stackBalance := by
  obtain ⟨⟨a, d⟩, hvisit, hdepth | hmismatch⟩ := StackBalance.mem_stackBalance_iff.mp hf
  · obtain ⟨i, -, ⟨-, rfl⟩ | ⟨-, rfl⟩⟩ := StackBalance.mem_depthFindings_iff.mp hdepth
    · exact ⟨⟨d, hvisit⟩, rfl⟩
    · exact ⟨⟨d, hvisit⟩, rfl⟩
  · obtain ⟨e, -, -, rfl⟩ := StackBalance.mismatch?_eq_some hmismatch
    exact ⟨⟨d, hvisit⟩, rfl⟩

theorem live_of_mem_stackBalance {limit : Int} {code : List Instruction} {f : Finding}
    (hf : f ∈ stackBalance limit code) : f.index < code.length ∧ Reachable code f.index := by
  obtain ⟨⟨d, hvisit⟩, -⟩ := visit_of_mem_stackBalance hf
  exact ⟨StackBalance.lt_of_visit hvisit, StackBalance.reachable_of_visit hvisit⟩

section

variable {image : Image} {s : Script} (hs : Script.ofImage image = .ok s)
include hs

/-- The pointers out of range are the edges that lead nowhere. -/
theorem countP_outOfRange :
    (branchLogic s.code).countP Finding.isOutOfRange = s.invalidPointers := by
  rw [Script.invalidPointers, Script.flow_ofImage hs]
  simp only [FlowGraph.ofCode, branchLogic, edges, List.mapIdx_eq_zipIdx_map, ← List.flatMap_def,
    List.countP_flatMap]
  refine congrArg List.sum (List.map_congr_left fun entry _ => ?_)
  exact (countP_outOfRange_at _ entry.2 entry.1).trans (countP_invalid_at _ _ entry.2 entry.1).symm

theorem mem_deadCode_iff {f : Finding} :
    f ∈ deadCode s ↔
      ∃ a i, s.code[a]? = some i ∧ ¬Reachable s.code a ∧ f = ⟨a, .unreachable i⟩ := by
  simp only [deadCode, List.mem_map, List.mem_filter, Prod.exists, List.mem_zipIdx_iff_getElem?,
    Bool.not_eq_true', ← Bool.not_eq_true, Script.flow_ofImage hs, FlowGraph.isReachable_iff]
  constructor
  · rintro ⟨i, a, ⟨hi, hdead⟩, rfl⟩
    refine ⟨a, i, hi, fun hreach => hdead ⟨?_, hreach⟩, rfl⟩
    exact (List.getElem?_eq_some_iff.mp hi).1
  · rintro ⟨a, i, hi, hdead, rfl⟩
    exact ⟨i, a, ⟨hi, fun hreach => hdead hreach.2⟩, rfl⟩

theorem dead_mem_iff {a : Nat} :
    a ∈ (deadCode s).map Finding.index ↔ a < s.code.length ∧ ¬Reachable s.code a := by
  simp only [List.mem_map, mem_deadCode_iff hs]
  constructor
  · rintro ⟨f, ⟨b, i, hi, hdead, rfl⟩, rfl⟩
    exact ⟨(List.getElem?_eq_some_iff.mp hi).1, hdead⟩
  · rintro ⟨ha, hdead⟩
    exact ⟨_, ⟨a, s.code[a], List.getElem?_eq_getElem ha, hdead, rfl⟩, rfl⟩

theorem length_deadCode : (deadCode s).length = s.deadCount := by
  have hnodup : s.flow.deadInstructions.Nodup :=
    (pairwise_filter_zipIdx s.flow.reachable _).imp Nat.ne_of_lt
  have hperm : ((deadCode s).map Finding.index).Perm s.flow.deadInstructions := by
    rw [List.perm_ext_iff_of_nodup (nodup_index_deadCode s) hnodup]
    intro a
    rw [dead_mem_iff hs, Script.flow_ofImage hs, FlowGraph.mem_deadInstructions_iff]
  rw [Script.deadCount, ← hperm.length_eq, List.length_map]

theorem live_of_mem_variableUsage {options : Options} {f : Finding}
    (hf : f ∈ variableUsage options s) : f.index < s.code.length ∧ Reachable s.code f.index := by
  have hruns : ∀ {e a}, VariableUsage.RunsAt s.code e a →
      a < s.code.length ∧ Reachable s.code a := by
    rintro e a ⟨hreach, i, hi, -⟩
    exact ⟨(List.getElem?_eq_some_iff.mp hi).1, hreach⟩
  cases (VariableUsage.mem_variableUsage_iff hs).mp hf with
  | readBeforeWrite hread =>
      obtain ⟨e, he, -⟩ := hread.1
      exact hruns he
  | neverRead hwrite =>
      obtain ⟨e, he, -⟩ := hwrite.1
      exact hruns he
  | slotOutOfRange huse =>
      obtain ⟨e, he, -⟩ | ⟨e, he, -⟩ := huse.1
      · exact hruns he
      · exact hruns he

/-! ## By category -/

omit hs in
theorem lint_perm (options : Options) (s : Script) : (s.lint options).Perm (passes options s) :=
  List.mergeSort_perm _ _

theorem category_of_mem_pass {options : Options} {category : Category} {f : Finding}
    (hf : f ∈ pass options s category) : f.category = category := by
  cases category with
  | deadCode =>
      obtain ⟨a, i, -, -, rfl⟩ := (mem_deadCode_iff hs).mp hf
      rfl
  | stackBalance => exact (visit_of_mem_stackBalance hf).2
  | logicError => exact (getElem?_of_mem_branchLogic hf).2
  | variableUsage => cases (VariableUsage.mem_variableUsage_iff hs).mp hf <;> rfl

theorem filter_pass (options : Options) (own category : Category) :
    ((pass options s own).filter fun f => f.category = category)
      = if own = category then pass options s own else [] := by
  split
  · next heq =>
    refine List.filter_eq_self.mpr fun f hf => ?_
    simpa [category_of_mem_pass hs hf] using heq
  · next hne =>
    refine List.filter_eq_nil_iff.mpr fun f hf => ?_
    simpa [category_of_mem_pass hs hf] using hne

/-- The findings of a category are those of its pass. -/
theorem filter_lint_perm (options : Options) (category : Category) :
    ((s.lint options).filter fun f => f.category = category).Perm (pass options s category) := by
  have hpasses : passes options s = pass options s .deadCode ++ pass options s .stackBalance
      ++ pass options s .logicError ++ pass options s .variableUsage := rfl
  refine ((lint_perm options s).filter _).trans ?_
  rw [hpasses, List.filter_append, List.filter_append, List.filter_append, filter_pass hs,
    filter_pass hs, filter_pass hs, filter_pass hs]
  cases category <;> simp

theorem mem_pass_iff {options : Options} {category : Category} {f : Finding} :
    f ∈ pass options s category ↔ f ∈ s.lint options ∧ f.category = category := by
  rw [← (filter_lint_perm hs options category).mem_iff, List.mem_filter, decide_eq_true_eq]

theorem countP_lint {options : Options} {category : Category} {test : Finding → Bool}
    (htest : ∀ f, test f = true → f.category = category) :
    (s.lint options).countP test = (pass options s category).countP test := by
  rw [← (filter_lint_perm hs options category).countP_eq, List.countP_filter]
  refine List.countP_congr fun f _ => ?_
  simpa using htest f

theorem index_lt_of_mem_lint {options : Options} {f : Finding} (hf : f ∈ s.lint options) :
    f.index < s.code.length := by
  have hpass : f ∈ pass options s f.category := (mem_pass_iff hs).mpr ⟨hf, rfl⟩
  cases hcategory : f.category with
  | deadCode =>
      rw [hcategory] at hpass
      exact ((dead_mem_iff hs).mp (List.mem_map_of_mem hpass)).1
  | stackBalance =>
      rw [hcategory] at hpass
      exact (live_of_mem_stackBalance hpass).1
  | logicError =>
      rw [hcategory] at hpass
      obtain ⟨⟨i, hi⟩, -⟩ := getElem?_of_mem_branchLogic hpass
      exact (List.getElem?_eq_some_iff.mp hi).1
  | variableUsage =>
      rw [hcategory] at hpass
      exact (live_of_mem_variableUsage hs hpass).1

end

end Lint

end BehaviorScript
