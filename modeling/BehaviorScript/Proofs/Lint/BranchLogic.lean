import BehaviorScript.Proofs.Flow.Edges
import BehaviorScript.Proofs.Lint.Order
import BehaviorScript.Proofs.Lint.StackDepths

/-!
# Branch logic and the flow graph

The branch logic reads the pointers of an instruction as the bytes that
they are, the flow graph as places in its blocks. Both go through the
exits of the instruction in their order, so the findings at an
instruction and the edges that leave it can be laid side by side
(`filter_branchLogic`, `edgesFrom_ofCode`). What makes them agree is that
a pointer and its target are known by each other: no index of a script is
taken for an end (`resolve_eq_instruction_iff`), and different pointers
lead to different targets, in blocks as well (`edgeTarget_injective`).

An instruction that leads to itself is entered from itself, so it cannot
stand behind another one in its block (`isLoopHead_of_self_target`).
-/

namespace BehaviorScript

/-- The kind and the pointer of an edge that leads nowhere. -/
def Edge.stray? (e : Edge) : Option (EdgeKind × UInt8) :=
  match e.target with
  | .invalid pointer => some (e.kind, pointer)
  | _ => none

namespace Finding

/-- The side and the pointer of a finding on a pointer out of range. -/
def stray? (f : Finding) : Option (EdgeKind × UInt8) :=
  match f.defect with
  | .pointerOutOfRange outcome pointer _ =>
    some (if outcome then .whenTrue else .whenFalse, pointer)
  | _ => none

def isSelfLoop (f : Finding) : Bool :=
  match f.defect with
  | .selfLoop _ => true
  | _ => false

end Finding

/-! ## Pointers and targets -/

namespace Flow

theorem resolve_eq_instruction_iff {pointer : UInt8} {count a : Nat} (hcount : count ≤ 253)
    (ha : a < count) : Target.resolve pointer count = .instruction a ↔ pointer.toNat = a := by
  constructor
  · intro h
    unfold Target.resolve at h
    split_ifs at h
    exact Target.instruction.inj h
  · rintro rfl
    exact resolve_of_lt ha hcount

/-- A block adds to a target what the target has already said. -/
theorem edgeTarget_injective (runs : List (List Nat)) : Function.Injective (edgeTarget runs) := by
  intro target other h
  cases target <;> cases other <;> simp_all [edgeTarget]

end Flow

namespace FlowGraph

open BehaviorScript.Flow

variable {code : List Instruction}

/-- Control that stays at an instruction enters its block there. -/
theorem isLoopHead_of_self_target {e : Edge} {block : Nat} (he : e ∈ (ofCode code).edges)
    (htarget : e.target = .block block e.source) :
    e.isBack = true ∧ ∃ b ∈ (ofCode code).blocks, b.id = block
      ∧ b.instructions.head? = some e.source ∧ b.isLoopHead = true := by
  refine ⟨(isBack_iff he).mpr ⟨block, e.source, htarget, Nat.le_refl _⟩, ?_⟩
  obtain ⟨-, b, hb, -, hhead | ⟨hnext, -⟩⟩ := enters_at_head_or_next he htarget
  · have hmem := List.mem_of_getElem? hb
    obtain ⟨-, rfl⟩ := run_of_block hb
    refine ⟨b, hmem, rfl, hhead, (isLoopHead_iff hmem).mpr ?_⟩
    exact ⟨e, he, e.source, hhead, htarget, Nat.le_refl _⟩
  · omega

end FlowGraph

/-! ## One instruction -/

namespace Lint

open BehaviorScript.Flow

section

variable {code : List Instruction} {a : Nat} {i : Instruction}

/-- The findings at an instruction are those that its own pointers cause. -/
theorem filter_branchLogic (hi : code[a]? = some i) :
    (branchLogic code).filter (fun f => f.index = a)
      = i.exits.filterMap (outOfRange? code.length a) ++ selfLoop a i
        ++ sameBranches code.length a i := by
  have htable : branchLogic code = (code.mapIdx fun c j =>
      j.exits.filterMap (outOfRange? code.length c) ++ selfLoop c j
        ++ sameBranches code.length c j).flatten := by
    rw [List.mapIdx_eq_zipIdx_map]
    rfl
  have hindex : ∀ (c : Nat) (j : Instruction), ∀ f ∈ j.exits.filterMap (outOfRange? code.length c)
      ++ selfLoop c j ++ sameBranches code.length c j, f.index = c + 0 :=
    fun _ _ _ hf => index_of_mem_row hf
  rw [htable]
  exact filter_flatten_mapIdx hindex hi

theorem stray?_edge (exit : Bool × UInt8) :
    (edge code.length (runs code) a i exit).stray?
      = (outOfRange? code.length a exit).bind Finding.stray? := by
  unfold Edge.stray? outOfRange? edge
  cases Target.resolve exit.2 code.length <;> rfl

theorem filterMap_stray?_row (code : List Instruction) (a : Nat) (i : Instruction) :
    (i.exits.filterMap (outOfRange? code.length a) ++ selfLoop a i
        ++ sameBranches code.length a i).filterMap Finding.stray?
      = (i.exits.map (edge code.length (runs code) a i)).filterMap Edge.stray? := by
  have hself : (selfLoop a i).filterMap Finding.stray? = [] := by
    unfold selfLoop
    split <;> rfl
  have hsame : (sameBranches code.length a i).filterMap Finding.stray? = [] := by
    unfold sameBranches
    split <;> rfl
  rw [List.filterMap_append, List.filterMap_append, hself, hsame, List.append_nil, List.append_nil,
    List.filterMap_filterMap, List.filterMap_map]
  exact List.filterMap_congr fun exit _ => (stray?_edge exit).symm

theorem countP_isSelfLoop_row (count a : Nat) (i : Instruction) :
    (i.exits.filterMap (outOfRange? count a) ++ selfLoop a i
        ++ sameBranches count a i).countP Finding.isSelfLoop
      = if i.exits.any fun exit => exit.2.toNat = a then 1 else 0 := by
  have hstray : (i.exits.filterMap (outOfRange? count a)).countP Finding.isSelfLoop = 0 := by
    refine List.countP_eq_zero.mpr fun f hf => ?_
    obtain ⟨exit, -, hfound⟩ := List.mem_filterMap.mp hf
    obtain ⟨pointer, -, rfl⟩ := outOfRange?_eq_some_iff.mp hfound
    exact Bool.false_ne_true
  have hsame : (sameBranches count a i).countP Finding.isSelfLoop = 0 := by
    unfold sameBranches
    split <;> rfl
  rw [List.countP_append, List.countP_append, hstray, hsame, Nat.zero_add, Nat.add_zero, selfLoop]
  split <;> rfl

theorem exists_self_target_iff (hcount : code.length ≤ 253) (hi : code[a]? = some i) :
    (∃ e ∈ (FlowGraph.ofCode code).edgesFrom a, ∃ block, e.target = .block block a) ↔
      ∃ exit ∈ i.exits, exit.2.toNat = a := by
  have ha : a < code.length := (List.getElem?_eq_some_iff.mp hi).1
  rw [FlowGraph.edgesFrom_ofCode hi]
  simp only [List.mem_map, exists_exists_and_eq_and, exists_edge_target_iff,
    resolve_eq_instruction_iff hcount ha]

theorem edges_agree_iff (hi : code[a]? = some i) :
    (∃ e e', (FlowGraph.ofCode code).edgesFrom a = [e, e'] ∧ e.target = e'.target) ↔
      i.flow = .branches ∧ i.truePointer = i.falsePointer := by
  rw [FlowGraph.edgesFrom_ofCode hi]
  have htarget : ∀ exit, (edge code.length (runs code) a i exit).target
      = edgeTarget (runs code) (Target.resolve exit.2 code.length) := fun _ => rfl
  unfold Instruction.exits
  cases i.flow with
  | continues => simp
  | branches =>
      constructor
      · rintro ⟨e, e', hedges, hsame⟩
        obtain ⟨rfl, hrest⟩ := List.cons.inj hedges
        obtain ⟨rfl, -⟩ := List.cons.inj hrest
        rw [htarget, htarget] at hsame
        exact ⟨rfl, Target.resolve_injective code.length (edgeTarget_injective _ hsame)⟩
      · rintro ⟨-, hsame⟩
        refine ⟨_, _, rfl, ?_⟩
        rw [htarget, htarget, hsame]

end

/-! ## The pass and the graph -/

/-- The findings on instruction `a` say what the edges that leave it say. -/
structure AgreesAt (g : FlowGraph) (findings : List Finding) (a : Nat) : Prop where
  /-- One finding for each edge that leads nowhere, in the same order. -/
  outOfRange : (findings.filter fun f => f.index = a).filterMap Finding.stray?
    = (g.edgesFrom a).filterMap Edge.stray?
  selfLoop : (findings.filter fun f => f.index = a).countP Finding.isSelfLoop = 1 ↔
    ∃ e ∈ g.edgesFrom a, ∃ block, e.target = .block block a
  selfLoop_le : (findings.filter fun f => f.index = a).countP Finding.isSelfLoop ≤ 1
  loopHead : ∀ e ∈ g.edgesFrom a, ∀ block, e.target = .block block a →
    e.isBack = true ∧ ∃ b ∈ g.blocks, b.id = block
      ∧ b.instructions.head? = some a ∧ b.isLoopHead = true
  sameBranches : (∃ f ∈ findings, f.index = a ∧ f.isSameBranches = true) ↔
    ∃ e e', g.edgesFrom a = [e, e'] ∧ e.target = e'.target

theorem agreesAt_ofCode {code : List Instruction} (hcount : code.length ≤ 253) {a : Nat}
    (ha : a < code.length) : AgreesAt (FlowGraph.ofCode code) (branchLogic code) a := by
  have hi := List.getElem?_eq_getElem ha
  have hself := countP_isSelfLoop_row code.length a code[a]
  rw [← filter_branchLogic hi] at hself
  refine ⟨?_, ?_, ?_, ?_, ?_⟩
  · rw [filter_branchLogic hi, filterMap_stray?_row, FlowGraph.edgesFrom_ofCode hi]
  · have hany : (code[a].exits.any fun exit => exit.2.toNat = a) = true ↔
        ∃ exit ∈ code[a].exits, exit.2.toNat = a := by
      simp only [List.any_eq_true, decide_eq_true_eq]
    rw [hself, exists_self_target_iff hcount hi, ← hany]
    split <;> simp_all
  · rw [hself]
    split <;> omega
  · intro e he block htarget
    obtain ⟨hmem, hsource⟩ := List.mem_filter.mp he
    obtain rfl := of_decide_eq_true hsource
    exact FlowGraph.isLoopHead_of_self_target hmem htarget
  · rw [sameBranches_mem_iff hi, edges_agree_iff hi]

/-- The branch logic and the flow graph of a script say the same of each
of its instructions. -/
theorem branchLogic_agreesAt_flow {image : Image} {s : Script} (hs : Script.ofImage image = .ok s)
    (options : Options) :
    ((s.lint options).filter fun f => f.category = .logicError).Perm (branchLogic s.code)
      ∧ ∀ a < s.code.length, AgreesAt s.flow (branchLogic s.code) a := by
  refine ⟨filter_lint_perm hs options .logicError, fun a ha => ?_⟩
  rw [Script.flow_ofImage hs]
  exact agreesAt_ofCode (StackBalance.length_le_of_ofImage hs) ha

/-- Waits at an instruction with a pointer that leads nowhere; the call
that is never reached ends the same way whatever its outcome. -/
def waitAndStray : Image :=
  ⟨0x1000, "lamp", 0, 0, 2, [0x11, 0, 0, 200, 0, 0, 0, 0, 0, 0, 0, 0,
    0x01, 0x10, 253, 253, 0, 0, 0, 0, 0, 0, 0, 0]⟩

theorem branchLogic_agreesAt_flow_waitAndStray :
    ∃ s, Script.ofImage waitAndStray = .ok s
      ∧ ((branchLogic s.code).filter fun f => f.index = 0).filterMap Finding.stray?
        = [(.whenFalse, 200)]
      ∧ (∃ b ∈ s.flow.blocks, b.instructions.head? = some 0 ∧ b.isLoopHead = true)
      ∧ ∃ f ∈ branchLogic s.code, f.index = 1 ∧ f.isSameBranches = true := by
  obtain ⟨s, hs⟩ : ∃ s, Script.ofImage waitAndStray = .ok s := ⟨_, rfl⟩
  obtain ⟨-, hagree⟩ := branchLogic_agreesAt_flow hs Options.default
  have hedges : s.flow.edgesFrom 0 = [⟨0, .block 0 0, .whenTrue, true⟩,
        ⟨0, .invalid 200, .whenFalse, false⟩]
      ∧ s.flow.edgesFrom 1 = [⟨1, .terminal .error, .whenTrue, false⟩,
        ⟨1, .terminal .error, .whenFalse, false⟩]
      ∧ s.code.length = 2 := by
    cases hs
    decide +kernel
  obtain ⟨hwait, hcall, hlength⟩ := hedges
  have hfirst := hagree 0 (by omega)
  have hsecond := hagree 1 (by omega)
  refine ⟨s, hs, ?_, ?_, hsecond.sameBranches.mpr ⟨_, _, hcall, rfl⟩⟩
  · rw [hfirst.outOfRange, hwait]
    rfl
  · have hself := hfirst.loopHead ⟨0, .block 0 0, .whenTrue, true⟩ (by simp [hwait]) 0 rfl
    obtain ⟨-, b, hb, -, hhead, hloop⟩ := hself
    exact ⟨b, hb, hhead, hloop⟩

end Lint

end BehaviorScript
