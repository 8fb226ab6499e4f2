import BehaviorScript.Proofs.Flow.Loops
import BehaviorScript.Proofs.Lint.Passes

/-!
# Dead code has no influence

Instructions that control cannot get to take part in the flow graph: their
pointers cut blocks in two, link them and make back edges and loop heads.
What is found out about the rest does not depend on them. Two scripts that
are the same wherever control gets to (`SameLiveCode`) have the same paths
(`SameLiveCode.path_iff`), and the results are held against paths, not
against blocks: the marks, the loops, and the depths of the stack, which
are carried along by visits of live code only (`SameLiveCode.visits_eq`).
-/

namespace BehaviorScript

/-- A list in ascending order is known by its members. -/
theorem eq_of_ascending {α : Type} (place : α → Nat) {l l' : List α}
    (hl : l.Pairwise fun x y => place x < place y) (hl' : l'.Pairwise fun x y => place x < place y)
    (hmem : ∀ x, x ∈ l ↔ x ∈ l') : l = l' := by
  have hnodup : ∀ {l : List α}, (l.Pairwise fun x y => place x < place y) → l.Nodup := by
    intro l hl
    refine hl.imp ?_
    intro x y hlt heq
    rw [heq] at hlt
    exact Nat.lt_irrefl _ hlt
  have hperm : l.Perm l' := (List.perm_ext_iff_of_nodup (hnodup hl) (hnodup hl')).mpr hmem
  exact List.Perm.eq_of_pairwise (fun _ _ _ _ hxy hyx => absurd hxy (Nat.lt_asymm hyx)) hl hl' hperm

namespace Flow

/-- Two scripts of one length that are the same wherever control can get
to in the first. -/
structure SameLiveCode (code code' : List Instruction) : Prop where
  length_eq : code.length = code'.length
  getElem?_eq : ∀ a, Reachable code a → code[a]? = code'[a]?

namespace SameLiveCode

variable {code code' : List Instruction} (h : SameLiveCode code code')
include h

/-! ## Paths -/

theorem step_iff {a b : Nat} (ha : Reachable code a) : Step code a b ↔ Step code' a b := by
  rw [Step, Step, h.getElem?_eq a ha, h.length_eq]

theorem path_iff {before : List Nat} {a : Nat} : Path code before a ↔ Path code' before a := by
  constructor
  · intro hpath
    induction hpath with
    | start => exact Path.start
    | @step before a b hpath hstep ih => exact ih.step ((h.step_iff ⟨before, hpath⟩).mp hstep)
  · intro hpath
    induction hpath with
    | start => exact Path.start
    | @step before a b _ hstep ih => exact ih.step ((h.step_iff ⟨before, ih⟩).mpr hstep)

theorem reachable_iff {a : Nat} : Reachable code a ↔ Reachable code' a :=
  exists_congr fun _ => h.path_iff

/-! ## The flow graph -/

theorem reachable_eq : (FlowGraph.ofCode code).reachable = (FlowGraph.ofCode code').reachable := by
  refine List.ext_getElem ?_ fun a ha ha' => ?_
  · rw [FlowGraph.length_reachable, FlowGraph.length_reachable, h.length_eq]
  · have hlt : a < code.length := FlowGraph.length_reachable code ▸ ha
    have hlt' : a < code'.length := FlowGraph.length_reachable code' ▸ ha'
    have hmark := FlowGraph.reachable_getElem?_iff hlt
    have hmark' := FlowGraph.reachable_getElem?_iff hlt'
    rw [List.getElem?_eq_getElem ha, Option.some.injEq] at hmark
    rw [List.getElem?_eq_getElem ha', Option.some.injEq] at hmark'
    rw [Bool.eq_iff_iff, hmark, hmark', h.reachable_iff]

theorem hasLoops_eq : (FlowGraph.ofCode code).hasLoops = (FlowGraph.ofCode code').hasLoops := by
  rw [Bool.eq_iff_iff, FlowGraph.hasLoops_iff, FlowGraph.hasLoops_iff]
  refine exists_congr fun a => exists_congr fun b => ?_
  rw [← h.reachable_iff]
  refine and_congr_right fun ha => ?_
  rw [h.step_iff ha]

/-! ## The stack -/

open Lint.StackBalance

theorem arrivals_eq {a : Nat} (ha : Reachable code a) (d : Int) :
    arrivals code a d = arrivals code' a d := by
  rw [arrivals, arrivals, h.getElem?_eq a ha, h.length_eq]

/-- Only live code is visited, so the visits go the same way. -/
theorem visits_eq : visits code = visits code' := by
  have hnext : visits code = explore (List.range code.length) (arrivals code') 0 0 :=
    explore_congr fun x hx => h.arrivals_eq (reachable_of_visit hx) x.2
  rw [hnext, h.length_eq]
  rfl

theorem arrived_eq : arrived code = arrived code' := by
  rw [arrived, arrived, ← h.visits_eq]
  exact List.flatMap_congr fun x hx => h.arrivals_eq (reachable_of_visit hx) x.2

theorem stackBalance_eq (limit : Int) :
    Lint.stackBalance limit code = Lint.stackBalance limit code' := by
  have hdepth : (visits code).flatMap (depthFindings code limit)
      = (visits code).flatMap (depthFindings code' limit) := by
    refine List.flatMap_congr fun x hx => ?_
    rw [depthFindings, depthFindings, h.getElem?_eq x.1 (reachable_of_visit hx)]
  show (visits code).flatMap (depthFindings code limit)
      ++ (visits code).filterMap (mismatch? (arrived code)) = _
  rw [hdepth, h.arrived_eq, h.visits_eq]
  rfl

end SameLiveCode

end Flow

open BehaviorScript.Flow

section

variable {image image' : Image} {s s' : Script} (hs : Script.ofImage image = .ok s)
  (hs' : Script.ofImage image' = .ok s') (h : SameLiveCode s.code s'.code)
include hs hs' h

/-! ## Scripts -/

theorem Script.liveCode_eq : s.liveCode = s'.liveCode := by
  refine eq_of_ascending Prod.snd (List.pairwise_map.mp (pairwise_filter_zipIdx s.code _))
    (List.pairwise_map.mp (pairwise_filter_zipIdx s'.code _)) ?_
  intro x
  obtain ⟨i, a⟩ := x
  rw [mem_liveCode_iff hs, mem_liveCode_iff hs', ← h.reachable_iff]
  refine and_congr_left fun ha => ?_
  rw [h.getElem?_eq a ha]

theorem Script.hasBranching_eq : s.hasBranching = s'.hasBranching := by
  rw [hasBranching, hasBranching, liveCode_eq hs hs' h, h.length_eq]

theorem Script.deadCount_eq : s.deadCount = s'.deadCount := by
  rw [deadCount, deadCount, FlowGraph.deadInstructions, FlowGraph.deadInstructions,
    flow_ofImage hs, flow_ofImage hs', h.reachable_eq]

theorem Lint.map_index_deadCode_eq :
    (deadCode s).map Finding.index = (deadCode s').map Finding.index := by
  have hascending : ∀ s : Script, ((deadCode s).map Finding.index).Pairwise (· < ·) := by
    intro s
    rw [deadCode, List.map_map]
    exact pairwise_filter_zipIdx s.code _
  refine eq_of_ascending id (hascending s) (hascending s') ?_
  intro a
  rw [dead_mem_iff hs, dead_mem_iff hs', h.length_eq, h.reachable_iff]

end

/-- Whatever stands where control cannot get to, the flow of control, the
findings on the stack and the shape of the script come out the same, and
the same instructions are dead. -/
theorem flowAnalyses_eq_of_sameLiveCode {image image' : Image} {s s' : Script}
    (hs : Script.ofImage image = .ok s) (hs' : Script.ofImage image' = .ok s')
    (h : SameLiveCode s.code s'.code) :
    s.flow.reachable = s'.flow.reachable
      ∧ s.flow.hasLoops = s'.flow.hasLoops
      ∧ (∀ limit, Lint.stackBalance limit s.code = Lint.stackBalance limit s'.code)
      ∧ (∀ yielding yielding' evidence evidence' graph graph',
        (s.profile yielding evidence graph).shape.hasBranching
            = (s'.profile yielding' evidence' graph').shape.hasBranching
          ∧ (s.profile yielding evidence graph).shape.deadInstructionCount
            = (s'.profile yielding' evidence' graph').shape.deadInstructionCount)
      ∧ (Lint.deadCode s).map Finding.index = (Lint.deadCode s').map Finding.index := by
  refine ⟨?_, ?_, h.stackBalance_eq, ?_, Lint.map_index_deadCode_eq hs hs' h⟩
  · rw [Script.flow_ofImage hs, Script.flow_ofImage hs', h.reachable_eq]
  · rw [Script.flow_ofImage hs, Script.flow_ofImage hs', h.hasLoops_eq]
  · intro _ _ _ _ _ _
    exact ⟨Script.hasBranching_eq hs hs' h, Script.deadCount_eq hs hs' h⟩

/-- Pushes in a loop; the last instruction is dead and only ends. -/
def pushLoop : Image :=
  ⟨0x1000, "lamp", 0, 0, 4, [0x00, 0, 1, 253, 0, 0, 0, 0, 0, 0, 0, 0,
    0x02, 0, 2, 253, 0, 0, 0, 0, 1, 18, 8, 7, 0x02, 0, 0, 255, 0, 0, 1, 0, 0, 2, 9, 7,
    0x00, 0, 255, 253, 0, 0, 0, 0, 0, 0, 0, 0]⟩

/-- The same loop; the dead instruction pops and jumps into the middle. -/
def cutPushLoop : Image :=
  ⟨0x1000, "lamp", 0, 0, 4, [0x00, 0, 1, 253, 0, 0, 0, 0, 0, 0, 0, 0,
    0x02, 0, 2, 253, 0, 0, 0, 0, 1, 18, 8, 7, 0x02, 0, 0, 255, 0, 0, 1, 0, 0, 2, 9, 7,
    0x1E, 0, 1, 2, 0, 0, 0, 0, 0, 0, 0, 0]⟩

theorem flowAnalyses_eq_of_sameLiveCode_pushLoop :
    ∃ s s', Script.ofImage pushLoop = .ok s ∧ Script.ofImage cutPushLoop = .ok s'
      ∧ SameLiveCode s.code s'.code ∧ s.flow.blocks.length = 2 ∧ s'.flow.blocks.length = 4
      ∧ s.flow.reachable = [true, true, true, false] ∧ s'.flow.reachable = s.flow.reachable
      ∧ Lint.stackBalance 256 s.code = [⟨0, .depthMismatch 0 1⟩]
      ∧ Lint.stackBalance 256 s'.code = [⟨0, .depthMismatch 0 1⟩] := by
  obtain ⟨s, hs⟩ : ∃ s, Script.ofImage pushLoop = .ok s := ⟨_, rfl⟩
  obtain ⟨s', hs'⟩ : ∃ s, Script.ofImage cutPushLoop = .ok s := ⟨_, rfl⟩
  have hfacts : s.flow.blocks.length = 2 ∧ s.flow.reachable = [true, true, true, false]
      ∧ Lint.stackBalance 256 s.code = [⟨0, .depthMismatch 0 1⟩] := by
    cases hs
    decide +kernel
  have hblocks : s'.flow.blocks.length = 4 := by
    cases hs'
    decide +kernel
  have hlength : s.code.length = 4 := by
    cases hs
    rfl
  have hdead : ¬Reachable s.code 3 := by
    rw [← FlowGraph.reachable_getElem?_iff (hlength ▸ by decide), ← Script.flow_ofImage hs,
      hfacts.2.1]
    decide
  have hsame : SameLiveCode s.code s'.code := by
    cases hs
    cases hs'
    refine ⟨rfl, fun a ha => ?_⟩
    match a with
    | 0 => rfl
    | 1 => rfl
    | 2 => rfl
    | 3 => exact absurd ha hdead
    | _ + 4 => rfl
  obtain ⟨hreachable, -, hstack, -⟩ := flowAnalyses_eq_of_sameLiveCode hs hs' hsame
  exact ⟨s, s', hs, hs', hsame, hfacts.1, hblocks, hfacts.2.1, hreachable.symm, hfacts.2.2,
    hstack 256 ▸ hfacts.2.2⟩

end BehaviorScript
