import BehaviorScript.Proofs.Flow.Reachability

/-!
# Loops

A flow graph finds loops one edge at a time: an edge is a back edge if it
leads to the head of a block at or before its source. Loops are made of
many edges, and of instructions rather than blocks. This file shows that
none is missed:

- the test for a head leaves nothing out, since a step that does not go
  forward always leads to one (`isHead_of_step_back`);
- so the graph has loops exactly when control can take a step that does
  not go forward (`hasLoops_iff`);
- without such a step control only goes forward, hence nowhere twice
  (`lt_of_transGen`, `pairwise_of_path`).
-/

namespace BehaviorScript

namespace FlowGraph

open BehaviorScript.Flow

variable {code : List Instruction}

/-! ## Back edges -/

theorem exists_edge_to_iff {a b : Nat} :
    (∃ e ∈ (ofCode code).edges, e.source = a ∧ ∃ block, e.target = .block block b) ↔
      Step code a b := by
  constructor
  · intro h
    obtain ⟨e, he, hsource, block, htarget⟩ := h
    exact (exists_edge_iff_step.mp ⟨e, he, hsource, htarget⟩).1
  · intro hstep
    obtain ⟨k, run, hrun, hb⟩ := exists_run hstep.target_lt
    obtain ⟨e, he, hsource, htarget⟩ := exists_edge_iff_step.mpr
      ⟨hstep, blockOf?_eq_some_iff.mpr ⟨run, hrun, hb⟩⟩
    exact ⟨e, he, hsource, k, htarget⟩

/-- Inside of a block control only goes on to the next instruction. -/
theorem isHead_of_step_back {a b : Nat} (hstep : Step code a b) (hle : b ≤ a) :
    isHead (runs code) b = true := by
  obtain ⟨k, run, hrun, hb⟩ := exists_run hstep.target_lt
  rcases head_or_succ_of_step hrun hb hstep with hhead | ⟨hsucc, -⟩
  · exact (isHead_iff hrun hb).mpr hhead
  · omega

theorem isBack_edge_iff {a : Nat} {i : Instruction} {exit : Bool × UInt8} :
    (edge code.length (runs code) a i exit).isBack = true ↔
      ∃ b, Target.resolve exit.2 code.length = .instruction b
        ∧ isHead (runs code) b = true ∧ b ≤ a := by
  unfold edge
  cases htarget : Target.resolve exit.2 code.length with
  | instruction b => simp
  | terminal t => simp
  | invalid pointer => simp

theorem isBack_iff {e : Edge} (he : e ∈ (ofCode code).edges) :
    e.isBack = true ↔ ∃ block index, e.target = .block block index ∧ index ≤ e.source := by
  obtain ⟨a, i, exit, hi, hexit, rfl⟩ := mem_edges_iff.mp he
  rw [isBack_edge_iff]
  constructor
  · intro h
    obtain ⟨b, hresolve, -, hle⟩ := h
    obtain ⟨k, run, hrun, hb⟩ := exists_run (resolve_lt hresolve)
    exact ⟨k, b, edge_target_eq_block_iff.mpr
      ⟨hresolve, blockOf?_eq_some_iff.mpr ⟨run, hrun, hb⟩⟩, hle⟩
  · intro h
    obtain ⟨block, b, htarget, hle⟩ := h
    obtain ⟨hresolve, -⟩ := edge_target_eq_block_iff.mp htarget
    have hstep : Step code a b := step_iff_exit.mpr ⟨i, hi, exit, hexit, hresolve⟩
    exact ⟨b, hresolve, isHead_of_step_back hstep hle, hle⟩

theorem isLoopHead_iff {b : Block} (hb : b ∈ (ofCode code).blocks) :
    b.isLoopHead = true ↔ ∃ e ∈ (ofCode code).edges, ∃ first,
      b.instructions.head? = some first ∧ e.target = .block b.id first ∧ first ≤ e.source := by
  obtain ⟨k, hk⟩ := List.mem_iff_getElem?.mp hb
  obtain ⟨hrun, rfl⟩ := run_of_block hk
  have hmark : b.isLoopHead = true ↔ ∃ e ∈ (ofCode code).edges, ∃ index,
      e.target = .block b.id index ∧ e.isBack = true := by
    simp only [ofCode, List.getElem?_mapIdx, hrun, Option.map_some, Option.some.injEq] at hk
    rw [← hk, List.any_eq_true]
    refine exists_congr fun e => and_congr_right fun _ => ?_
    cases e.target <;> simp [and_comm]
  rw [hmark]
  refine exists_congr fun e => and_congr_right fun he => ?_
  constructor
  · intro h
    obtain ⟨index, htarget, hback⟩ := h
    obtain ⟨_, _, htarget', hle⟩ := (isBack_iff he).mp hback
    obtain ⟨-, rfl⟩ := EdgeTarget.block.inj (htarget.symm.trans htarget')
    obtain ⟨-, b', hb', hindex, hhead | ⟨hsucc, -⟩⟩ := enters_at_head_or_next he htarget
    · obtain rfl := Option.some.inj (hk.symm.trans hb')
      exact ⟨index, hhead, htarget, hle⟩
    · omega
  · intro h
    obtain ⟨first, -, htarget, hle⟩ := h
    exact ⟨first, htarget, (isBack_iff he).mpr ⟨_, first, htarget, hle⟩⟩

/-- A graph has loops when control can take a step that does not go
forward. -/
theorem hasLoops_iff :
    (ofCode code).hasLoops = true ↔ ∃ a b, Reachable code a ∧ Step code a b ∧ b ≤ a := by
  simp only [hasLoops, backEdges, List.any_eq_true, List.mem_filter, isReachable_iff]
  constructor
  · intro h
    obtain ⟨e, ⟨he, hback⟩, -, hreach⟩ := h
    obtain ⟨block, index, htarget, hle⟩ := (isBack_iff he).mp hback
    have hstep : Step code e.source index := exists_edge_to_iff.mp ⟨e, he, rfl, block, htarget⟩
    exact ⟨e.source, index, hreach, hstep, hle⟩
  · intro h
    obtain ⟨a, b, hreach, hstep, hle⟩ := h
    obtain ⟨e, he, rfl, block, htarget⟩ := exists_edge_to_iff.mpr hstep
    exact ⟨e, ⟨he, (isBack_iff he).mpr ⟨block, b, htarget, hle⟩⟩, hstep.source_lt, hreach⟩

/-! ## Control without loops -/

theorem lt_of_step (hno : (ofCode code).hasLoops = false) {a b : Nat} (ha : Reachable code a)
    (hstep : Step code a b) : a < b := by
  by_contra hle
  have hloops := hasLoops_iff.mpr ⟨a, b, ha, hstep, by omega⟩
  rw [hno] at hloops
  cases hloops

theorem lt_of_transGen (hno : (ofCode code).hasLoops = false) {a b : Nat}
    (ha : Reachable code a) (h : Relation.TransGen (Step code) a b) :
    a < b ∧ Reachable code b := by
  induction h with
  | single hstep => exact ⟨lt_of_step hno ha hstep, ha.step hstep⟩
  | tail _ hstep ih =>
      obtain ⟨hlt, hreach⟩ := ih
      exact ⟨Nat.lt_trans hlt (lt_of_step hno hreach hstep), hreach.step hstep⟩

theorem hasLoops_of_cycle {a : Nat} (ha : Reachable code a)
    (hcycle : Relation.TransGen (Step code) a a) : (ofCode code).hasLoops = true := by
  by_contra hno
  have hlt := (lt_of_transGen (Bool.eq_false_iff.mpr hno) ha hcycle).1
  omega

theorem pairwise_of_path (hno : (ofCode code).hasLoops = false) {before : List Nat} {a : Nat}
    (hpath : Path code before a) : (before ++ [a]).Pairwise (· < ·) := by
  induction hpath with
  | start => exact List.pairwise_singleton _ _
  | @step before a b hpath hstep ih =>
      have hab := lt_of_step hno ⟨before, hpath⟩ hstep
      refine List.pairwise_append.mpr ⟨ih, List.pairwise_singleton _ _, ?_⟩
      intro c hc d hd
      obtain rfl := List.mem_singleton.mp hd
      rcases List.mem_append.mp hc with hc | hc
      · have hca := (List.pairwise_append.mp ih).2.2 c hc a (List.mem_singleton.mpr rfl)
        omega
      · rw [List.mem_singleton.mp hc]
        exact hab

/-! ## No loop is missed -/

/-- The marks of the graph and the loops of the code are the same thing
said twice. -/
structure FindsLoops (g : FlowGraph) (code : List Instruction) : Prop where
  /-- The edges to instructions are the pointers in use that lead to one. -/
  target : ∀ a b, (∃ e ∈ g.edges, e.source = a ∧ ∃ block, e.target = .block block b) ↔
    Step code a b
  /-- The back edges are all edges to an instruction at or before their
  source. -/
  isBack : ∀ e ∈ g.edges, e.isBack = true ↔
    ∃ block index, e.target = .block block index ∧ index ≤ e.source
  /-- A loop head is entered at its first instruction from there on. -/
  isLoopHead : ∀ b ∈ g.blocks, b.isLoopHead = true ↔ ∃ e ∈ g.edges, ∃ first,
    b.instructions.head? = some first ∧ e.target = .block b.id first ∧ first ≤ e.source
  hasLoops : g.hasLoops = true ↔ ∃ a b, Reachable code a ∧ Step code a b ∧ b ≤ a
  /-- Control that can come back to an instruction is a loop. -/
  cycle : ∀ a, Reachable code a → Relation.TransGen (Step code) a a → g.hasLoops = true
  /-- Without loops control goes forward on every path, so it runs each
  instruction at most once. -/
  forward : g.hasLoops = false → ∀ before a, Path code before a →
    (before ++ [a]).Pairwise (· < ·) ∧ (before ++ [a]).Nodup

theorem findsLoops_ofCode (code : List Instruction) : (ofCode code).FindsLoops code where
  target := fun _ _ => exists_edge_to_iff
  isBack := fun _ he => isBack_iff he
  isLoopHead := fun _ hb => isLoopHead_iff hb
  hasLoops := hasLoops_iff
  cycle := fun _ ha hcycle => hasLoops_of_cycle ha hcycle
  forward := by
    intro hno before a hpath
    have hforward := pairwise_of_path hno hpath
    exact ⟨hforward, hforward.imp Nat.ne_of_lt⟩

/-- Jumps over an instruction that would jump back. -/
def deadJump : List Instruction :=
  [⟨0x00, 2, 253, ⟨0, 0, 0, 0, 0, 0, 0, 0⟩⟩, ⟨0x00, 0, 253, ⟨0, 0, 0, 0, 0, 0, 0, 0⟩⟩,
    ⟨0x00, 255, 253, ⟨0, 0, 0, 0, 0, 0, 0, 0⟩⟩]

theorem findsLoops_ofCode_deadJump :
    (ofCode deadJump).backEdges.length = 1 ∧ (ofCode deadJump).hasLoops = false
      ∧ ∀ before a, Path deadJump before a → (before ++ [a]).Nodup := by
  have hno : (ofCode deadJump).hasLoops = false := by decide +kernel
  refine ⟨by decide +kernel, hno, fun before a hpath => ?_⟩
  exact ((findsLoops_ofCode deadJump).forward hno before a hpath).2

end FlowGraph

end BehaviorScript
