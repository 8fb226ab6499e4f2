import BehaviorScript.Proofs.Flow.Edges
import BehaviorScript.Proofs.Flow.Worklist
import BehaviorScript.Proofs.Lint.StackBalance

/-!
# Two walks over one graph

A flow graph is walked over twice. Its own marks come from a walk over the
blocks, along their successors; the stack pass walks over single
instructions, along the edges, and carries a depth. Neither walk knows of
the other, and each is a worklist loop without a bound.

What a turn of either loop arrives at is read off the graph here
(`blockArrivals`, `edgeArrivals`), and the loops pop what the library
computes (`drains_blockOrder`, `drains_visits`). A block is popped exactly
when control gets into it (`mem_blockOrder_iff`) and an instruction exactly
when control gets to it (`mem_visits_iff`). As a block is entered at its head
and run through, the blocks popped by the one loop hold the instructions
popped by the other (`perm_visits`).
-/

namespace BehaviorScript

/-- The members of `reached` stand in the list once each, and nothing else
stands there. -/
def ExactlyOnce (popped : List Nat) (reached : Nat → Prop) : Prop :=
  ∀ a, (reached a → popped.count a = 1) ∧ (¬reached a → popped.count a = 0)

theorem exactlyOnce_of_nodup {popped : List Nat} {reached : Nat → Prop} (hnodup : popped.Nodup)
    (hmem : ∀ a, a ∈ popped ↔ reached a) : ExactlyOnce popped reached := by
  intro a
  constructor
  · intro ha
    exact List.count_eq_one_of_mem hnodup ((hmem a).mpr ha)
  · intro ha
    exact List.count_eq_zero_of_not_mem fun h => ha ((hmem a).mp h)

/-- The instruction that an edge leads to. -/
def EdgeTarget.index? : EdgeTarget → Option Nat
  | .block _ index => some index
  | _ => none

namespace FlowGraph

open BehaviorScript.Flow

/-! ## The walk over the blocks -/

/-- The blocks that `ofCode` marks, in the order of their visits. -/
def blockOrder (code : List Instruction) : List Nat :=
  visitOrder (links (runs code) (Flow.edges code (runs code)))

/-- A block leads to its successors. -/
def blockArrivals (g : FlowGraph) (k : Nat) (_ : Unit) : List (Nat × Unit) :=
  (((g.blocks[k]?).map Block.successors).getD []).map fun next => (next, ())

/-- Control gets to an instruction of block `k`. -/
def LiveBlock (code : List Instruction) (k : Nat) : Prop :=
  ∃ b, (ofCode code).blocks[k]? = some b ∧ ∃ i ∈ b.instructions, Reachable code i

/-- The instructions of block `k`. -/
def instructionsOf (g : FlowGraph) (k : Nat) : List Nat :=
  ((g.blocks[k]?).map Block.instructions).getD []

variable {code : List Instruction}

theorem length_links (code : List Instruction) :
    (links (runs code) (Flow.edges code (runs code))).length = (ofCode code).blocks.length := by
  rw [links, List.length_mapIdx, ← instructions_ofCode, List.length_map]

theorem blockArrivals_ofCode (k : Nat) (u : Unit) :
    blockArrivals (ofCode code) k u
      = (((links (runs code) (Flow.edges code (runs code)))[k]?).getD []).map
          fun next => (next, ()) := by
  unfold blockArrivals
  cases hb : (ofCode code).blocks[k]? with
  | none =>
      rw [List.getElem?_eq_none_iff, ← length_links, ← List.getElem?_eq_none_iff] at hb
      rw [hb]
      rfl
  | some b => rw [Option.map_some, Option.getD_some, (links_of_block hb).1]

/-- The loop over the blocks ends and pops them in the order of `ofCode`. -/
theorem drains_blockOrder (code : List Instruction) :
    Worklist.Drains (blockArrivals (ofCode code)) (.start (ofCode code).blocks.length ())
      ((blockOrder code).map fun k => (k, ())) := by
  have hdrains := Worklist.drains_start (blockArrivals (ofCode code))
    (ofCode code).blocks.length ()
  have hvisits : (blockOrder code).map (fun k => (k, ()))
      = explore (List.range (ofCode code).blocks.length) (blockArrivals (ofCode code)) 0 () := by
    rw [blockOrder, visitOrder, List.map_map, length_links, ← funext₂ blockArrivals_ofCode]
    exact List.map_id _
  rwa [hvisits]

theorem nodup_blockOrder (code : List Instruction) : (blockOrder code).Nodup :=
  nodup_explore List.nodup_range

/-- A block is popped exactly when control gets into it. -/
theorem mem_blockOrder_iff {k : Nat} : k ∈ blockOrder code ↔ LiveBlock code k := by
  constructor
  · intro hk
    obtain ⟨x, hx, rfl⟩ := List.mem_map.mp hk
    have hlt : x.1 < (ofCode code).blocks.length := by
      rw [← length_links]
      exact List.mem_range.mp (mem_nodes_of_mem_explore hx)
    have hb := List.getElem?_eq_getElem hlt
    obtain ⟨hrun, -⟩ := run_of_block hb
    -- any instruction stands for its block, and a block has one
    obtain ⟨i, hi⟩ := List.exists_mem_of_ne_nil _ (ne_nil_of_run hrun)
    exact ⟨_, hb, i, hi, (mem_visitOrder_iff hrun hi).mp hk⟩
  · rintro ⟨b, hb, i, hi, hreach⟩
    obtain ⟨hrun, -⟩ := run_of_block hb
    exact (mem_visitOrder_iff hrun hi).mpr hreach

/-! ## The instructions of the blocks -/

theorem instructionsOf_ofCode (k : Nat) :
    instructionsOf (ofCode code) k = ((runs code)[k]?).getD [] := by
  rw [instructionsOf, ← List.getElem?_map, instructions_ofCode]

theorem mem_instructionsOf_iff {i k : Nat} :
    i ∈ instructionsOf (ofCode code) k ↔ ∃ run, (runs code)[k]? = some run ∧ i ∈ run := by
  rw [instructionsOf_ofCode]
  cases (runs code)[k]? with
  | none => simp
  | some run => simp

theorem nodup_instructionsOf (k : Nat) : (instructionsOf (ofCode code) k).Nodup := by
  rw [instructionsOf_ofCode]
  cases hrun : (runs code)[k]? with
  | none => exact List.nodup_nil
  | some run =>
      obtain ⟨start, len, rfl⟩ := run_eq_range' hrun
      exact List.nodup_range'

/-- No instruction lies in two blocks, and no block is popped twice. -/
theorem nodup_flatMap_blockOrder (code : List Instruction) :
    ((blockOrder code).flatMap (instructionsOf (ofCode code))).Nodup := by
  rw [List.nodup_flatMap]
  refine ⟨fun k _ => nodup_instructionsOf k, (nodup_blockOrder code).imp ?_⟩
  intro k l hkl i hik hil
  obtain ⟨run, hrun, hi⟩ := mem_instructionsOf_iff.mp hik
  obtain ⟨other, hother, hi'⟩ := mem_instructionsOf_iff.mp hil
  exact hkl (run_unique hrun hother hi hi')

/-- The blocks that are popped hold the live instructions: with one of its
instructions a block has all of them reached. -/
theorem mem_flatMap_blockOrder_iff {i : Nat} :
    i ∈ (blockOrder code).flatMap (instructionsOf (ofCode code)) ↔
      i < code.length ∧ Reachable code i := by
  rw [List.mem_flatMap]
  constructor
  · rintro ⟨k, hk, hi⟩
    obtain ⟨run, hrun, hi⟩ := mem_instructionsOf_iff.mp hi
    exact ⟨lt_of_mem_run hrun hi, (mem_visitOrder_iff hrun hi).mp hk⟩
  · rintro ⟨hlt, hreach⟩
    obtain ⟨k, run, hrun, hi⟩ := exists_run hlt
    exact ⟨k, (mem_visitOrder_iff hrun hi).mpr hreach,
      mem_instructionsOf_iff.mpr ⟨run, hrun, hi⟩⟩

/-! ## Where edges lead -/

theorem edgesFrom_eq_nil {a : Nat} (ha : code[a]? = none) : (ofCode code).edgesFrom a = [] := by
  refine List.filter_eq_nil_iff.mpr fun e he hsource => ?_
  obtain ⟨b, i, exit, hi, -, rfl⟩ := mem_edges_iff.mp he
  obtain rfl : b = a := of_decide_eq_true hsource
  rw [ha] at hi
  cases hi

theorem index?_target_edge (a : Nat) (i : Instruction) (exit : Bool × UInt8) :
    (edge code.length (runs code) a i exit).target.index?
      = (Target.resolve exit.2 code.length).index? := by
  show (edgeTarget (runs code) (Target.resolve exit.2 code.length)).index? = _
  cases Target.resolve exit.2 code.length with
  | instruction index => rfl
  | terminal t => rfl
  | invalid pointer => rfl

/-- The edges of the graph lead where the pointers lead. -/
theorem filterMap_edgesFrom {a : Nat} {i : Instruction} (hi : code[a]? = some i) :
    ((ofCode code).edgesFrom a).filterMap (fun e => e.target.index?)
      = i.successors code.length := by
  rw [edgesFrom_ofCode hi, List.filterMap_map, Instruction.successors, Instruction.targets,
    List.filterMap_map]
  exact List.filterMap_congr fun exit _ => index?_target_edge a i exit

end FlowGraph

/-! ## The walk over the instructions -/

namespace Lint.StackBalance

open BehaviorScript.Flow BehaviorScript.FlowGraph

variable {code : List Instruction}

/-- An instruction leads along its edges, to the depth behind it. -/
def edgeArrivals (code : List Instruction) (a : Nat) (d : Int) : List (Nat × Int) :=
  (((ofCode code).edgesFrom a).filterMap fun e => e.target.index?).map
    fun next => (next, d + effectAt code a)

theorem edgeArrivals_eq (a : Nat) (d : Int) : edgeArrivals code a d = arrivals code a d := by
  unfold edgeArrivals arrivals
  cases hi : code[a]? with
  | none => rw [edgesFrom_eq_nil hi]; rfl
  | some i => rw [filterMap_edgesFrom hi, effectAt_of_getElem? hi]

/-- The loop over the instructions ends and makes the visits of the pass. -/
theorem drains_visits (code : List Instruction) :
    Worklist.Drains (edgeArrivals code) (.start code.length 0) (visits code) := by
  rw [visits, ← funext₂ edgeArrivals_eq]
  exact Worklist.drains_start (edgeArrivals code) code.length 0

/-- An instruction is popped exactly when control gets to it. -/
theorem mem_visits_iff {i : Nat} :
    i ∈ (visits code).map Prod.fst ↔ i < code.length ∧ Reachable code i := by
  constructor
  · intro hi
    obtain ⟨x, hx, rfl⟩ := List.mem_map.mp hi
    exact ⟨lt_of_visit hx, reachable_of_visit hx⟩
  · rintro ⟨hlt, before, hpath⟩
    obtain ⟨d, hvisit⟩ := visited_of_path hpath hlt
    exact List.mem_map.mpr ⟨(i, d), hvisit, rfl⟩

theorem perm_visits (code : List Instruction) :
    ((blockOrder code).flatMap (instructionsOf (ofCode code))).Perm
      ((visits code).map Prod.fst) := by
  refine (List.perm_ext_iff_of_nodup (nodup_flatMap_blockOrder code) (nodup_visits code)).mpr ?_
  intro i
  rw [mem_flatMap_blockOrder_iff, mem_visits_iff]

end Lint.StackBalance

/-! ## Both walks -/

section

open BehaviorScript.Flow BehaviorScript.FlowGraph BehaviorScript.Lint.StackBalance

/-- **Both walks end and visit what is live once**: the loop over the blocks
pops every block that control gets into once and no other, the loop over the
instructions pops every instruction that control gets to once and no other,
and the instructions of the blocks popped are the instructions popped. -/
theorem walks_visit_live_once (code : List Instruction) :
    (Worklist.Drains (blockArrivals (ofCode code)) (.start (ofCode code).blocks.length ())
          ((blockOrder code).map fun k => (k, ()))
        ∧ ExactlyOnce (blockOrder code) (LiveBlock code))
      ∧ (Worklist.Drains (edgeArrivals code) (.start code.length 0) (visits code)
        ∧ ExactlyOnce ((visits code).map Prod.fst) fun i => i < code.length ∧ Reachable code i)
      ∧ ((blockOrder code).flatMap (instructionsOf (ofCode code))).Perm
          ((visits code).map Prod.fst) := by
  have hblocks : ExactlyOnce (blockOrder code) (LiveBlock code) :=
    exactlyOnce_of_nodup (nodup_blockOrder code) fun _ => mem_blockOrder_iff
  have hinstructions : ExactlyOnce ((visits code).map Prod.fst)
      fun i => i < code.length ∧ Reachable code i :=
    exactlyOnce_of_nodup (nodup_visits code) fun _ => mem_visits_iff
  exact ⟨⟨drains_blockOrder code, hblocks⟩, ⟨drains_visits code, hinstructions⟩, perm_visits code⟩

/-- Two loops that jump into each other, one of them a push in a block of
two, and a jump back from nowhere. -/
def crossedLoops : List Instruction :=
  [⟨0x02, 3, 1, ⟨0, 0, 1, 0, 0, 2, 9, 7⟩⟩, ⟨0x02, 2, 253, ⟨0, 0, 0, 0, 1, 18, 8, 7⟩⟩,
    ⟨0x02, 0, 3, ⟨0, 0, 1, 0, 0, 2, 9, 7⟩⟩, ⟨0x02, 1, 3, ⟨0, 0, 1, 0, 0, 2, 9, 7⟩⟩,
    ⟨0x02, 0, 253, ⟨0, 0, 0, 0, 1, 19, 8, 7⟩⟩]

/-- The walks take different orders. -/
theorem walks_visit_live_once_crossedLoops :
    blockOrder crossedLoops = [0, 1, 2]
      ∧ visits crossedLoops = [(0, 0), (3, 0), (1, 0), (2, 1)]
      ∧ (∃ w, Worklist.Run (blockArrivals (ofCode crossedLoops)) (.start 4 ()) [0, 1, 2] w
          ∧ w.queue = [])
      ∧ (∃ w, Worklist.Run (edgeArrivals crossedLoops) (.start 5 0) [0, 3, 1, 2] w
          ∧ w.queue = [])
      ∧ ¬LiveBlock crossedLoops 3 := by
  have horder : blockOrder crossedLoops = [0, 1, 2] := by decide +kernel
  have hvisits : visits crossedLoops = [(0, 0), (3, 0), (1, 0), (2, 1)] := by decide +kernel
  have hcount : (ofCode crossedLoops).blocks.length = 4 := by decide +kernel
  obtain ⟨⟨hblocks, honce⟩, ⟨hinstructions, -⟩, -⟩ := walks_visit_live_once crossedLoops
  rw [hcount, horder] at hblocks
  rw [hvisits] at hinstructions
  obtain ⟨w, hrun, hempty, -⟩ := hblocks.empties
  obtain ⟨w', hrun', hempty', -⟩ := hinstructions.empties
  refine ⟨horder, hvisits, ⟨w, hrun, hempty⟩, ⟨w', hrun', hempty'⟩, fun hlive => ?_⟩
  have hpopped := (honce 3).1 hlive
  rw [horder] at hpopped
  cases hpopped

end

end BehaviorScript
