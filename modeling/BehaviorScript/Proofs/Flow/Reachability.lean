import BehaviorScript.Proofs.Flow.Blocks
import BehaviorScript.Proofs.Flow.Exploration

/-!
# Reachability

The flow graph marks instructions by walking over its blocks, and never
looks at a single instruction. This file shows that nothing is lost:
instruction `i` is marked exactly when some `Flow.Path` leads to it.

Both directions rest on the shape of the blocks. A link between two
blocks is a step from somewhere in the one to the head of the other
(`link_iff`), and from its head control runs through a whole block
(`reachable_of_head`); conversely a step that is no link stays inside of
its block (`head_or_succ_of_step`). `mem_visitOrder_iff` is the meeting
point, `FlowGraph.isReachable_iff` the form for clients.
-/

namespace BehaviorScript

namespace Flow

section

variable {code : List Instruction}

/-! ## Links -/

theorem linked?_eq_some_iff {runs : List (List Nat)} {k l : Nat} {e : Edge} :
    linked? runs k e = some l ↔
      ∃ index, e.target = .block l index ∧ (l ≠ k ∨ isHead runs index = true) := by
  unfold linked?
  cases htarget : e.target with
  | block other index =>
      simp only [EdgeTarget.block.injEq]
      by_cases hinside : other = k ∧ isHead runs index = false
      · obtain ⟨rfl, hhead⟩ := hinside
        rw [if_pos (by simp [hhead])]
        constructor
        · intro h
          cases h
        · rintro ⟨index', ⟨rfl, rfl⟩, hne | hhead'⟩
          · exact absurd rfl hne
          · rw [hhead] at hhead'
            cases hhead'
      · rw [if_neg (by simpa using hinside)]
        constructor
        · intro h
          obtain rfl := Option.some.inj h
          refine ⟨index, ⟨rfl, rfl⟩, ?_⟩
          by_cases hk : other = k
          · exact Or.inr (by simpa using fun h => hinside ⟨hk, h⟩)
          · exact Or.inl hk
        · rintro ⟨_, ⟨rfl, -⟩, -⟩
          rfl
  | terminal t => simp
  | invalid pointer => simp

/-- Block `k` is linked to block `l`. -/
def Link (code : List Instruction) (k l : Nat) : Prop :=
  l ∈ ((links (runs code) (edges code (runs code)))[k]?).getD []

/-- The links of a block are the steps from its instructions to heads of
blocks. -/
theorem link_iff {k l : Nat} :
    Link code k l ↔ ∃ run other a b, (runs code)[k]? = some run ∧ (runs code)[l]? = some other
      ∧ a ∈ run ∧ other.head? = some b ∧ Step code a b := by
  unfold Link links
  rw [List.getElem?_mapIdx]
  cases hk : (runs code)[k]? with
  | none => simp
  | some run =>
      simp only [Option.map_some, Option.getD_some, List.mem_filter, List.mem_range,
        List.contains_iff_mem, List.mem_filterMap, linked?_eq_some_iff]
      constructor
      · rintro ⟨hl, e, ⟨he, ha⟩, b, htarget, hlink⟩
        obtain ⟨hstep, hblock⟩ := exists_edge_iff_step.mp ⟨e, he, rfl, htarget⟩
        obtain ⟨other, hother, hb⟩ := blockOf?_eq_some_iff.mp hblock
        refine ⟨run, other, e.source, b, rfl, hother, ha, ?_, hstep⟩
        rcases hlink with hne | hhead
        · rcases head_or_succ_of_step hother hb hstep with hhead | ⟨-, hin⟩
          · exact hhead
          · exact absurd (run_unique hother hk hin ha) hne
        · exact (isHead_iff hother hb).mp hhead
      · rintro ⟨_, other, a, b, hrun, hother, ha, hhead, hstep⟩
        obtain rfl := Option.some.inj hrun
        have hb : b ∈ other := List.mem_of_head? hhead
        obtain ⟨e, he, rfl, htarget⟩ := exists_edge_iff_step.mpr
          ⟨hstep, blockOf?_eq_some_iff.mpr ⟨other, hother, hb⟩⟩
        exact ⟨(List.getElem?_eq_some_iff.mp hother).1, e, ⟨he, ha⟩, b, htarget,
          Or.inr ((isHead_iff hother hb).mpr hhead)⟩

theorem Link.target_lt {k l : Nat} (h : Link code k l) : l < (runs code).length := by
  obtain ⟨_, other, _, _, -, hother, -⟩ := link_iff.mp h
  exact (List.getElem?_eq_some_iff.mp hother).1

/-! ## From blocks to instructions -/

/-- From its head control runs through a whole block. -/
theorem reachable_of_head {k b i : Nat} {run : List Nat} (h : (runs code)[k]? = some run)
    (hhead : run.head? = some b) (hb : Reachable code b) (hi : i ∈ run) : Reachable code i := by
  obtain ⟨start, len, rfl⟩ := run_eq_range' h
  rw [List.mem_range'_1] at hi
  rw [List.head?_range', if_neg (by omega)] at hhead
  obtain rfl := Option.some.inj hhead
  obtain ⟨n, rfl⟩ := Nat.exists_eq_add_of_le hi.1
  induction n with
  | zero => exact hb
  | succ n ih =>
      have hbefore : start + n ∈ List.range' start len := by rw [List.mem_range'_1]; omega
      have hhere : start + n + 1 ∈ List.range' start len := by rw [List.mem_range'_1]; omega
      exact (ih (by omega)).step (onlyStep_of_succ_mem h hbefore hhere).step

theorem head_of_first {run : List Nat} (h : (runs code)[0]? = some run) :
    run.head? = some 0 := by
  have hne := ne_nil_of_run h
  have hpos : 0 < code.length := by
    obtain ⟨i, hi⟩ := List.exists_mem_of_ne_nil run hne
    exact Nat.lt_of_le_of_lt (Nat.zero_le i) (lt_of_mem_run h hi)
  have hflat := congrArg List.head? (flatten_runs code)
  rw [split_at_run h, List.take_zero, List.nil_append, List.flatten_cons,
    List.head?_append_of_ne_nil _ hne, List.head?_range, if_neg (by omega)] at hflat
  exact hflat

theorem reachable_of_linked {k : Nat} (h : Relation.ReflTransGen (Link code) 0 k) :
    ∀ {run : List Nat}, (runs code)[k]? = some run → ∀ i ∈ run, Reachable code i := by
  induction h with
  | refl =>
      intro run hrun i hi
      exact reachable_of_head hrun (head_of_first hrun) (reachable_zero code) hi
  | @tail l k _ hlink ih =>
      intro run hrun i hi
      obtain ⟨source, other, a, b, hsource, hother, ha, hhead, hstep⟩ := link_iff.mp hlink
      obtain rfl := Option.some.inj (hrun.symm.trans hother)
      exact reachable_of_head hrun hhead ((ih hsource a ha).step hstep) hi

/-! ## From instructions to blocks -/

theorem linked_of_reachable {i : Nat} (h : Reachable code i) :
    ∀ (k : Nat) (run : List Nat), (runs code)[k]? = some run → i ∈ run →
      Relation.ReflTransGen (Link code) 0 k := by
  obtain ⟨before, hpath⟩ := h
  induction hpath with
  | start =>
      intro k run hrun hzero
      obtain ⟨first, hfirst⟩ : ∃ first, (runs code)[0]? = some first :=
        ⟨_, List.getElem?_eq_getElem (Nat.lt_of_le_of_lt (Nat.zero_le k)
          (List.getElem?_eq_some_iff.mp hrun).1)⟩
      have hmem : 0 ∈ first := List.mem_of_head? (head_of_first hfirst)
      rw [run_unique hrun hfirst hzero hmem]
  | @step before a b _ hstep ih =>
      intro k run hrun hb
      obtain ⟨l, source, hsource, ha⟩ := exists_run hstep.source_lt
      rcases head_or_succ_of_step hrun hb hstep with hhead | ⟨-, hin⟩
      · exact (ih l source hsource ha).tail
          (link_iff.mpr ⟨source, run, a, b, hsource, hrun, ha, hhead, hstep⟩)
      · rw [run_unique hrun hsource hin ha]
        exact ih l source hsource ha

/-- A block is visited exactly when control gets to its instructions. -/
theorem mem_visitOrder_iff {i k : Nat} {run : List Nat} (h : (runs code)[k]? = some run)
    (hi : i ∈ run) :
    k ∈ visitOrder (links (runs code) (edges code (runs code))) ↔ Reachable code i := by
  have hlength : (links (runs code) (edges code (runs code))).length = (runs code).length :=
    List.length_mapIdx
  have hstart : 0 ∈ List.range (links (runs code) (edges code (runs code))).length := by
    rw [hlength, List.mem_range]
    exact Nat.lt_of_le_of_lt (Nat.zero_le k) (List.getElem?_eq_some_iff.mp h).1
  have hvisited : k ∈ visitOrder (links (runs code) (edges code (runs code))) ↔
      Relation.ReflTransGen (Link code) 0 k := by
    refine mem_explore_nodes_iff hstart (fun l _ m => ?_) (fun l m hlink => ?_) k
    · simp [Link]
    · rw [hlength, List.mem_range]
      exact hlink.target_lt
  rw [hvisited]
  exact ⟨fun hlinked => reachable_of_linked hlinked h i hi,
    fun hreach => linked_of_reachable hreach k run h hi⟩

end

end Flow

namespace FlowGraph

open BehaviorScript.Flow

/-! ## The marks of the graph -/

section

variable {code : List Instruction}

/-- Each instruction has the mark of its block. -/
theorem reachable_ofCode (code : List Instruction) :
    (ofCode code).reachable = (List.range code.length).map fun i =>
      (visitOrder (links (runs code) (Flow.edges code (runs code)))).contains
        ((Flow.blockOf? (runs code) i).getD 0) := by
  rw [← flatten_runs, List.map_flatten]
  refine congrArg List.flatten (List.ext_getElem? fun k => ?_)
  rw [List.getElem?_mapIdx, List.getElem?_map]
  cases hk : (runs code)[k]? with
  | none => rfl
  | some run =>
      refine congrArg some (List.map_congr_left fun i hi => ?_)
      rw [blockOf?_eq_some_iff.mpr ⟨run, hk, hi⟩, Option.getD_some]

theorem length_reachable (code : List Instruction) :
    (ofCode code).reachable.length = code.length := by
  rw [reachable_ofCode, List.length_map, List.length_range]

theorem reachable_of_mem_block {b : Block} {i : Nat} (hb : b ∈ (ofCode code).blocks)
    (hi : i ∈ b.instructions) : (ofCode code).reachable[i]? = some b.reachable := by
  obtain ⟨k, hk⟩ := List.mem_iff_getElem?.mp hb
  obtain ⟨hrun, -⟩ := run_of_block hk
  have hmark : b.reachable
      = (visitOrder (links (runs code) (Flow.edges code (runs code)))).contains k := by
    simp only [ofCode, List.getElem?_mapIdx, hrun, Option.map_some, Option.some.injEq] at hk
    rw [← hk]
  rw [reachable_ofCode, List.getElem?_map, List.getElem?_range (lt_of_mem_run hrun hi),
    Option.map_some, blockOf?_eq_some_iff.mpr ⟨_, hrun, hi⟩, Option.getD_some, hmark]

theorem reachable_getElem?_iff {i : Nat} (hi : i < code.length) :
    (ofCode code).reachable[i]? = some true ↔ Reachable code i := by
  obtain ⟨k, run, hrun, hmem⟩ := exists_run hi
  rw [reachable_ofCode, List.getElem?_map, List.getElem?_range hi, Option.map_some,
    blockOf?_eq_some_iff.mpr ⟨run, hrun, hmem⟩, Option.getD_some, Option.some.injEq,
    List.contains_iff_mem, mem_visitOrder_iff hrun hmem]

theorem isReachable_iff {i : Nat} :
    (ofCode code).isReachable i = true ↔ i < code.length ∧ Reachable code i := by
  unfold isReachable
  by_cases hi : i < code.length
  · rw [and_iff_right hi, ← reachable_getElem?_iff hi]
    have hlt : i < (ofCode code).reachable.length := by rwa [length_reachable]
    rw [List.getElem?_eq_getElem hlt, Option.getD_some, Option.some.injEq]
  · have hle : (ofCode code).reachable.length ≤ i := by rw [length_reachable]; omega
    rw [List.getElem?_eq_none hle]
    simp [hi]

theorem mem_deadInstructions_iff {i : Nat} :
    i ∈ (ofCode code).deadInstructions ↔ i < code.length ∧ ¬Reachable code i := by
  have hmark : i ∈ (ofCode code).deadInstructions ↔
      (ofCode code).reachable[i]? = some false := by
    simp only [deadInstructions, List.mem_map, List.mem_filter, List.mem_zipIdx_iff_getElem?,
      Bool.not_eq_true']
    constructor
    · rintro ⟨⟨mark, j⟩, ⟨hj, hfalse⟩, rfl⟩
      exact hfalse ▸ hj
    · intro hi
      exact ⟨(false, i), ⟨hi, rfl⟩, rfl⟩
  rw [hmark]
  by_cases hi : i < code.length
  · have hlt : i < (ofCode code).reachable.length := by rwa [length_reachable]
    rw [and_iff_right hi, ← reachable_getElem?_iff hi, List.getElem?_eq_getElem hlt]
    simp
  · have hle : (ofCode code).reachable.length ≤ i := by rw [length_reachable]; omega
    rw [List.getElem?_eq_none hle]
    simp [hi]

end

/-- **Reachability is exact**: the marks, the dead instructions and the
marks of the blocks all say whether some path leads to an instruction. -/
theorem reachable_iff_path (code : List Instruction) :
    (ofCode code).reachable.length = code.length
      ∧ (∀ i < code.length, (ofCode code).reachable[i]? = some true ↔
          ∃ before, Path code before i)
      ∧ ((ofCode code).deadInstructions.Pairwise (· < ·)
        ∧ ∀ i, i ∈ (ofCode code).deadInstructions ↔
            i < code.length ∧ ¬∃ before, Path code before i)
      ∧ ∀ b ∈ (ofCode code).blocks, ∀ i ∈ b.instructions,
          (ofCode code).reachable[i]? = some b.reachable :=
  ⟨length_reachable code, fun _ hi => reachable_getElem?_iff hi,
    ⟨pairwise_filter_zipIdx _ _, fun _ => mem_deadInstructions_iff⟩,
    fun _ hb _ hi => reachable_of_mem_block hb hi⟩

end FlowGraph

end BehaviorScript
