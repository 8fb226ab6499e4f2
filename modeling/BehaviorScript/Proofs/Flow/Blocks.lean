import BehaviorScript.Flow.Graph
import BehaviorScript.Proofs.Flow.Path
import Mathlib.Data.List.SplitBy
import Mathlib.Data.List.Nodup

/-!
# The blocks of a flow graph

`Flow.runs` cuts the indices of a script wherever control can get in or
out, by looking at two neighbours at a time. This file derives what every
later pass relies on and nothing checks:

- the runs are the indices `0, 1, …` cut into non-empty intervals
  (`flatten_runs`, `run_eq_range'`), so each instruction lies in one run
  (`exists_run`, `run_unique`);
- neighbours share a run exactly when control can only step from one to
  the other (`onlyStep_of_succ_mem`, `succ_mem_of_onlyStep`), hence a step
  gets into a run at its head or from the instruction before
  (`head_or_succ_of_step`);
- edges name the run of their target (`mem_edges_iff`, `edgesFrom_ofCode`).

`FlowGraph.partition_ofCode` puts these together for the graph itself.
-/

namespace BehaviorScript

namespace Flow

/-- Instruction `a` always continues to `b`, and no other instruction
leads there. -/
def OnlyStep (code : List Instruction) (a b : Nat) : Prop :=
  (∃ i, code[a]? = some i ∧ i.flow = .continues
      ∧ Target.resolve i.truePointer code.length = .instruction b)
    ∧ ∀ c, Step code c b → c = a

theorem OnlyStep.step {code : List Instruction} {a b : Nat} (h : OnlyStep code a b) :
    Step code a b := by
  obtain ⟨⟨i, hi, -, htarget⟩, -⟩ := h
  exact ⟨i, hi, Or.inl htarget⟩

/-! ## The test between neighbours -/

theorem mem_sources_iff {code : List Instruction} {a b : Nat} :
    a ∈ sources (successorTable code) b ↔ Step code a b := by
  simp only [sources, successorTable, List.mem_map, List.mem_filter, List.contains_iff_mem,
    List.mem_zipIdx_iff_getElem?, List.getElem?_map, Option.map_eq_some_iff, step_iff_successor]
  constructor
  · rintro ⟨⟨successors, c⟩, ⟨⟨i, hi, rfl⟩, hb⟩, rfl⟩
    exact ⟨i, hi, hb⟩
  · rintro ⟨i, hi, hb⟩
    exact ⟨(i.successors code.length, a), ⟨⟨i, hi, rfl⟩, hb⟩, rfl⟩

/-- The places of the entries that pass a test are in ascending order. -/
theorem pairwise_filter_zipIdx {α : Type} (table : List α) (test : α × Nat → Bool) :
    ((table.zipIdx.filter test).map Prod.snd).Pairwise (· < ·) := by
  have hsub : ((table.zipIdx.filter test).map Prod.snd).Sublist (table.zipIdx.map Prod.snd) :=
    List.filter_sublist.map Prod.snd
  rw [List.zipIdx_map_snd] at hsub
  exact (List.pairwise_lt_range' _).sublist hsub

theorem nodup_sources (table : List (List Nat)) (b : Nat) : (sources table b).Nodup :=
  (pairwise_filter_zipIdx table _).imp Nat.ne_of_lt

theorem targets_eq_singleton_iff {i : Instruction} {count b : Nat} :
    i.targets count = [.instruction b] ↔
      i.flow = .continues ∧ Target.resolve i.truePointer count = .instruction b := by
  unfold Instruction.targets Instruction.exits
  cases hflow : i.flow <;> simp

theorem joins_iff {code : List Instruction} {a b : Nat} :
    joins code (successorTable code) a b = true ↔ OnlyStep code a b := by
  unfold joins OnlyStep
  cases hi : code[a]? with
  | none => simp
  | some i =>
      simp only [Bool.and_eq_true, decide_eq_true_eq, targets_eq_singleton_iff,
        Option.some.injEq, exists_eq_left']
      refine and_congr_right fun hjump => ?_
      constructor
      · intro hsources c hc
        rw [← mem_sources_iff, hsources] at hc
        exact List.mem_singleton.mp hc
      · intro honly
        refine List.perm_singleton.mp ((List.perm_ext_iff_of_nodup (nodup_sources _ _)
          (List.nodup_singleton a)).mpr fun c => ?_)
        rw [mem_sources_iff, List.mem_singleton]
        exact ⟨honly c, fun hca => hca ▸ ⟨i, hi, Or.inl hjump.2⟩⟩

/-! ## Runs are intervals -/

/-- The part in the middle of a range is a range, and so is the rest. -/
theorem middle_of_range {left right : List (List Nat)} {run : List Nat} {n : Nat}
    (h : (left ++ run :: right).flatten = List.range n) :
    ∃ start len, run = List.range' start len
      ∧ right.flatten = List.range' (start + len) (n - (start + len)) ∧ start + len ≤ n := by
  rw [List.flatten_append, List.flatten_cons, List.range_eq_range'] at h
  obtain ⟨j, hj, -, hrest⟩ := List.range'_eq_append_iff.mp h.symm
  obtain ⟨len, hlen, hrun, hright⟩ := List.range'_eq_append_iff.mp hrest.symm
  simp only [Nat.zero_add, Nat.mul_one] at hrun hright
  refine ⟨j, len, hrun, ?_, by omega⟩
  rw [hright, Nat.sub_sub]

section

variable {code : List Instruction}

theorem flatten_runs (code : List Instruction) : (runs code).flatten = List.range code.length :=
  List.flatten_splitBy _ _

theorem ne_nil_of_run {k : Nat} {run : List Nat} (h : (runs code)[k]? = some run) : run ≠ [] :=
  List.ne_nil_of_mem_splitBy (List.mem_of_getElem? h)

theorem split_at_run {k : Nat} {run : List Nat} (h : (runs code)[k]? = some run) :
    runs code = (runs code).take k ++ run :: (runs code).drop (k + 1) := by
  obtain ⟨hk, rfl⟩ := List.getElem?_eq_some_iff.mp h
  rw [← List.drop_eq_getElem_cons hk, List.take_append_drop]

theorem run_eq_range' {k : Nat} {run : List Nat} (h : (runs code)[k]? = some run) :
    ∃ start len, run = List.range' start len := by
  have hflat := flatten_runs code
  rw [split_at_run h] at hflat
  obtain ⟨start, len, hrun, -⟩ := middle_of_range hflat
  exact ⟨start, len, hrun⟩

theorem exists_run {i : Nat} (hi : i < code.length) :
    ∃ (k : Nat) (run : List Nat), (runs code)[k]? = some run ∧ i ∈ run := by
  rw [← List.mem_range, ← flatten_runs, List.mem_flatten] at hi
  obtain ⟨run, hrun, hmem⟩ := hi
  obtain ⟨k, hk⟩ := List.mem_iff_getElem?.mp hrun
  exact ⟨k, run, hk, hmem⟩

theorem lt_of_mem_run {i k : Nat} {run : List Nat} (h : (runs code)[k]? = some run)
    (hi : i ∈ run) : i < code.length := by
  rw [← List.mem_range, ← flatten_runs]
  exact List.mem_flatten.mpr ⟨run, List.mem_of_getElem? h, hi⟩

/-- No instruction lies in two runs. -/
theorem run_unique {i k l : Nat} {run other : List Nat} (hk : (runs code)[k]? = some run)
    (hl : (runs code)[l]? = some other) (hi : i ∈ run) (hi' : i ∈ other) : k = l := by
  have hnodup : (runs code).flatten.Nodup := flatten_runs code ▸ List.nodup_range
  have hdisj := (List.nodup_flatten.mp hnodup).2
  obtain ⟨hklt, rfl⟩ := List.getElem?_eq_some_iff.mp hk
  obtain ⟨hllt, rfl⟩ := List.getElem?_eq_some_iff.mp hl
  rw [List.pairwise_iff_getElem] at hdisj
  rcases Nat.lt_trichotomy k l with hlt | heq | hgt
  · exact absurd hi' (hdisj k l hklt hllt hlt hi)
  · exact heq
  · exact absurd hi (hdisj l k hllt hklt hgt hi')

theorem blockOf?_eq_some_iff {i k : Nat} :
    blockOf? (runs code) i = some k ↔ ∃ run, (runs code)[k]? = some run ∧ i ∈ run := by
  unfold blockOf?
  constructor
  · intro h
    obtain ⟨hk, hmem, -⟩ := List.findIdx?_eq_some_iff_getElem.mp h
    exact ⟨_, List.getElem?_eq_getElem hk, List.contains_iff_mem.mp hmem⟩
  · rintro ⟨run, hk, hi⟩
    obtain ⟨hklt, rfl⟩ := List.getElem?_eq_some_iff.mp hk
    refine List.findIdx?_eq_some_iff_getElem.mpr ⟨hklt, List.contains_iff_mem.mpr hi, ?_⟩
    intro j hj hmem
    have := run_unique (List.getElem?_eq_getElem (Nat.lt_trans hj hklt)) hk
      (List.contains_iff_mem.mp hmem) hi
    omega

/-! ## Where a run ends -/

theorem onlyStep_of_succ_mem {a k : Nat} {run : List Nat} (h : (runs code)[k]? = some run)
    (ha : a ∈ run) (hb : a + 1 ∈ run) : OnlyStep code a (a + 1) := by
  have hchain : run.IsChain fun x y => joins code (successorTable code) x y = true :=
    List.isChain_of_mem_splitBy (List.mem_of_getElem? h)
  obtain ⟨start, len, rfl⟩ := run_eq_range' h
  rw [List.mem_range'_1] at ha hb
  rw [List.isChain_iff_getElem] at hchain
  have hjoins := hchain (a - start) (by rw [List.length_range']; omega)
  rw [List.getElem_range', List.getElem_range', joins_iff] at hjoins
  have hfirst : start + 1 * (a - start) = a := by omega
  have hsecond : start + 1 * (a - start + 1) = a + 1 := by omega
  rwa [hfirst, hsecond] at hjoins

/-- A run goes on as long as it can: where the next instruction is left
out, the test between the two has failed. -/
theorem succ_mem_of_onlyStep {a k : Nat} {run : List Nat} (h : (runs code)[k]? = some run)
    (ha : a ∈ run) (hstep : OnlyStep code a (a + 1)) : a + 1 ∈ run := by
  have hchain := List.isChain_getLast_head_splitBy (joins code (successorTable code))
    (List.range code.length)
  have hflat := flatten_runs code
  have hsplit := split_at_run h
  rw [← runs] at hchain
  rw [hsplit] at hflat hchain
  obtain ⟨start, len, rfl, hright, -⟩ := middle_of_range hflat
  by_contra hnot
  have hlast : a + 1 = start + len := by
    rw [List.mem_range'_1] at ha hnot
    omega
  have hlt : a + 1 < code.length := hstep.step.target_lt
  cases hrest : (runs code).drop (k + 1) with
  | nil =>
      rw [hrest, List.flatten_nil] at hright
      have := congrArg List.length hright
      rw [List.length_range', List.length_nil] at this
      omega
  | cons next rest =>
      rw [hrest] at hchain hright
      obtain ⟨-, ⟨hne, hne', hjoins⟩, -⟩ := List.isChain_append_cons_cons.mp hchain
      have hhead : next.head hne' = a + 1 := by
        have := congrArg List.head? hright
        rw [List.flatten_cons, List.head?_append_of_ne_nil _ hne', List.head?_range',
          if_neg (by omega), List.head?_eq_some_head hne'] at this
        rw [Option.some.inj this, hlast]
      have hgetLast : (List.range' start len).getLast hne = a := by
        rw [List.getLast_range']
        omega
      rw [hhead, hgetLast] at hjoins
      exact absurd (joins_iff.mpr hstep) (by rw [hjoins]; exact Bool.false_ne_true)

/-- A step gets into a run at its head or from the instruction before. -/
theorem head_or_succ_of_step {a b k : Nat} {run : List Nat} (h : (runs code)[k]? = some run)
    (hb : b ∈ run) (hstep : Step code a b) : run.head? = some b ∨ a + 1 = b ∧ a ∈ run := by
  obtain ⟨start, len, hrun⟩ := run_eq_range' h
  rw [hrun, List.mem_range'_1] at hb
  rcases Nat.lt_or_eq_of_le hb.1 with hlt | rfl
  · have hbefore : b - 1 ∈ run := by rw [hrun, List.mem_range'_1]; omega
    have hhere : b - 1 + 1 ∈ run := by rw [hrun, List.mem_range'_1]; omega
    have honly := onlyStep_of_succ_mem h hbefore hhere
    have hback : b - 1 + 1 = b := by omega
    rw [hback] at honly
    obtain rfl := honly.2 a hstep
    exact Or.inr ⟨hback, hbefore⟩
  · rw [hrun, List.head?_range', if_neg (by omega)]
    exact Or.inl rfl

theorem succ_mem_of_ne_getLast {a k : Nat} {run : List Nat} (h : (runs code)[k]? = some run)
    (ha : a ∈ run) (hlast : run.getLast? ≠ some a) : a + 1 ∈ run := by
  obtain ⟨start, len, rfl⟩ := run_eq_range' h
  rw [List.mem_range'_1] at ha ⊢
  rw [List.getLast?_range', if_neg (by omega)] at hlast
  have : start + len - 1 ≠ a := fun heq => hlast (congrArg some heq)
  omega

theorem isHead_iff {b k : Nat} {run : List Nat} (h : (runs code)[k]? = some run) (hb : b ∈ run) :
    isHead (runs code) b = true ↔ run.head? = some b := by
  simp only [isHead, List.any_eq_true, decide_eq_true_eq]
  constructor
  · rintro ⟨other, hother, hhead⟩
    obtain ⟨l, hl⟩ := List.mem_iff_getElem?.mp hother
    obtain rfl := run_unique h hl hb (List.mem_of_head? hhead)
    rw [h] at hl
    rwa [Option.some.inj hl]
  · intro hhead
    exact ⟨run, List.mem_of_getElem? h, hhead⟩

/-! ## Edges -/

/-- In a table whose row `a` holds the entries with key `a`, these are
the row. The offset carries the induction past the first row. -/
theorem filter_flatten_mapIdx {α β : Type} {key : β → Nat} {offset a : Nat}
    {row : Nat → α → List β} {table : List α} {x : α}
    (hkey : ∀ c z, ∀ y ∈ row c z, key y = c + offset) (h : table[a]? = some x) :
    (table.mapIdx row).flatten.filter (fun y => key y = a + offset) = row a x := by
  induction table generalizing row offset a with
  | nil => simp at h
  | cons z rest ih =>
      rw [List.mapIdx_cons, List.flatten_cons, List.filter_append]
      cases a with
      | zero =>
          obtain rfl : z = x := by simpa using h
          have hhead : (row 0 z).filter (fun y => key y = 0 + offset) = row 0 z :=
            List.filter_eq_self.mpr fun y hy => by simp [hkey 0 z y hy]
          have htail : (rest.mapIdx fun c => row (c + 1)).flatten.filter
              (fun y => key y = 0 + offset) = [] := by
            refine List.filter_eq_nil_iff.mpr fun y hy => ?_
            obtain ⟨entries, hentries, hy⟩ := List.mem_flatten.mp hy
            obtain ⟨c, hc, rfl⟩ := List.mem_mapIdx.mp hentries
            have := hkey _ _ y hy
            simp only [decide_eq_true_eq]
            omega
          rw [hhead, htail, List.append_nil]
      | succ a =>
          have hhead : (row 0 z).filter (fun y => key y = a + 1 + offset) = [] :=
            List.filter_eq_nil_iff.mpr fun y hy => by
              have := hkey 0 z y hy
              simp only [decide_eq_true_eq]
              omega
          have hshift : a + 1 + offset = a + (offset + 1) := by omega
          rw [hhead, List.nil_append, hshift]
          have hkey' : ∀ c z, ∀ y ∈ row (c + 1) z, key y = c + (offset + 1) := by
            intro c z y hy
            have := hkey (c + 1) z y hy
            omega
          exact ih hkey' (by simpa using h)

theorem mem_edges_iff {e : Edge} :
    e ∈ edges code (runs code) ↔ ∃ a i exit, code[a]? = some i ∧ exit ∈ i.exits
      ∧ e = edge code.length (runs code) a i exit := by
  simp only [edges, List.mem_flatten, List.mem_mapIdx]
  constructor
  · rintro ⟨row, ⟨a, ha, rfl⟩, he⟩
    obtain ⟨exit, hexit, rfl⟩ := List.mem_map.mp he
    exact ⟨a, code[a], exit, List.getElem?_eq_getElem ha, hexit, rfl⟩
  · rintro ⟨a, i, exit, hi, hexit, rfl⟩
    obtain ⟨ha, rfl⟩ := List.getElem?_eq_some_iff.mp hi
    exact ⟨_, ⟨a, ha, rfl⟩, List.mem_map.mpr ⟨exit, hexit, rfl⟩⟩

theorem edge_target_eq_block_iff {a block index : Nat} {i : Instruction} {exit : Bool × UInt8} :
    (edge code.length (runs code) a i exit).target = .block block index ↔
      Target.resolve exit.2 code.length = .instruction index
        ∧ blockOf? (runs code) index = some block := by
  have htarget : (edge code.length (runs code) a i exit).target
      = edgeTarget (runs code) (Target.resolve exit.2 code.length) := rfl
  rw [htarget]
  cases hresolve : Target.resolve exit.2 code.length with
  | instruction b =>
      obtain ⟨k, run, hk, hb⟩ := exists_run (resolve_lt hresolve)
      have hblock : blockOf? (runs code) b = some k := blockOf?_eq_some_iff.mpr ⟨run, hk, hb⟩
      simp only [edgeTarget, hblock, Option.getD_some, EdgeTarget.block.injEq,
        Target.instruction.injEq]
      constructor
      · rintro ⟨rfl, rfl⟩
        exact ⟨rfl, hblock⟩
      · rintro ⟨rfl, hother⟩
        exact ⟨Option.some.inj (hblock.symm.trans hother), rfl⟩
  | terminal t => simp [edgeTarget]
  | invalid pointer => simp [edgeTarget]

/-- The edges into blocks are the steps of control, each with the run of
its target. -/
theorem exists_edge_iff_step {a block index : Nat} :
    (∃ e ∈ edges code (runs code), e.source = a ∧ e.target = .block block index) ↔
      Step code a index ∧ blockOf? (runs code) index = some block := by
  constructor
  · rintro ⟨e, he, rfl, htarget⟩
    obtain ⟨a, i, exit, hi, hexit, rfl⟩ := mem_edges_iff.mp he
    obtain ⟨hresolve, hblock⟩ := edge_target_eq_block_iff.mp htarget
    exact ⟨step_iff_exit.mpr ⟨i, hi, exit, hexit, hresolve⟩, hblock⟩
  · rintro ⟨hstep, hblock⟩
    obtain ⟨i, hi, exit, hexit, hresolve⟩ := step_iff_exit.mp hstep
    exact ⟨_, mem_edges_iff.mpr ⟨a, i, exit, hi, hexit, rfl⟩, rfl,
      edge_target_eq_block_iff.mpr ⟨hresolve, hblock⟩⟩

end

end Flow

namespace FlowGraph

open BehaviorScript.Flow

/-! ## The graph -/

section

variable {code : List Instruction}

theorem instructions_ofCode (code : List Instruction) :
    (ofCode code).blocks.map Block.instructions = runs code := by
  refine List.ext_getElem? fun k => ?_
  simp only [ofCode, List.getElem?_map, List.getElem?_mapIdx, Option.map_map, Function.comp_def,
    Option.map_id']

theorem run_of_block {k : Nat} {b : Block} (h : (ofCode code).blocks[k]? = some b) :
    (runs code)[k]? = some b.instructions ∧ b.id = k := by
  have hrun : (runs code)[k]? = some b.instructions := by
    rw [← instructions_ofCode, List.getElem?_map, h, Option.map_some]
  refine ⟨hrun, ?_⟩
  simp only [ofCode, List.getElem?_mapIdx, hrun, Option.map_some, Option.some.injEq] at h
  rw [← h]

theorem block_of_run {k : Nat} {run : List Nat} (h : (runs code)[k]? = some run) :
    ∃ b, (ofCode code).blocks[k]? = some b ∧ b.instructions = run := by
  rw [← instructions_ofCode, List.getElem?_map, Option.map_eq_some_iff] at h
  exact h

theorem blockOf?_ofCode (code : List Instruction) (i : Nat) :
    (ofCode code).blockOf? i = Flow.blockOf? (runs code) i := by
  ext k
  rw [blockOf?_eq_some_iff, FlowGraph.blockOf?, Option.map_eq_some_iff]
  constructor
  · rintro ⟨b, hfind, hid⟩
    obtain ⟨l, hl⟩ := List.mem_iff_getElem?.mp (List.mem_of_find?_eq_some hfind)
    obtain ⟨hrun, rfl⟩ := run_of_block hl
    have hmem := List.find?_some hfind
    exact ⟨b.instructions, hid ▸ hrun, List.contains_iff_mem.mp hmem⟩
  · rintro ⟨run, hrun, hi⟩
    obtain ⟨b, hb, rfl⟩ := block_of_run hrun
    have hsome : ((ofCode code).blocks.find? fun block =>
        block.instructions.contains i).isSome := by
      rw [List.find?_isSome]
      exact ⟨b, List.mem_of_getElem? hb, List.contains_iff_mem.mpr hi⟩
    obtain ⟨c, hfind⟩ := Option.isSome_iff_exists.mp hsome
    obtain ⟨l, hl⟩ := List.mem_iff_getElem?.mp (List.mem_of_find?_eq_some hfind)
    obtain ⟨hother, hid⟩ := run_of_block hl
    have hmem := List.find?_some hfind
    exact ⟨c, hfind, hid.trans (run_unique hother hrun (List.contains_iff_mem.mp hmem) hi)⟩

theorem blockOf?_ofCode_eq_some_iff {i k : Nat} :
    (ofCode code).blockOf? i = some k ↔
      ∃ b, (ofCode code).blocks[k]? = some b ∧ i ∈ b.instructions := by
  rw [blockOf?_ofCode, blockOf?_eq_some_iff]
  constructor
  · rintro ⟨run, hrun, hi⟩
    obtain ⟨b, hb, rfl⟩ := block_of_run hrun
    exact ⟨b, hb, hi⟩
  · rintro ⟨b, hb, hi⟩
    exact ⟨_, (run_of_block hb).1, hi⟩

theorem blockOf?_ofCode_eq_none_iff {i : Nat} :
    (ofCode code).blockOf? i = none ↔ code.length ≤ i := by
  rw [blockOf?_ofCode, Option.eq_none_iff_forall_ne_some]
  constructor
  · intro h
    by_contra hlt
    obtain ⟨k, run, hrun, hi⟩ := exists_run (Nat.not_le.mp hlt)
    exact h k (blockOf?_eq_some_iff.mpr ⟨run, hrun, hi⟩)
  · intro hle k hk
    obtain ⟨run, hrun, hi⟩ := blockOf?_eq_some_iff.mp hk
    have := lt_of_mem_run hrun hi
    omega

/-- The edges that leave an instruction, in the order of its exits. -/
theorem edgesFrom_ofCode {a : Nat} {i : Instruction} (hi : code[a]? = some i) :
    (ofCode code).edgesFrom a = i.exits.map (edge code.length (runs code) a i) := by
  have hsource : ∀ (c : Nat) (j : Instruction),
      ∀ e ∈ j.exits.map (edge code.length (runs code) c j), e.source = c + 0 := by
    intro c j e he
    obtain ⟨exit, -, rfl⟩ := List.mem_map.mp he
    rfl
  exact filter_flatten_mapIdx hsource hi

end

/-- The blocks cut the code into runs that control enters at the head and
leaves at the end, and they are as long as that allows. -/
structure Partition (g : FlowGraph) (code : List Instruction) : Prop where
  /-- The blocks one after another hold every index once, in order. -/
  covers : (g.blocks.map Block.instructions).flatten = List.range code.length
  /-- Block `k` has id `k` and holds consecutive indices, at least one. -/
  interval : ∀ (k : Nat) (b : Block), g.blocks[k]? = some b → b.id = k ∧ b.instructions ≠ []
    ∧ ∃ start, b.instructions = List.range' start b.instructions.length
  /-- The block of an instruction is the one that holds it. -/
  blockOf : ∀ i k, g.blockOf? i = some k ↔
    ∃ b : Block, g.blocks[k]? = some b ∧ i ∈ b.instructions
  blockOf_none : ∀ i, g.blockOf? i = none ↔ code.length ≤ i
  /-- Neighbours share a block just when control always continues from
  one to the other and gets to it from nowhere else. -/
  maximal : ∀ a, (∃ b ∈ g.blocks, a ∈ b.instructions ∧ a + 1 ∈ b.instructions) ↔
    OnlyStep code a (a + 1)
  /-- An edge into a block names the block of its target and leads to the
  head of it or to the next instruction inside. -/
  entry : ∀ e ∈ g.edges, ∀ block index, e.target = .block block index →
    index < code.length ∧ ∃ b : Block, g.blocks[block]? = some b ∧ index ∈ b.instructions
      ∧ (b.instructions.head? = some index ∨ e.source + 1 = index ∧ e.source ∈ b.instructions)
  /-- Before the end of a block there is one edge, to the next instruction
  of the block. -/
  inner : ∀ b ∈ g.blocks, ∀ a ∈ b.instructions, b.instructions.getLast? ≠ some a →
    a + 1 ∈ b.instructions ∧ ∃ e, g.edgesFrom a = [e] ∧ e.target = .block b.id (a + 1)

theorem sameBlock_iff_onlyStep {code : List Instruction} {a : Nat} :
    (∃ b ∈ (ofCode code).blocks, a ∈ b.instructions ∧ a + 1 ∈ b.instructions) ↔
      OnlyStep code a (a + 1) := by
  constructor
  · rintro ⟨b, hb, ha, hsucc⟩
    obtain ⟨k, hk⟩ := List.mem_iff_getElem?.mp hb
    exact onlyStep_of_succ_mem (run_of_block hk).1 ha hsucc
  · intro hstep
    obtain ⟨k, run, hrun, ha⟩ := exists_run hstep.step.source_lt
    obtain ⟨b, hb, rfl⟩ := block_of_run hrun
    exact ⟨b, List.mem_of_getElem? hb, ha, succ_mem_of_onlyStep hrun ha hstep⟩

theorem enters_at_head_or_next {code : List Instruction} {e : Edge} {block index : Nat}
    (he : e ∈ (ofCode code).edges) (htarget : e.target = .block block index) :
    index < code.length ∧ ∃ b, (ofCode code).blocks[block]? = some b ∧ index ∈ b.instructions
      ∧ (b.instructions.head? = some index ∨ e.source + 1 = index ∧ e.source ∈ b.instructions) := by
  obtain ⟨hstep, hblock⟩ := exists_edge_iff_step.mp ⟨e, he, rfl, htarget⟩
  rw [← blockOf?_ofCode] at hblock
  obtain ⟨b, hb, hindex⟩ := blockOf?_ofCode_eq_some_iff.mp hblock
  exact ⟨hstep.target_lt, b, hb, hindex,
    head_or_succ_of_step (run_of_block hb).1 hindex hstep⟩

theorem inner_edge {code : List Instruction} {b : Block} {a : Nat}
    (hb : b ∈ (ofCode code).blocks) (ha : a ∈ b.instructions)
    (hlast : b.instructions.getLast? ≠ some a) :
    a + 1 ∈ b.instructions
      ∧ ∃ e, (ofCode code).edgesFrom a = [e] ∧ e.target = .block b.id (a + 1) := by
  obtain ⟨k, hk⟩ := List.mem_iff_getElem?.mp hb
  obtain ⟨hrun, rfl⟩ := run_of_block hk
  have hsucc := succ_mem_of_ne_getLast hrun ha hlast
  obtain ⟨⟨i, hi, hflow, htarget⟩, -⟩ := onlyStep_of_succ_mem hrun ha hsucc
  have hexits : i.exits = [(true, i.truePointer)] := by
    rw [Instruction.exits, hflow]
  refine ⟨hsucc, edge code.length (runs code) a i (true, i.truePointer), ?_,
    edge_target_eq_block_iff.mpr ⟨htarget, blockOf?_eq_some_iff.mpr ⟨_, hrun, hsucc⟩⟩⟩
  rw [edgesFrom_ofCode hi, hexits, List.map_singleton]

theorem partition_ofCode (code : List Instruction) : (ofCode code).Partition code where
  covers := by rw [instructions_ofCode, flatten_runs]
  interval := by
    intro k b hb
    obtain ⟨hrun, hid⟩ := run_of_block hb
    obtain ⟨start, len, heq⟩ := run_eq_range' hrun
    exact ⟨hid, ne_nil_of_run hrun, start, by rw [heq, List.length_range']⟩
  blockOf := fun _ _ => blockOf?_ofCode_eq_some_iff
  blockOf_none := fun _ => blockOf?_ofCode_eq_none_iff
  maximal := fun _ => sameBlock_iff_onlyStep
  entry := fun _ he _ _ htarget => enters_at_head_or_next he htarget
  inner := fun _ hb _ ha hlast => inner_edge hb ha hlast

end FlowGraph

end BehaviorScript
