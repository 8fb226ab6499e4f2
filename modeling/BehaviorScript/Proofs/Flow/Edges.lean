import BehaviorScript.Proofs.Flow.Loops

/-!
# Edges and links

What a flow graph keeps of the pointers. Its edges are the pointers in
use one after another, each with the place that it leads to
(`represents_edge`); blocks only add the name of the block and the mark
for falling through, which depends on where blocks begin.

The links between blocks are gathered from all edges and lose the
instructions. Nothing is lost by that: before its end control does not
leave a block (`getLast_of_step_to_head`), so a link is an edge from the
end of one block to the head of another, and can be read from either side
(`mem_successors_iff`, `mem_predecessors_iff`).
-/

namespace BehaviorScript

namespace Flow

variable {code : List Instruction}

/-! ## Pointers -/

theorem resolve_of_lt {pointer : UInt8} {count : Nat} (hlt : pointer.toNat < count)
    (hcount : count ≤ 253) : Target.resolve pointer count = .instruction pointer.toNat := by
  have hne : ∀ terminal : UInt8, 253 ≤ terminal.toNat → pointer ≠ terminal := by
    intro terminal hterminal heq
    rw [heq] at hlt
    omega
  unfold Target.resolve
  rw [if_neg (hne 253 (by decide)), if_neg (hne 254 (by decide)), if_neg (hne 255 (by decide)),
    if_pos hlt]

theorem resolve_of_le {pointer : UInt8} {count : Nat} (hle : count ≤ pointer.toNat)
    (hend : pointer ∉ [253, 254, 255]) : Target.resolve pointer count = .invalid pointer := by
  simp only [List.mem_cons, List.not_mem_nil, or_false, not_or] at hend
  obtain ⟨herror, hfalse, htrue⟩ := hend
  unfold Target.resolve
  rw [if_neg herror, if_neg hfalse, if_neg htrue, if_neg (Nat.not_lt.mpr hle)]

theorem exists_blockOf? {a : Nat} (hlt : a < code.length) :
    ∃ block, blockOf? (runs code) a = some block := by
  obtain ⟨k, run, hrun, hmem⟩ := exists_run hlt
  exact ⟨k, blockOf?_eq_some_iff.mpr ⟨run, hrun, hmem⟩⟩

theorem exists_edge_target_iff {a b : Nat} {i : Instruction} {exit : Bool × UInt8} :
    (∃ block, (edge code.length (runs code) a i exit).target = .block block b) ↔
      Target.resolve exit.2 code.length = .instruction b := by
  simp only [edge_target_eq_block_iff]
  constructor
  · intro h
    obtain ⟨_, hresolve, -⟩ := h
    exact hresolve
  · intro hresolve
    obtain ⟨block, hblock⟩ := exists_blockOf? (resolve_lt hresolve)
    exact ⟨block, hresolve, hblock⟩

/-! ## Links -/

/-- Before its end a run is left for the next instruction inside only, and
that one is no head. -/
theorem getLast_of_step_to_head {k l a b : Nat} {run other : List Nat}
    (hrun : (runs code)[k]? = some run) (hother : (runs code)[l]? = some other) (ha : a ∈ run)
    (hhead : other.head? = some b) (hstep : Step code a b) : run.getLast? = some a := by
  by_contra hlast
  have hsucc := succ_mem_of_ne_getLast hrun ha hlast
  obtain ⟨⟨i, hi, hflow, htarget⟩, -⟩ := onlyStep_of_succ_mem hrun ha hsucc
  obtain ⟨j, hj, htrue | ⟨hbranch, -⟩⟩ := hstep
  · obtain rfl := Option.some.inj (hi.symm.trans hj)
    obtain rfl := Target.instruction.inj (htarget.symm.trans htrue)
    obtain rfl := run_unique hrun hother hsucc (List.mem_of_head? hhead)
    obtain rfl := Option.some.inj (hrun.symm.trans hother)
    obtain ⟨start, len, rfl⟩ := run_eq_range' hrun
    rw [List.mem_range'_1] at ha
    rw [List.head?_range', if_neg (by omega), Option.some.injEq] at hhead
    omega
  · obtain rfl := Option.some.inj (hi.symm.trans hj)
    rw [hflow] at hbranch
    cases hbranch

end Flow

namespace FlowGraph

open BehaviorScript.Flow

variable {code : List Instruction}

theorem links_of_block {k : Nat} {b : Block} (h : (ofCode code).blocks[k]? = some b) :
    b.successors = ((links (runs code) (Flow.edges code (runs code)))[k]?).getD []
      ∧ b.predecessors = (List.range (runs code).length).filter fun other =>
        (((links (runs code) (Flow.edges code (runs code)))[other]?).getD []).contains k := by
  obtain ⟨hrun, -⟩ := run_of_block h
  simp only [ofCode, List.getElem?_mapIdx, hrun, Option.map_some, Option.some.injEq] at h
  rw [← h]
  exact ⟨rfl, rfl⟩

/-- An edge goes from the end of block `a` to the head of block `b`. -/
def LeadsTo (g : FlowGraph) (a b : Block) : Prop :=
  ∃ e ∈ g.edges, a.instructions.getLast? = some e.source
    ∧ ∃ block first, b.instructions.head? = some first ∧ e.target = .block block first

theorem link_iff_leadsTo {k l : Nat} {a b : Block} (ha : (ofCode code).blocks[k]? = some a)
    (hb : (ofCode code).blocks[l]? = some b) : Link code k l ↔ (ofCode code).LeadsTo a b := by
  obtain ⟨hrun, -⟩ := run_of_block ha
  obtain ⟨hother, -⟩ := run_of_block hb
  rw [link_iff]
  constructor
  · intro h
    obtain ⟨_, _, source, first, hrun', hother', hsource, hhead, hstep⟩ := h
    obtain rfl := Option.some.inj (hrun.symm.trans hrun')
    obtain rfl := Option.some.inj (hother.symm.trans hother')
    have hlast := getLast_of_step_to_head hrun hother hsource hhead hstep
    obtain ⟨e, he, rfl, block, htarget⟩ := exists_edge_to_iff.mpr hstep
    exact ⟨e, he, hlast, block, first, hhead, htarget⟩
  · intro h
    obtain ⟨e, he, hlast, block, first, hhead, htarget⟩ := h
    have hstep := exists_edge_to_iff.mp ⟨e, he, rfl, block, htarget⟩
    exact ⟨_, _, e.source, first, hrun, hother, List.mem_of_getLast? hlast, hhead, hstep⟩

theorem mem_successors_iff {a b : Block} (ha : a ∈ (ofCode code).blocks)
    (hb : b ∈ (ofCode code).blocks) : b.id ∈ a.successors ↔ (ofCode code).LeadsTo a b := by
  obtain ⟨k, hk⟩ := List.mem_iff_getElem?.mp ha
  obtain ⟨l, hl⟩ := List.mem_iff_getElem?.mp hb
  rw [← link_iff_leadsTo hk hl, (links_of_block hk).1, (run_of_block hl).2, Link]

theorem mem_predecessors_iff {a b : Block} (ha : a ∈ (ofCode code).blocks)
    (hb : b ∈ (ofCode code).blocks) : a.id ∈ b.predecessors ↔ (ofCode code).LeadsTo a b := by
  obtain ⟨k, hk⟩ := List.mem_iff_getElem?.mp ha
  obtain ⟨l, hl⟩ := List.mem_iff_getElem?.mp hb
  obtain ⟨hrun, hid⟩ := run_of_block hk
  have hlt := (List.getElem?_eq_some_iff.mp hrun).1
  rw [← link_iff_leadsTo hk hl, (links_of_block hl).2, hid, List.mem_filter, List.mem_range,
    List.contains_iff_mem, and_iff_right hlt, Link]

theorem pairwise_successors {b : Block} (hb : b ∈ (ofCode code).blocks) :
    b.successors.Pairwise (· < ·) := by
  obtain ⟨k, hk⟩ := List.mem_iff_getElem?.mp hb
  rw [(links_of_block hk).1, links, List.getElem?_mapIdx, (run_of_block hk).1]
  exact List.pairwise_lt_range.filter _

theorem pairwise_predecessors {b : Block} (hb : b ∈ (ofCode code).blocks) :
    b.predecessors.Pairwise (· < ·) := by
  obtain ⟨k, hk⟩ := List.mem_iff_getElem?.mp hb
  rw [(links_of_block hk).2]
  exact List.pairwise_lt_range.filter _

theorem exists_block_of_link {b : Block} (hb : b ∈ (ofCode code).blocks) {l : Nat}
    (h : l ∈ b.successors ∨ l ∈ b.predecessors) : ∃ c ∈ (ofCode code).blocks, c.id = l := by
  obtain ⟨k, hk⟩ := List.mem_iff_getElem?.mp hb
  have hlt : l < (runs code).length := by
    rcases h with hsucc | hpred
    · rw [(links_of_block hk).1] at hsucc
      exact Link.target_lt hsucc
    · rw [(links_of_block hk).2, List.mem_filter, List.mem_range] at hpred
      exact hpred.1
  obtain ⟨c, hc, -⟩ := block_of_run (List.getElem?_eq_getElem hlt)
  exact ⟨c, List.mem_of_getElem? hc, (run_of_block hc).2⟩

/-! ## Edges -/

theorem isHead_runs_iff {b : Nat} :
    isHead (runs code) b = true ↔ ∃ block ∈ (ofCode code).blocks,
      block.instructions.head? = some b := by
  rw [isHead, ← instructions_ofCode]
  simp

/-- The edge `e` stands for a pointer of instruction `i` at index `a`, the
one for `outcome`, in a script of `count` instructions. -/
structure Represents (g : FlowGraph) (count a : Nat) (i : Instruction) (outcome : Bool)
    (pointer : UInt8) (e : Edge) : Prop where
  source : e.source = a
  error : pointer = 253 → e.target = .terminal .error
  returnFalse : pointer = 254 → e.target = .terminal .returnFalse
  returnTrue : pointer = 255 → e.target = .terminal .returnTrue
  inside : pointer.toNat < count → ∃ block, g.blockOf? pointer.toNat = some block
    ∧ e.target = .block block pointer.toNat
  outside : count ≤ pointer.toNat → pointer ∉ [253, 254, 255] → e.target = .invalid pointer
  /-- Falling through is to continue to the next instruction where a block
  begins. -/
  fallthrough : e.kind = .fallthrough ↔ i.flow = .continues
    ∧ (∃ block, e.target = .block block (a + 1))
    ∧ ∃ b ∈ g.blocks, b.instructions.head? = some (a + 1)
  kind : e.kind ≠ .fallthrough → e.kind = if outcome then .whenTrue else .whenFalse

theorem kind_edge {a : Nat} {i : Instruction} {exit : Bool × UInt8} :
    (edge code.length (runs code) a i exit).kind
      = if i.flow = .continues ∧ Target.resolve exit.2 code.length = .instruction (a + 1)
          ∧ isHead (runs code) (a + 1) = true
        then .fallthrough else if exit.1 then .whenTrue else .whenFalse := by
  unfold edge
  cases hresolve : Target.resolve exit.2 code.length with
  | instruction b =>
      by_cases hb : b = a + 1
      · subst hb
        simp
      · simp [hb]
  | terminal t => simp
  | invalid pointer => simp

theorem represents_edge (hcount : code.length ≤ 253) (a : Nat) (i : Instruction)
    (exit : Bool × UInt8) :
    (ofCode code).Represents code.length a i exit.1 exit.2
      (edge code.length (runs code) a i exit) := by
  have htarget : (edge code.length (runs code) a i exit).target
      = edgeTarget (runs code) (Target.resolve exit.2 code.length) := rfl
  refine ⟨rfl, ?_, ?_, ?_, ?_, ?_, ?_, ?_⟩
  · intro hpointer
    rw [htarget, hpointer]
    rfl
  · intro hpointer
    rw [htarget, hpointer]
    rfl
  · intro hpointer
    rw [htarget, hpointer]
    rfl
  · intro hlt
    obtain ⟨block, hblock⟩ := exists_blockOf? hlt
    refine ⟨block, (blockOf?_ofCode code _).trans hblock, ?_⟩
    exact edge_target_eq_block_iff.mpr ⟨resolve_of_lt hlt hcount, hblock⟩
  · intro hle hend
    rw [htarget, resolve_of_le hle hend]
    rfl
  · rw [kind_edge, ← isHead_runs_iff, exists_edge_target_iff]
    cases exit.1 <;> simp
  · intro hkind
    rw [kind_edge] at hkind ⊢
    split
    · next hfall => exact absurd (if_pos hfall) hkind
    · rfl

/-- The edges of one instruction: the true pointer, and the false pointer
behind it where control branches. -/
def IsRow (g : FlowGraph) (count a : Nat) (i : Instruction) (row : List Edge) : Prop :=
  match i.flow with
  | .continues => ∃ e, row = [e] ∧ g.Represents count a i true i.truePointer e
  | .branches => ∃ e e', row = [e, e'] ∧ g.Represents count a i true i.truePointer e
    ∧ g.Represents count a i false i.falsePointer e'

theorem isRow_ofCode (hcount : code.length ≤ 253) (a : Nat) (i : Instruction) :
    (ofCode code).IsRow code.length a i (i.exits.map (edge code.length (runs code) a i)) := by
  unfold IsRow Instruction.exits
  cases i.flow with
  | continues => exact ⟨_, rfl, represents_edge hcount a i (true, i.truePointer)⟩
  | branches =>
      exact ⟨_, _, rfl, represents_edge hcount a i (true, i.truePointer),
        represents_edge hcount a i (false, i.falsePointer)⟩

/-! ## The graph and the pointers -/

/-- A flow graph that says what the pointers say, no more and no less. -/
structure Faithful (g : FlowGraph) (code : List Instruction) : Prop where
  /-- The edges come instruction by instruction. -/
  edges : ∃ rows : List (List Edge), g.edges = rows.flatten ∧ rows.length = code.length
    ∧ ∀ a i, code[a]? = some i → ∃ row, rows[a]? = some row ∧ g.IsRow code.length a i row
  successors : ∀ a ∈ g.blocks, ∀ b ∈ g.blocks, b.id ∈ a.successors ↔ g.LeadsTo a b
  predecessors : ∀ a ∈ g.blocks, ∀ b ∈ g.blocks, a.id ∈ b.predecessors ↔ g.LeadsTo a b
  /-- Only blocks are linked, each of them once and in order. -/
  ascending : ∀ b ∈ g.blocks, b.successors.Pairwise (· < ·) ∧ b.predecessors.Pairwise (· < ·)
  named : ∀ b ∈ g.blocks, ∀ l, l ∈ b.successors ∨ l ∈ b.predecessors → ∃ c ∈ g.blocks, c.id = l

theorem faithful_ofCode {code : List Instruction} (hcount : code.length ≤ 253) :
    (ofCode code).Faithful code where
  edges := by
    refine ⟨code.mapIdx fun a i => i.exits.map (edge code.length (runs code) a i), rfl,
      List.length_mapIdx, ?_⟩
    intro a i hi
    exact ⟨_, by rw [List.getElem?_mapIdx, hi, Option.map_some], isRow_ofCode hcount a i⟩
  successors := fun _ ha _ hb => mem_successors_iff ha hb
  predecessors := fun _ ha _ hb => mem_predecessors_iff ha hb
  ascending := fun _ hb => ⟨pairwise_successors hb, pairwise_predecessors hb⟩
  named := fun _ hb _ hl => exists_block_of_link hb hl

/-- Falls through to a test that is repeated until it fails, and then
leads nowhere. -/
def repeatedTest : List Instruction :=
  [⟨0x00, 1, 253, ⟨0, 0, 0, 0, 0, 0, 0, 0⟩⟩, ⟨0x02, 1, 200, ⟨0, 0, 1, 0, 0, 2, 9, 7⟩⟩]

theorem faithful_ofCode_repeatedTest :
    repeatedTest.length ≤ 253
      ∧ (ofCode repeatedTest).LeadsTo ⟨1, [1], true, true, [0, 1], [1]⟩
        ⟨1, [1], true, true, [0, 1], [1]⟩
      ∧ ∃ e ∈ (ofCode repeatedTest).edges, e.source = 1 ∧ e.target = .invalid 200 := by
  have hcount : repeatedTest.length ≤ 253 := by decide
  have hfaithful := faithful_ofCode hcount
  have hblock : ⟨1, [1], true, true, [0, 1], [1]⟩ ∈ (ofCode repeatedTest).blocks := by
    decide +kernel
  refine ⟨hcount, (hfaithful.successors _ hblock _ hblock).mp (by decide), ?_⟩
  obtain ⟨rows, hedges, -, hrows⟩ := hfaithful.edges
  obtain ⟨row, hrow, hpointers⟩ := hrows 1 _ rfl
  obtain ⟨e, e', rfl, -, hfalse⟩ : ∃ e e', row = [e, e']
      ∧ (ofCode repeatedTest).Represents 2 1 ⟨0x02, 1, 200, ⟨0, 0, 1, 0, 0, 2, 9, 7⟩⟩ true 1 e
      ∧ (ofCode repeatedTest).Represents 2 1 ⟨0x02, 1, 200, ⟨0, 0, 1, 0, 0, 2, 9, 7⟩⟩ false 200 e' :=
    hpointers
  refine ⟨e', ?_, hfalse.source, hfalse.outside (by decide) (by decide)⟩
  rw [hedges]
  exact List.mem_flatten.mpr ⟨_, List.mem_of_getElem? hrow, by simp⟩

end FlowGraph

end BehaviorScript
