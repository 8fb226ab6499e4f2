import BehaviorScript.Proofs.CallGraph.Callers
import BehaviorScript.Proofs.Script.Sorting
import Mathlib.Data.List.Sort

/-!
# Interning

`build` writes every node down at once, since it looks at all scripts and
all calls. The loops that it stands for do not: they grow one arena, in
which an id gets its place when it is first met, and the node at a place is
written to again and again. The first loop describes the scripts, the second
one draws their calls and meets new ids on the way, the third one adds the
hooks.

- What the arena holds at any time follows from what the loops have done
  so far (`Progress`): `Reflects` says so for its nodes, its edges and its
  places.
- Each step keeps it so: `Reflects.intern`, `Reflects.addScript`,
  `Reflects.addCall`, `Reflects.addHooks`. An id that is met later never
  moves the others, as those met so far are always the front of all ids
  (`nodeIds_of_front`).
- When the loops have gone through everything, the arena is the graph
  (`graph_grow`), and its places are those that a search finds
  (`places_grow`).
-/

namespace BehaviorScript

/-- A call graph under construction. -/
structure CallArena where
  nodes : List CallNode
  edges : List CallEdge
  /-- The place of each id that was met. -/
  places : IdMap Nat

namespace CallArena

open CallGraph

/-! ## The loops -/

def empty : CallArena := ⟨[], [], IdMap.empty⟩

def graph (g : CallArena) : CallGraph := ⟨g.nodes, g.edges⟩

/-- The node of an id that nothing is known of. -/
def blankNode (id : UInt16) : CallNode := ⟨id, none, 0, true, false, [], [], []⟩

/-- The place of an id. An id that was not met before gets the next one,
with a blank node. -/
def intern (g : CallArena) (id : UInt16) : CallArena × Nat :=
  match g.places.get? id with
  | some place => (g, place)
  | none =>
    ({ g with
        nodes := g.nodes ++ [blankNode id]
        places := g.places.insert id g.nodes.length }, g.nodes.length)

def update (g : CallArena) (place : Nat) (f : CallNode → CallNode) : CallArena :=
  { g with nodes := g.nodes.modify place f }

/-- Writes down what a script says of itself, over what an earlier one of
the same id has said. -/
def addScript (g : CallArena) (s : ScriptCalls) : CallArena :=
  let (g, place) := g.intern s.id
  g.update place fun n =>
    { n with owner := some s.owner, instructionCount := s.instructionCount, isExternal := false }

/-- An ascending list of places with one more in it. -/
def insertPlace (places : List Nat) (place : Nat) : List Nat :=
  if place ∈ places then places else places.orderedInsert (· ≤ ·) place

/-- The two nodes of a call learn of each other, or the one of itself. -/
def connect (g : CallArena) (caller callee : Nat) : CallArena :=
  if callee = caller then g.update caller fun n => { n with isRecursive := true }
  else
    (g.update caller fun n => { n with callees := insertPlace n.callees callee }).update callee
      fun n => { n with callers := insertPlace n.callers caller }

def addCall (caller : Nat) (g : CallArena) (entry : UInt16 × Nat) : CallArena :=
  let (g, callee) := g.intern entry.1
  let g := g.connect caller callee
  { g with edges := g.edges ++ [⟨.script caller, callee, .call, entry.2⟩] }

/-- The calls of a script. A script without a place would be passed over. -/
def addCalls (g : CallArena) (s : ScriptCalls) : CallArena :=
  match g.places.get? s.id with
  | some caller => s.callees.entries.foldl (addCall caller) g
  | none => g

def addHooks (evidence : EvidenceTable) (g : CallArena) (entry : UInt16 × Nat) : CallArena :=
  let hooks := (evidence.get entry.1).hooks
  let edges := hooks.map fun hook => ⟨.engine hook, entry.2, .ofHook hook, 1⟩
  { g with edges := g.edges ++ edges }.update entry.2 fun n => { n with hooks }

/-- The three loops, one after another. -/
def grow (scripts : List ScriptCalls) (evidence : EvidenceTable) : CallArena :=
  let sorted := sortScripts scripts
  let g := sorted.foldl addCalls (sorted.foldl addScript empty)
  g.places.entries.foldl (addHooks evidence) g

/-! ## What the loops have done -/

/-- The ids in the order in which the loops meet them. -/
def mentioned (sorted : List ScriptCalls) : List UInt16 :=
  sorted.map (fun s => s.id) ++ sorted.flatMap fun s => s.callees.keys

/-- How far the loops have come. -/
structure Progress where
  /-- The ids that were met, with all repetitions. -/
  met : List UInt16
  described : List ScriptCalls
  calls : List CallEdge
  /-- The ids whose hooks were added. -/
  hooked : List UInt16

section

variable (sorted : List ScriptCalls) (evidence : EvidenceTable)

def placeOf (id : UInt16) : Nat := (nodeIds sorted).idxOf id

def callEdge (caller : UInt16) (entry : UInt16 × Nat) : CallEdge :=
  ⟨.script (placeOf sorted caller), placeOf sorted entry.1, .call, entry.2⟩

def hookEdgesOf (id : UInt16) : List CallEdge :=
  (evidence.get id).hooks.map fun hook => ⟨.engine hook, placeOf sorted id, .ofHook hook, 1⟩

/-- The node of an id, as far as the loops have come. -/
def nodeSoFar (p : Progress) (id : UInt16) : CallNode :=
  { node p.described evidence (nodeIds sorted).length p.calls (placeOf sorted id) id with
    hooks := if id ∈ p.hooked then (evidence.get id).hooks else [] }

/-- The arena is what the progress makes of it. -/
structure Reflects (p : Progress) (g : CallArena) : Prop where
  /-- The ids are met in their order. -/
  front : p.met <+: mentioned sorted
  nodes : g.nodes = p.met.eraseDups.map (nodeSoFar sorted evidence p)
  places : ∀ id, g.places.get? id = if id ∈ p.met then some (placeOf sorted id) else none
  edges : g.edges = p.calls ++ p.hooked.flatMap (hookEdgesOf sorted evidence)
  described : ∀ s ∈ p.described, s.id ∈ p.met
  calls : ∀ e ∈ p.calls, ∃ caller ∈ p.met, ∃ entry, entry.1 ∈ p.met
    ∧ e = callEdge sorted caller entry
  hooked : ∀ id ∈ p.hooked, id ∈ p.met

end

variable {sorted : List ScriptCalls} {evidence : EvidenceTable} {p : Progress} {g : CallArena}

/-! ## Places -/

theorem eraseDups_concat (ids : List UInt16) (id : UInt16) :
    (ids ++ [id]).eraseDups = if id ∈ ids then ids.eraseDups else ids.eraseDups ++ [id] := by
  rw [List.eraseDups_append]
  by_cases hid : id ∈ ids <;> simp [hid, List.removeAll, List.eraseDups_cons]

section

variable {met : List UInt16} {id : UInt16} (hfront : met <+: mentioned sorted)
include hfront

theorem mem_nodeIds_of_front (hid : id ∈ met) : id ∈ nodeIds sorted :=
  List.mem_eraseDups.mpr (hfront.subset hid)

/-- The ids that were met have the first places. -/
theorem nodeIds_of_front : met.eraseDups <+: nodeIds sorted := by
  obtain ⟨rest, hrest⟩ := hfront
  have hids : nodeIds sorted = (met ++ rest).eraseDups := by rw [hrest]; rfl
  rw [hids, List.eraseDups_append]
  exact List.prefix_append _ _

theorem placeOf_of_mem (hid : id ∈ met) : placeOf sorted id = met.eraseDups.idxOf id := by
  obtain ⟨rest, hrest⟩ := nodeIds_of_front hfront
  rw [placeOf, ← hrest, List.idxOf_append_of_mem (List.mem_eraseDups.mpr hid)]

theorem placeOf_inj (hid : id ∈ met) {other : UInt16} :
    placeOf sorted id = placeOf sorted other ↔ id = other :=
  List.idxOf_inj (mem_nodeIds_of_front hfront hid)

theorem placeOf_lt (hid : id ∈ met) : placeOf sorted id < (nodeIds sorted).length :=
  List.idxOf_lt_length_of_mem (mem_nodeIds_of_front hfront hid)

/-- Writing to the node at the place of an id concerns this id alone. -/
theorem nodes_update (hid : id ∈ met) {f : UInt16 → CallNode}
    (hnodes : g.nodes = met.eraseDups.map f) (change : CallNode → CallNode) :
    (g.update (placeOf sorted id) change).nodes
      = met.eraseDups.map fun other => if other = id then change (f other) else f other := by
  rw [update, placeOf_of_mem hfront hid, hnodes]
  refine List.ext_getElem? fun q => ?_
  rw [List.getElem?_modify, List.getElem?_map, List.getElem?_map]
  cases hq : met.eraseDups[q]? with
  | none => rfl
  | some other =>
      obtain ⟨hlt, rfl⟩ := List.getElem?_eq_some_iff.mp hq
      have hplace : met.eraseDups.idxOf id = q ↔ met.eraseDups[q] = id := by
        rw [← List.idxOf_inj (List.getElem_mem hlt), (nodup_eraseDups met).idxOf_getElem q hlt,
          eq_comm]
      simp only [Option.map_some, Option.map_eq_map, hplace]

end

/-- A new id gets the place behind all others. -/
theorem placeOf_of_new {met : List UInt16} {id : UInt16}
    (hfront : met ++ [id] <+: mentioned sorted) (hid : id ∉ met) :
    placeOf sorted id = met.eraseDups.length := by
  have hnew : id ∉ met.eraseDups := fun h => hid (List.mem_eraseDups.mp h)
  rw [placeOf_of_mem hfront (List.mem_append_right _ (List.mem_singleton.mpr rfl)),
    eraseDups_concat, if_neg hid, List.idxOf_append_of_notMem hnew, List.idxOf_cons_self,
    Nat.add_zero]

/-! ## One more call -/

/-- Inserting one place after another collects them in their order. -/
theorem insertPlace_filter {count place : Nat} (hplace : place < count) (places : List Nat) :
    insertPlace ((List.range count).filter places.contains) place
      = (List.range count).filter (places ++ [place]).contains := by
  have hnodup : ∀ l : List Nat, ((List.range count).filter l.contains).Nodup :=
    fun l => List.nodup_range.filter _
  have hascending : ∀ l : List Nat, ((List.range count).filter l.contains).Pairwise (· ≤ ·) :=
    fun l => (List.pairwise_lt_range.filter _).imp Nat.le_of_lt
  have hmem : ∀ (l : List Nat) q, q ∈ (List.range count).filter l.contains ↔ q < count ∧ q ∈ l := by
    simp
  unfold insertPlace
  split
  · next hold =>
    have hknown : place ∈ places := ((hmem _ _).mp hold).2
    refine List.filter_congr fun q _ => ?_
    rw [Bool.eq_iff_iff, List.contains_iff_mem, List.contains_iff_mem, List.mem_append,
      List.mem_singleton]
    exact ⟨Or.inl, fun h => h.elim id fun heq => heq ▸ hknown⟩
  · next hnew =>
    refine List.Perm.eq_of_pairwise (fun a b _ _ => Nat.le_antisymm)
      ((hascending places).orderedInsert place _) (hascending _) ?_
    refine (List.perm_orderedInsert _ place _).trans ?_
    rw [List.perm_ext_iff_of_nodup (List.nodup_cons.mpr ⟨hnew, hnodup places⟩) (hnodup _)]
    intro q
    rw [List.mem_cons, hmem, hmem, List.mem_append, List.mem_singleton, and_or_left, or_comm]
    exact or_congr_right ⟨fun h => ⟨h ▸ hplace, h⟩, And.right⟩

theorem filter_concat {count place : Nat} {calls : List CallEdge} {e : CallEdge}
    {other? : CallEdge → Option Nat} {c : Prop} [Decidable c]
    (he : other? e = if c then some place else none) (hplace : place < count) :
    (List.range count).filter ((calls ++ [e]).filterMap other?).contains
      = if c then insertPlace ((List.range count).filter (calls.filterMap other?).contains) place
        else (List.range count).filter (calls.filterMap other?).contains := by
  rw [List.filterMap_append]
  by_cases hc : c
  · rw [if_pos hc, insertPlace_filter hplace, List.filterMap_cons_some (he.trans (if_pos hc)),
      List.filterMap_nil]
  · rw [if_neg hc, List.filterMap_cons_none (he.trans (if_neg hc)), List.filterMap_nil,
      List.append_nil]

/-- What one more call changes in a node. -/
theorem node_concat {described : List ScriptCalls} {count caller callee : Nat}
    (hcaller : caller < count) (hcallee : callee < count) (calls : List CallEdge) (sites : Nat)
    (place : Nat) (id : UInt16) :
    let n := node described evidence count calls place id
    node described evidence count (calls ++ [⟨.script caller, callee, .call, sites⟩]) place id
      = { n with
          isRecursive := n.isRecursive || (caller = place && callee = place)
          callers := if callee = place ∧ caller ≠ place then insertPlace n.callers caller
            else n.callers
          callees := if caller = place ∧ callee ≠ place then insertPlace n.callees callee
            else n.callees } := by
  have hcaller? : caller? place ⟨.script caller, callee, .call, sites⟩
      = if callee = place ∧ caller ≠ place then some caller else none := by simp [caller?]
  have hcallee? : callee? place ⟨.script caller, callee, .call, sites⟩
      = if caller = place ∧ callee ≠ place then some callee else none := by simp [callee?]
  simp only [node, filter_concat hcaller? hcaller, filter_concat hcallee? hcallee,
    List.any_append, List.any_cons, List.any_nil, Bool.or_false, CallSource.script.injEq]

theorem connect_keeps (g : CallArena) (caller callee : Nat) :
    (g.connect caller callee).edges = g.edges ∧ (g.connect caller callee).places = g.places := by
  unfold connect
  split <;> exact ⟨rfl, rfl⟩

section

variable {met : List UInt16} (hfront : met <+: mentioned sorted) {caller : UInt16}
  (hcaller : caller ∈ met) {entry : UInt16 × Nat} (htarget : entry.1 ∈ met)
include hfront hcaller htarget

/-- A call between two ids shows up in the nodes of these ids, and in no
other. -/
theorem nodeSoFar_addCall (p : Progress) (id : UInt16) :
    let n := nodeSoFar sorted evidence p id
    nodeSoFar sorted evidence { p with calls := p.calls ++ [callEdge sorted caller entry] } id
      = { n with
          isRecursive := n.isRecursive || (caller = id && entry.1 = id)
          callers :=
            if entry.1 = id ∧ caller ≠ id then insertPlace n.callers (placeOf sorted caller)
            else n.callers
          callees :=
            if caller = id ∧ entry.1 ≠ id then insertPlace n.callees (placeOf sorted entry.1)
            else n.callees } := by
  have hcallerPlace : placeOf sorted caller = placeOf sorted id ↔ caller = id :=
    placeOf_inj hfront hcaller
  have htargetPlace : placeOf sorted entry.1 = placeOf sorted id ↔ entry.1 = id :=
    placeOf_inj hfront htarget
  simp only [nodeSoFar, callEdge,
    node_concat (placeOf_lt hfront hcaller) (placeOf_lt hfront htarget), ne_eq, hcallerPlace,
    htargetPlace]

theorem nodes_connect (hnodes : g.nodes = met.eraseDups.map (nodeSoFar sorted evidence p)) :
    (g.connect (placeOf sorted caller) (placeOf sorted entry.1)).nodes
      = met.eraseDups.map (nodeSoFar sorted evidence
        { p with calls := p.calls ++ [callEdge sorted caller entry] }) := by
  have hself : placeOf sorted entry.1 = placeOf sorted caller ↔ entry.1 = caller :=
    placeOf_inj hfront htarget
  by_cases heq : entry.1 = caller
  · rw [connect, if_pos (hself.mpr heq), nodes_update hfront hcaller hnodes]
    refine List.map_congr_left fun id _ => ?_
    rw [nodeSoFar_addCall hfront hcaller htarget]
    by_cases hid : id = caller
    · simp [hid, heq]
    · simp [hid, heq, Ne.symm hid]
  · rw [connect, if_neg (mt hself.mp heq),
      nodes_update hfront htarget (nodes_update hfront hcaller hnodes _)]
    refine List.map_congr_left fun id _ => ?_
    rw [nodeSoFar_addCall hfront hcaller htarget]
    -- the caller gets a callee, the callee a caller, and all others nothing
    by_cases hid : id = caller
    · simp [hid, heq, Ne.symm heq]
    · by_cases hid' : id = entry.1
      · simp [hid', Ne.symm heq, heq]
      · simp [hid, hid', Ne.symm hid, Ne.symm hid']

end

/-! ## Steps -/

theorem intern_of_some {id : UInt16} {place : Nat} (h : g.places.get? id = some place) :
    g.intern id = (g, place) := by
  rw [intern, h]

theorem intern_of_none {id : UInt16} (h : g.places.get? id = none) :
    g.intern id
      = ({ g with
            nodes := g.nodes ++ [blankNode id]
            places := g.places.insert id g.nodes.length }, g.nodes.length) := by
  rw [intern, h]

namespace Reflects

theorem nodeSoFar_of_new (h : Reflects sorted evidence p g) {id : UInt16} (hid : id ∉ p.met) :
    nodeSoFar sorted evidence p id = blankNode id := by
  have hfresh : ∀ a ∈ p.met, placeOf sorted a ≠ placeOf sorted id := by
    intro a ha hplace
    exact hid ((placeOf_inj h.front ha).mp hplace ▸ ha)
  have hscript : (p.described.filter fun s => s.id = id) = [] :=
    List.filter_eq_nil_iff.mpr fun s hs hsid => hid (of_decide_eq_true hsid ▸ h.described s hs)
  have hcallers : p.calls.filterMap (caller? (placeOf sorted id)) = [] := by
    refine List.filterMap_eq_nil_iff.mpr fun e he => ?_
    obtain ⟨caller, -, entry, htarget, rfl⟩ := h.calls e he
    simp [caller?, callEdge, hfresh entry.1 htarget]
  have hcallees : p.calls.filterMap (callee? (placeOf sorted id)) = [] := by
    refine List.filterMap_eq_nil_iff.mpr fun e he => ?_
    obtain ⟨caller, hcaller, entry, -, rfl⟩ := h.calls e he
    simp [callee?, callEdge, hfresh caller hcaller]
  have hself : (p.calls.any fun e => e.source = .script (placeOf sorted id)
      && e.callee = placeOf sorted id) = false := by
    refine List.any_eq_false.mpr fun e he => ?_
    obtain ⟨caller, hcaller, entry, -, rfl⟩ := h.calls e he
    simp [callEdge, hfresh caller hcaller]
  have hhooked : id ∉ p.hooked := fun hmem => hid (h.hooked id hmem)
  simp [nodeSoFar, node, blankNode, hscript, hcallers, hcallees, hself, hhooked]

/-- Interning finds the place of an id and changes nothing else, or puts it
behind all others. -/
theorem intern (h : Reflects sorted evidence p g) {id : UInt16}
    (hfront : p.met ++ [id] <+: mentioned sorted) :
    ∃ g', g.intern id = (g', placeOf sorted id)
      ∧ Reflects sorted evidence { p with met := p.met ++ [id] } g' := by
  have hlater : ∀ a ∈ p.met, a ∈ p.met ++ [id] := fun a => List.mem_append_left _
  have hcalls : ∀ e ∈ p.calls, ∃ caller ∈ p.met ++ [id], ∃ entry, entry.1 ∈ p.met ++ [id]
      ∧ e = callEdge sorted caller entry := by
    intro e he
    obtain ⟨caller, hcaller, entry, htarget, heq⟩ := h.calls e he
    exact ⟨caller, hlater _ hcaller, entry, hlater _ htarget, heq⟩
  by_cases hid : id ∈ p.met
  · have hmem : ∀ a, a ∈ p.met ++ [id] ↔ a ∈ p.met := by
      intro a
      rw [List.mem_append, List.mem_singleton]
      exact ⟨fun ha => ha.elim (fun ha => ha) fun ha => ha ▸ hid, Or.inl⟩
    rw [intern_of_some ((h.places id).trans (if_pos hid))]
    refine ⟨g, rfl, hfront, ?_, fun a => ?_, h.edges, fun s hs => hlater _ (h.described s hs),
      hcalls, fun a ha => hlater _ (h.hooked a ha)⟩
    · rw [h.nodes, eraseDups_concat, if_pos hid]
      rfl
    · simp only [h.places, hmem]
  · have hplace : placeOf sorted id = g.nodes.length := by
      rw [placeOf_of_new hfront hid, h.nodes, List.length_map]
    rw [intern_of_none ((h.places id).trans (if_neg hid)), ← hplace]
    refine ⟨_, rfl, hfront, ?_, fun a => ?_, h.edges, fun s hs => hlater _ (h.described s hs),
      hcalls, fun a ha => hlater _ (h.hooked a ha)⟩
    · rw [eraseDups_concat, if_neg hid, List.map_append, List.map_singleton, h.nodes,
        ← h.nodeSoFar_of_new hid]
      rfl
    · rw [IdMap.get?_insert, h.places]
      by_cases ha : a = id <;> simp [ha]

/-- The script that was described last is the one that the node shows. -/
theorem addScript (h : Reflects sorted evidence p g) {s : ScriptCalls}
    (hfront : p.met ++ [s.id] <+: mentioned sorted) :
    Reflects sorted evidence
      { p with met := p.met ++ [s.id], described := p.described ++ [s] } (g.addScript s) := by
  obtain ⟨g', hintern, hg'⟩ := h.intern hfront
  have hmet : s.id ∈ p.met ++ [s.id] := List.mem_append_right _ (List.mem_singleton.mpr rfl)
  simp only [CallArena.addScript, hintern]
  refine ⟨hfront, ?_, hg'.places, hg'.edges,
    List.forall_mem_append.mpr ⟨hg'.described, List.forall_mem_singleton.mpr hmet⟩,
    hg'.calls, hg'.hooked⟩
  rw [nodes_update hfront hmet hg'.nodes]
  refine List.map_congr_left fun id _ => ?_
  by_cases hid : id = s.id
  · simp [nodeSoFar, node, hid]
  · simp [nodeSoFar, node, hid, Ne.symm hid]

/-- A call is drawn before any hook. -/
theorem addCall (h : Reflects sorted evidence p g) (hunhooked : p.hooked = []) {caller : UInt16}
    (hcaller : caller ∈ p.met) {entry : UInt16 × Nat}
    (hfront : p.met ++ [entry.1] <+: mentioned sorted) :
    Reflects sorted evidence
      { p with
        met := p.met ++ [entry.1]
        calls := p.calls ++ [callEdge sorted caller entry] }
      (g.addCall (placeOf sorted caller) entry) := by
  obtain ⟨g', hintern, hg'⟩ := h.intern hfront
  have hcaller : caller ∈ p.met ++ [entry.1] := List.mem_append_left _ hcaller
  have htarget : entry.1 ∈ p.met ++ [entry.1] :=
    List.mem_append_right _ (List.mem_singleton.mpr rfl)
  obtain ⟨hedges, hplaces⟩ := connect_keeps g' (placeOf sorted caller) (placeOf sorted entry.1)
  simp only [CallArena.addCall, hintern]
  refine ⟨hfront, nodes_connect hfront hcaller htarget hg'.nodes, ?_, ?_, hg'.described,
    List.forall_mem_append.mpr ⟨hg'.calls, List.forall_mem_singleton.mpr
      ⟨caller, hcaller, entry, htarget, rfl⟩⟩, hg'.hooked⟩
  · rw [hplaces]
    exact hg'.places
  · rw [hedges, hg'.edges, hunhooked]
    simp [callEdge]

theorem addHooks (h : Reflects sorted evidence p g) {id : UInt16} (hid : id ∈ p.met) :
    Reflects sorted evidence { p with hooked := p.hooked ++ [id] }
      (g.addHooks evidence (id, placeOf sorted id)) := by
  refine ⟨h.front, ?_, h.places, ?_, h.described, h.calls,
    List.forall_mem_append.mpr ⟨h.hooked, List.forall_mem_singleton.mpr hid⟩⟩
  · refine (nodes_update h.front hid h.nodes
      fun n => { n with hooks := (evidence.get id).hooks }).trans ?_
    refine List.map_congr_left fun other _ => ?_
    by_cases hother : other = id <;> simp [nodeSoFar, hother]
  · simp [CallArena.addHooks, update, h.edges, hookEdgesOf]

/-! ## Runs -/

/-- The first loop. What is left to do must be what is still to be met. -/
theorem addScripts (h : Reflects sorted evidence p g) (scripts : List ScriptCalls)
    (hfront : p.met ++ scripts.map (fun s => s.id) <+: mentioned sorted) :
    Reflects sorted evidence
      { p with
        met := p.met ++ scripts.map fun s => s.id
        described := p.described ++ scripts }
      (scripts.foldl CallArena.addScript g) := by
  induction scripts generalizing p g with
  | nil => simpa using h
  | cons s rest ih =>
      have hstep : p.met ++ [s.id] <+: mentioned sorted :=
        List.IsPrefix.trans ⟨rest.map fun s => s.id, by simp⟩ hfront
      have hrest := ih (h.addScript hstep) (by simpa using hfront)
      simpa using hrest

/-- The calls of one script. -/
theorem addEntries (h : Reflects sorted evidence p g) (hunhooked : p.hooked = []) {caller : UInt16}
    (hcaller : caller ∈ p.met) (entries : List (UInt16 × Nat))
    (hfront : p.met ++ entries.map (fun e => e.1) <+: mentioned sorted) :
    Reflects sorted evidence
      { p with
        met := p.met ++ entries.map fun e => e.1
        calls := p.calls ++ entries.map (callEdge sorted caller) }
      (entries.foldl (CallArena.addCall (placeOf sorted caller)) g) := by
  induction entries generalizing p g with
  | nil => simpa using h
  | cons entry rest ih =>
      have hstep : p.met ++ [entry.1] <+: mentioned sorted :=
        List.IsPrefix.trans ⟨rest.map fun e => e.1, by simp⟩ hfront
      have hrest := ih (h.addCall hunhooked hcaller hstep) hunhooked
        (List.mem_append_left _ hcaller) (by simpa using hfront)
      simpa using hrest

/-- The second loop. The scripts have their places since the first one. -/
theorem addCalls (h : Reflects sorted evidence p g) (hunhooked : p.hooked = [])
    (scripts : List ScriptCalls) (hscripts : ∀ s ∈ scripts, s.id ∈ p.met)
    (hfront : p.met ++ scripts.flatMap (fun s => s.callees.keys) <+: mentioned sorted) :
    Reflects sorted evidence
      { p with
        met := p.met ++ scripts.flatMap fun s => s.callees.keys
        calls := p.calls ++ scripts.flatMap fun s =>
          s.callees.entries.map (callEdge sorted s.id) }
      (scripts.foldl CallArena.addCalls g) := by
  induction scripts generalizing p g with
  | nil => simpa using h
  | cons s rest ih =>
      have hs : s.id ∈ p.met := hscripts s (List.mem_cons_self ..)
      have hstep : p.met ++ s.callees.keys <+: mentioned sorted :=
        List.IsPrefix.trans ⟨rest.flatMap fun s => s.callees.keys, by simp⟩ hfront
      have hadded := h.addEntries hunhooked hs s.callees.entries hstep
      have hcalls : g.addCalls s
          = s.callees.entries.foldl (CallArena.addCall (placeOf sorted s.id)) g := by
        rw [CallArena.addCalls, h.places, if_pos hs]
      rw [← hcalls] at hadded
      have hrest := ih hadded hunhooked
        (fun s hs => List.mem_append_left _ (hscripts s (List.mem_cons_of_mem _ hs)))
        (by simpa [IdMap.keys] using hfront)
      simpa [IdMap.keys] using hrest

/-- The third loop. -/
theorem addAllHooks (h : Reflects sorted evidence p g) (ids : List UInt16)
    (hids : ∀ id ∈ ids, id ∈ p.met) :
    Reflects sorted evidence { p with hooked := p.hooked ++ ids }
      ((ids.map fun id => (id, placeOf sorted id)).foldl (CallArena.addHooks evidence) g) := by
  induction ids generalizing p g with
  | nil => simpa using h
  | cons id rest ih =>
      have hrest := ih (h.addHooks (hids id (List.mem_cons_self ..)))
        fun other hother => hids other (List.mem_cons_of_mem _ hother)
      simpa using hrest

end Reflects

/-! ## The whole -/

theorem reflects_empty : Reflects sorted evidence ⟨[], [], [], []⟩ empty where
  front := List.nil_prefix
  nodes := rfl
  places := fun _ => rfl
  edges := rfl
  described := fun _ h => absurd h List.not_mem_nil
  calls := fun _ h => absurd h List.not_mem_nil
  hooked := fun _ h => absurd h List.not_mem_nil

/-- The third loop goes through the ids in ascending order. -/
theorem Reflects.entries (h : Reflects sorted evidence p g) (hall : p.met = mentioned sorted) :
    g.places.entries = ((nodeIds sorted).mergeSort fun a b => a ≤ b).map fun id =>
      (id, placeOf sorted id) := by
  have hmem : ∀ id, id ∈ g.places.keys ↔ id ∈ nodeIds sorted := by
    intro id
    rw [IdMap.mem_keys_iff, h.places, hall, Option.isSome_ite]
    exact List.mem_eraseDups.symm
  have hkeys : g.places.keys = (nodeIds sorted).mergeSort fun a b => a ≤ b := by
    refine ById.eq_mergeSort_of_perm (fun id => id) (List.pairwise_map.mpr g.places.ascending) ?_
    exact (List.perm_ext_iff_of_nodup g.places.nodup_keys nodup_nodeIds).mpr hmem
  rw [← hkeys, IdMap.keys, List.map_map]
  refine (List.map_id _).symm.trans (List.map_congr_left fun entry hentry => ?_)
  have hget : g.places.get? entry.1 = some entry.2 := IdMap.mem_entries_iff.mp hentry
  rw [h.places, Option.ite_none_right_eq_some, Option.some_inj] at hget
  exact Prod.ext rfl hget.2.symm

theorem reflects_grow (scripts : List ScriptCalls) (evidence : EvidenceTable) :
    Reflects (sortScripts scripts) evidence
      { met := mentioned (sortScripts scripts)
        described := sortScripts scripts
        calls := callEdges (nodeIds (sortScripts scripts)) (sortScripts scripts)
        hooked := (nodeIds (sortScripts scripts)).mergeSort fun a b => a ≤ b }
      (grow scripts evidence) := by
  have hempty : Reflects (sortScripts scripts) evidence ⟨[], [], [], []⟩ empty := reflects_empty
  have hscripts := hempty.addScripts (sortScripts scripts) (List.prefix_append _ _)
  have hcalls := hscripts.addCalls rfl (sortScripts scripts)
    (fun s hs => List.mem_map_of_mem hs) List.prefix_rfl
  have hentries := hcalls.entries rfl
  have hhooks := hcalls.addAllHooks ((nodeIds (sortScripts scripts)).mergeSort fun a b => a ≤ b)
    fun id hid => List.mem_eraseDups.mp (List.mem_mergeSort.mp hid)
  rw [← hentries] at hhooks
  exact hhooks

/-- The loops end with the graph. -/
theorem graph_grow (scripts : List ScriptCalls) (evidence : EvidenceTable) :
    (grow scripts evidence).graph = build scripts evidence := by
  have hgrown := reflects_grow scripts evidence
  have hnodes : (grow scripts evidence).nodes = (build scripts evidence).nodes := by
    rw [hgrown.nodes, nodes_build]
    refine List.map_congr_left fun id hid => ?_
    have hhooked : id ∈ (nodeIds (sortScripts scripts)).mergeSort fun a b => a ≤ b :=
      List.mem_mergeSort.mpr hid
    rw [nodeSoFar, if_pos hhooked]
    rfl
  exact congrArg₂ CallGraph.mk hnodes hgrown.edges

/-- An id has the place that the graph has its node at. -/
theorem places_grow (scripts : List ScriptCalls) (evidence : EvidenceTable) (id : UInt16) :
    (grow scripts evidence).places.get? id
      = if id ∈ nodeIds (sortScripts scripts) then some (placeOf (sortScripts scripts) id)
        else none := by
  rw [(reflects_grow scripts evidence).places]
  exact if_congr List.mem_eraseDups.symm rfl rfl

end CallArena

end BehaviorScript
