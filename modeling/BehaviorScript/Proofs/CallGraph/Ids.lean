import BehaviorScript.Proofs.CallGraph.WellFormed

/-!
# Call graphs by id

One more script can change the place of every node. So two graphs are
compared by what they say without places: which calls lead from id to id
(`namedCalls`), the status of an id, and how many scripts play a part.
Each of these is read here off the scripts that the graph is built from:
`namedCalls_build`, `statusOf?_eq_none_iff` beside `statusOf?_build`, and
`length_withStatus`.

A script that calls nothing then adds its own id to the graph and nothing
else, whether or not the id was called before (`statusOf?_of_inserted`,
`length_withStatus_of_inserted`, `namedCalls_of_inserted`).
-/

namespace BehaviorScript

namespace CallGraph

/-! ## Calls -/

def idAt? (g : CallGraph) (place : Nat) : Option UInt16 :=
  (g.nodes[place]?).map CallNode.scriptId

def callerId? (g : CallGraph) (e : CallEdge) : Option UInt16 :=
  match e.source with
  | .script caller => g.idAt? caller
  | .engine _ => none

/-- The calls, with the ids at both ends and the number of sites. -/
def namedCalls (g : CallGraph) : List (Option UInt16 × Option UInt16 × Nat) :=
  (g.edges.filter fun e => e.kind = .call).map fun e =>
    (g.callerId? e, g.idAt? e.callee, e.sites)

variable {scripts : List ScriptCalls} {evidence : EvidenceTable}

theorem idAt?_idxOf {id : UInt16} (hid : id ∈ nodeIds (sortScripts scripts)) :
    (build scripts evidence).idAt? ((nodeIds (sortScripts scripts)).idxOf id) = some id := by
  rw [idAt?, nodes_build, List.getElem?_map, getElem?_idxOf hid]
  rfl

theorem filter_call_edges :
    ((build scripts evidence).edges.filter fun e => e.kind = .call)
      = callEdges (nodeIds (sortScripts scripts)) (sortScripts scripts) := by
  have hcalls : ((callEdges (nodeIds (sortScripts scripts)) (sortScripts scripts)).filter
      fun e => e.kind = .call)
        = callEdges (nodeIds (sortScripts scripts)) (sortScripts scripts) := by
    refine List.filter_eq_self.mpr fun e he => ?_
    obtain ⟨s, -, target, sites, -, rfl⟩ := mem_callEdges_iff.mp he
    exact decide_eq_true rfl
  have hhooks : ((hookEdges (nodeIds (sortScripts scripts)) evidence).filter
      fun e => e.kind = .call) = [] := by
    refine List.filter_eq_nil_iff.mpr fun e he => ?_
    obtain ⟨id, -, hook, -, rfl⟩ := mem_hookEdges_iff.mp he
    simpa using kind_ofHook_ne_call hook
  rw [build, List.filter_append, hcalls, hhooks, List.append_nil]

theorem namedCalls_build :
    (build scripts evidence).namedCalls = (sortScripts scripts).flatMap fun s =>
      s.callees.entries.map fun entry => (some s.id, some entry.1, entry.2) := by
  rw [namedCalls, filter_call_edges, callEdges, List.map_flatMap]
  refine List.flatMap_congr fun s hs => ?_
  rw [List.map_map]
  refine List.map_congr_left fun entry hentry => ?_
  have htarget : entry.1 ∈ s.callees.keys := List.mem_map.mpr ⟨_, hentry, rfl⟩
  have hcaller : s.id ∈ nodeIds (sortScripts scripts) := mem_nodeIds_iff.mpr (Or.inl ⟨s, hs, rfl⟩)
  have hcallee : entry.1 ∈ nodeIds (sortScripts scripts) :=
    mem_nodeIds_iff.mpr (Or.inr ⟨s.id, s, hs, rfl, htarget⟩)
  simp only [Function.comp_apply, callerId?, idAt?_idxOf hcaller, idAt?_idxOf hcallee]

/-! ## Statuses -/

theorem statusOf?_eq_none_iff {id : UInt16} :
    (build scripts evidence).statusOf? id = none ↔ id ∉ nodeIds (sortScripts scripts) := by
  have hfound : ((build scripts evidence).lookup id).isSome ↔ id ∈ nodeIds (sortScripts scripts) :=
    lookup_isSome_iff
  rw [statusOf?, Option.map_eq_none_iff, ← hfound, Option.not_isSome_iff_eq_none]

theorem exists_statusOf? {id : UInt16} (hid : ∃ s ∈ scripts, s.id = id) :
    ∃ status, (build scripts evidence).statusOf? id = some status := by
  refine Option.ne_none_iff_exists'.mp fun hnone => ?_
  exact statusOf?_eq_none_iff.mp hnone (id_mem_nodeIds hid)

/-- A part is played by the scripts that have it as their status, and by
no id that is only called. -/
theorem mem_withStatus_iff {id : UInt16} {status : NodeStatus} :
    id ∈ ((build scripts evidence).withStatus status).map CallNode.scriptId ↔
      (∃ s ∈ scripts, s.id = id) ∧ (build scripts evidence).statusOf? id = some status := by
  have hscript : (∃ s ∈ sortScripts scripts, s.id = id) ↔ ∃ s ∈ scripts, s.id = id := by
    simp only [sortScripts, List.mem_mergeSort]
  simp only [withStatus, List.mem_map, List.mem_filter, mem_nodes_iff, Bool.and_eq_true,
    Bool.not_eq_true', decide_eq_true_eq]
  constructor
  · rintro ⟨n, ⟨⟨id', hid', rfl⟩, hinternal, hstatus⟩, rfl⟩
    refine ⟨hscript.mp (isExternal_nodeOf_eq_false.mp hinternal), ?_⟩
    rw [statusOf?, scriptId_nodeOf, lookup_build hid', Option.map_some, hstatus]
  · rintro ⟨hs, hstatus⟩
    have hid := id_mem_nodeIds hs
    rw [statusOf?, lookup_build hid, Option.map_some, Option.some_inj] at hstatus
    exact ⟨_, ⟨⟨id, hid, rfl⟩, isExternal_nodeOf_eq_false.mpr (hscript.mpr hs), hstatus⟩, rfl⟩

theorem length_withStatus {ids : Finset UInt16}
    (hids : ∀ id, id ∈ ids ↔ ∃ s ∈ scripts, s.id = id) (status : NodeStatus) :
    ((build scripts evidence).withStatus status).length
      = (ids.filter fun id => (build scripts evidence).statusOf? id = some status).card := by
  have hnodup : (((build scripts evidence).withStatus status).map CallNode.scriptId).Nodup := by
    have hnodes : ((build scripts evidence).nodes.map CallNode.scriptId).Nodup := by
      rw [map_scriptId_nodes]
      exact nodup_nodeIds
    exact hnodes.sublist (List.filter_sublist.map _)
  rw [← List.length_map CallNode.scriptId, ← List.toFinset_card_of_nodup hnodup]
  congr 1
  ext id
  rw [List.mem_toFinset, mem_withStatus_iff, Finset.mem_filter, hids]

/-! ## One more script -/

theorem exists_callers (scripts : List ScriptCalls) (id : UInt16) :
    ∃ callers : Finset UInt16, ∀ caller,
      caller ∈ callers ↔ caller ≠ id ∧ Calls scripts caller id := by
  refine ⟨((scripts.filter fun s => id ∈ s.callees.keys).map ScriptCalls.id).toFinset.erase id,
    fun caller => ?_⟩
  simp only [Finset.mem_erase, List.mem_toFinset, List.mem_map, List.mem_filter,
    decide_eq_true_eq, Calls]
  refine and_congr_right fun _ => exists_congr fun s => ?_
  tauto

section

variable {scripts' : List ScriptCalls} {s : ScriptCalls} (h : Inserted s scripts scripts')

include h

theorem exists_id_of_inserted {id : UInt16} :
    (∃ t ∈ scripts', t.id = id) ↔ id = s.id ∨ ∃ t ∈ scripts, t.id = id := by
  simp only [h.mem_iff, or_and_right, exists_or, exists_eq_left]
  rw [eq_comm]

variable (hs : s.callees.entries = [])

include hs

theorem calls_of_inserted {caller id : UInt16} :
    Calls scripts' caller id ↔ Calls scripts caller id := by
  have hkeys : s.callees.keys = [] := by rw [IdMap.keys, hs, List.map_nil]
  constructor
  · rintro ⟨t, ht, hcaller, hid⟩
    rcases h.mem_iff.mp ht with rfl | ht
    · rw [hkeys] at hid
      cases hid
    · exact ⟨t, ht, hcaller, hid⟩
  · rintro ⟨t, ht, hcaller, hid⟩
    exact ⟨t, h.mem_iff.mpr (Or.inr ht), hcaller, hid⟩

theorem mem_nodeIds_of_inserted {id : UInt16} (hne : id ≠ s.id) :
    id ∈ nodeIds (sortScripts scripts') ↔ id ∈ nodeIds (sortScripts scripts) := by
  simp only [mem_nodeIds_iff, calls_sortScripts, calls_of_inserted h hs]
  simp only [sortScripts, List.mem_mergeSort, exists_id_of_inserted h, hne, false_or]

theorem statusOf?_of_inserted {id : UInt16} (hne : id ≠ s.id) :
    (build scripts' evidence).statusOf? id = (build scripts evidence).statusOf? id := by
  have hnode := mem_nodeIds_of_inserted h hs hne
  by_cases hid : id ∈ nodeIds (sortScripts scripts)
  · obtain ⟨callers, hcallers⟩ := exists_callers scripts id
    have hcallers' : ∀ caller, caller ∈ callers ↔ caller ≠ id ∧ Calls scripts' caller id := by
      intro caller
      rw [hcallers, calls_of_inserted h hs]
    rw [statusOf?_build hid hcallers, statusOf?_build (hnode.mpr hid) hcallers']
  · have hid' : id ∉ nodeIds (sortScripts scripts') := fun hmem => hid (hnode.mp hmem)
    rw [statusOf?_eq_none_iff.mpr hid, statusOf?_eq_none_iff.mpr hid']

variable (hfresh : ∀ t ∈ scripts, t.id ≠ s.id)

include hfresh

/-- The new script is counted under its own status. It was not before,
even if it was called. -/
theorem length_withStatus_of_inserted (status : NodeStatus) :
    ((build scripts' evidence).withStatus status).length
      = ((build scripts evidence).withStatus status).length
        + if (build scripts' evidence).statusOf? s.id = some status then 1 else 0 := by
  have hids : ∀ id, id ∈ (scripts.map ScriptCalls.id).toFinset ↔ ∃ t ∈ scripts, t.id = id := by
    simp
  have hids' : ∀ id, id ∈ insert s.id (scripts.map ScriptCalls.id).toFinset ↔
      ∃ t ∈ scripts', t.id = id := by
    intro id
    rw [Finset.mem_insert, hids, exists_id_of_inserted h]
  have hnew : s.id ∉ (scripts.map ScriptCalls.id).toFinset := by
    rw [hids]
    rintro ⟨t, ht, hid⟩
    exact hfresh t ht hid
  have hold : ((scripts.map ScriptCalls.id).toFinset.filter
        fun id => (build scripts' evidence).statusOf? id = some status)
      = (scripts.map ScriptCalls.id).toFinset.filter
        fun id => (build scripts evidence).statusOf? id = some status := by
    refine Finset.filter_congr fun id hid => ?_
    rw [statusOf?_of_inserted h hs fun heq => hnew (heq ▸ hid)]
  rw [length_withStatus hids', length_withStatus hids, Finset.filter_insert, hold]
  by_cases hstatus : (build scripts' evidence).statusOf? s.id = some status
  · rw [if_pos hstatus, if_pos hstatus, Finset.card_insert_of_notMem]
    exact fun hmem => hnew (Finset.mem_filter.mp hmem).1
  · rw [if_neg hstatus, if_neg hstatus, Nat.add_zero]

theorem namedCalls_of_inserted :
    (build scripts' evidence).namedCalls = (build scripts evidence).namedCalls := by
  obtain ⟨front, back, hbefore, hafter⟩ := ById.mergeSort_of_inserted ScriptCalls.id h hfresh
  have hsorted : sortScripts scripts = front ++ back := hbefore
  have hsorted' : sortScripts scripts' = front ++ s :: back := hafter
  rw [namedCalls_build, namedCalls_build, hsorted, hsorted', List.flatMap_append,
    List.flatMap_append, List.flatMap_cons, hs, List.map_nil, List.nil_append]

end

end CallGraph

end BehaviorScript
