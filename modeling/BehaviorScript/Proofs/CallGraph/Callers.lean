import BehaviorScript.CallGraph.Basic
import Mathlib.Data.Finset.Card
import Mathlib.Data.List.Basic

/-!
# The callers of a node

A call graph speaks of nodes by their places, a corpus of scripts by
their ids. This file turns what the graph says on callers back into ids:

- the nodes are those of the ids, one by one (`nodes_build`), and the node
  of an id is found wherever the id occurs, as a script or as a callee
  (`lookup_build`);
- its callers are the places of the other ids that call it
  (`mem_callers_iff`), as many as there are such ids
  (`callerCount_build`), and its status follows (`statusOf?_build`).

The order in which the nodes stand plays no part here: all that is used
of a place is that different ids have different ones.
-/

namespace BehaviorScript

namespace IdMap

variable {β : Type}

theorem mem_keys_iff {m : IdMap β} {k : UInt16} : k ∈ m.keys ↔ (m.get? k).isSome := by
  simp only [keys, get?, List.lookup_isSome_iff, List.mem_map, beq_iff_eq]
  constructor
  · rintro ⟨e, he, rfl⟩
    exact ⟨e, he, rfl⟩
  · rintro ⟨e, he, rfl⟩
    exact ⟨e, he, rfl⟩

theorem mem_entries_iff {m : IdMap β} {k : UInt16} {value : β} :
    (k, value) ∈ m.entries ↔ m.get? k = some value := by
  rw [get?, List.lookup_eq_some_iff]
  constructor
  · intro hmem
    obtain ⟨before, after, hentries⟩ := List.append_of_mem hmem
    refine ⟨before, after, hentries, fun e he => ?_⟩
    have hascending := m.ascending
    rw [hentries] at hascending
    have hlt := (List.pairwise_append.mp hascending).2.2 e he _ (List.mem_cons_self ..)
    simpa using (UInt16.ne_of_lt hlt).symm
  · rintro ⟨before, after, hentries, -⟩
    rw [hentries]
    exact List.mem_append_right _ (List.mem_cons_self ..)

theorem mem_keys_insert {m : IdMap β} {id k : UInt16} {value : β} :
    k ∈ (m.insert id value).keys ↔ k = id ∨ k ∈ m.keys := by
  rw [mem_keys_iff, mem_keys_iff, get?_insert]
  by_cases h : k = id <;> simp [h]

theorem mem_keys_tally {ids : List UInt16} {k : UInt16} : k ∈ (tally ids).keys ↔ k ∈ ids := by
  -- the fold is started from any map, since it hands a fuller one on
  have hfold : ∀ m : IdMap Nat,
      k ∈ (ids.foldl (fun m id => m.insert id ((m.get? id).getD 0 + 1)) m).keys ↔
        k ∈ ids ∨ k ∈ m.keys := by
    induction ids with
    | nil => simp
    | cons id rest ih =>
        intro m
        rw [List.foldl_cons, ih, mem_keys_insert, List.mem_cons]
        tauto
  rw [tally, hfold]
  simp [keys, empty]

end IdMap

theorem nodup_eraseDups {α : Type} [BEq α] [LawfulBEq α] (l : List α) : l.eraseDups.Nodup := by
  match l with
  | [] => exact List.nodup_nil
  | a :: rest =>
      have htail := nodup_eraseDups (rest.filter fun other => !other == a)
      rw [List.eraseDups_cons, List.nodup_cons]
      refine ⟨fun hmem => ?_, htail⟩
      have ha := (List.mem_filter.mp (List.mem_eraseDups.mp hmem)).2
      simp at ha
termination_by l.length
decreasing_by exact Nat.lt_succ_of_le (List.length_filter_le _ _)

namespace CallGraph

/-- A script with id `caller` calls `id`. -/
def Calls (scripts : List ScriptCalls) (caller id : UInt16) : Prop :=
  ∃ s ∈ scripts, s.id = caller ∧ id ∈ s.callees.keys

section

variable {scripts : List ScriptCalls} {evidence : EvidenceTable}

theorem calls_sortScripts {caller id : UInt16} :
    Calls (sortScripts scripts) caller id ↔ Calls scripts caller id := by
  simp only [Calls, sortScripts, List.mem_mergeSort]

/-! ## Places -/

theorem mem_nodeIds_iff {id : UInt16} :
    id ∈ nodeIds scripts ↔ (∃ s ∈ scripts, s.id = id) ∨ ∃ caller, Calls scripts caller id := by
  simp only [nodeIds, List.mem_eraseDups, List.mem_append, List.mem_map, List.mem_flatMap, Calls]
  refine or_congr_right ?_
  constructor
  · rintro ⟨s, hs, hid⟩
    exact ⟨s.id, s, hs, rfl, hid⟩
  · rintro ⟨_, s, hs, -, hid⟩
    exact ⟨s, hs, hid⟩

theorem Calls.caller_mem {caller id : UInt16} (h : Calls scripts caller id) :
    caller ∈ nodeIds scripts := by
  obtain ⟨s, hs, rfl, -⟩ := h
  exact mem_nodeIds_iff.mpr (Or.inl ⟨s, hs, rfl⟩)

theorem id_mem_nodeIds {id : UInt16} (h : ∃ s ∈ scripts, s.id = id) :
    id ∈ nodeIds (sortScripts scripts) := by
  obtain ⟨s, hs, hid⟩ := h
  exact mem_nodeIds_iff.mpr (Or.inl ⟨s, List.mem_mergeSort.mpr hs, hid⟩)

theorem nodup_nodeIds : (nodeIds scripts).Nodup := nodup_eraseDups _

theorem idxOf_of_getElem? {p : Nat} {id : UInt16} (h : (nodeIds scripts)[p]? = some id) :
    (nodeIds scripts).idxOf id = p := by
  obtain ⟨hp, rfl⟩ := List.getElem?_eq_some_iff.mp h
  exact nodup_nodeIds.idxOf_getElem p hp

/-- The node at the place of an id. -/
def nodeOf (sorted : List ScriptCalls) (evidence : EvidenceTable) (id : UInt16) : CallNode :=
  node sorted evidence (nodeIds sorted).length (callEdges (nodeIds sorted) sorted)
    ((nodeIds sorted).idxOf id) id

/-- The node at each place is that of the id at this place. -/
theorem nodes_build :
    (build scripts evidence).nodes
      = (nodeIds (sortScripts scripts)).map (nodeOf (sortScripts scripts) evidence) := by
  refine List.ext_getElem? fun p => ?_
  simp only [build, List.getElem?_mapIdx, List.getElem?_map]
  cases hid : (nodeIds (sortScripts scripts))[p]? with
  | none => rfl
  | some id => simp only [Option.map_some, nodeOf, idxOf_of_getElem? hid]

/-- The place of an id is the first one that holds it, so looking for
the id ends there. -/
theorem find?_nodes {id : UInt16} (hid : id ∈ nodeIds scripts) :
    ((nodeIds scripts).mapIdx (node scripts evidence (nodeIds scripts).length
      (callEdges (nodeIds scripts) scripts))).find? (fun n => n.scriptId = id)
      = some (nodeOf scripts evidence id) := by
  have hplace := List.idxOf_lt_length_of_mem hid
  refine List.find?_eq_some_iff_getElem.mpr
    ⟨by simp [nodeOf, node], (nodeIds scripts).idxOf id, ?_, ?_, ?_⟩
  · rwa [List.length_mapIdx]
  · rw [List.getElem_mapIdx, List.getElem_idxOf hplace, nodeOf]
  · intro j hj
    have hne := List.not_of_lt_findIdx hj
    rw [List.getElem_mapIdx]
    simpa [node] using hne

theorem lookup_build {id : UInt16} (hid : id ∈ nodeIds (sortScripts scripts)) :
    (build scripts evidence).lookup id = some (nodeOf (sortScripts scripts) evidence id) :=
  find?_nodes hid

/-! ## Callers -/

theorem mem_callEdges_iff {ids : List UInt16} {e : CallEdge} :
    e ∈ callEdges ids scripts ↔ ∃ s ∈ scripts, ∃ target sites,
      (target, sites) ∈ s.callees.entries
        ∧ e = ⟨.script (ids.idxOf s.id), ids.idxOf target, .call, sites⟩ := by
  simp only [callEdges, List.mem_flatMap, List.mem_map]
  constructor
  · rintro ⟨s, hs, ⟨target, sites⟩, hentry, rfl⟩
    exact ⟨s, hs, target, sites, hentry, rfl⟩
  · rintro ⟨s, hs, target, sites, hentry, rfl⟩
    exact ⟨s, hs, (target, sites), hentry, rfl⟩

theorem caller?_eq_some_iff {place p : Nat} {e : CallEdge} :
    caller? place e = some p ↔ e.source = .script p ∧ e.callee = place ∧ p ≠ place := by
  unfold caller?
  cases hsource : e.source with
  | script caller =>
      simp only [CallSource.script.injEq, Bool.and_eq_true, decide_eq_true_eq,
        Option.ite_none_right_eq_some, Option.some.injEq]
      constructor
      · rintro ⟨⟨hcallee, hne⟩, rfl⟩
        exact ⟨rfl, hcallee, hne⟩
      · rintro ⟨rfl, hcallee, hne⟩
        exact ⟨⟨hcallee, hne⟩, rfl⟩
  | engine hook => simp

theorem mem_callers_node {count place p : Nat} {calls : List CallEdge} {id : UInt16} :
    p ∈ (node scripts evidence count calls place id).callers ↔
      p < count ∧ ∃ e ∈ calls, e.source = .script p ∧ e.callee = place ∧ p ≠ place := by
  simp only [node, List.mem_filter, List.mem_range, List.contains_iff_mem, List.mem_filterMap,
    caller?_eq_some_iff]

/-- The callers of a node are the places of the other ids that call it. -/
theorem mem_callers_iff {id : UInt16} {p : Nat} (hid : id ∈ nodeIds scripts) :
    p ∈ (nodeOf scripts evidence id).callers ↔
      ∃ caller, (caller ≠ id ∧ Calls scripts caller id) ∧ (nodeIds scripts).idxOf caller = p := by
  simp only [nodeOf, mem_callers_node, mem_callEdges_iff]
  constructor
  · rintro ⟨-, e, ⟨s, hs, target, sites, hentry, rfl⟩, hsource, hcallee, hne⟩
    obtain rfl := CallSource.script.inj hsource
    have htarget : target ∈ s.callees.keys := List.mem_map.mpr ⟨_, hentry, rfl⟩
    obtain rfl : id = target := (List.idxOf_inj hid).mp hcallee.symm
    exact ⟨s.id, ⟨fun h => hne (by rw [h]), s, hs, rfl, htarget⟩, rfl⟩
  · rintro ⟨caller, ⟨hne, hcalls⟩, rfl⟩
    have hmem := hcalls.caller_mem
    obtain ⟨s, hs, rfl, htarget⟩ := hcalls
    obtain ⟨⟨target, sites⟩, hentry, rfl⟩ := List.mem_map.mp htarget
    refine ⟨List.idxOf_lt_length_of_mem hmem, _, ⟨s, hs, target, sites, hentry, rfl⟩, rfl, rfl, ?_⟩
    exact fun h => hne ((List.idxOf_inj hmem).mp h)

/-- There are as many places as there are ids that stand at them. -/
theorem length_eq_card (order : List UInt16) {places : List Nat} (hnodup : places.Nodup)
    {ids : Finset UInt16} (hids : ∀ id ∈ ids, id ∈ order)
    (hplaces : ∀ p, p ∈ places ↔ ∃ id ∈ ids, order.idxOf id = p) :
    places.length = ids.card := by
  have hinj : Set.InjOn (fun id => order.idxOf id) ids := by
    intro a ha b _ hab
    exact (List.idxOf_inj (hids a ha)).mp hab
  rw [← List.toFinset_card_of_nodup hnodup, ← Finset.card_image_of_injOn hinj]
  congr 1
  ext p
  rw [List.mem_toFinset, hplaces, Finset.mem_image]

/-- There are as many callers as there are other ids that call. -/
theorem length_callers {id : UInt16} (hid : id ∈ nodeIds (sortScripts scripts))
    {callers : Finset UInt16}
    (hcallers : ∀ caller, caller ∈ callers ↔ caller ≠ id ∧ Calls scripts caller id) :
    (nodeOf (sortScripts scripts) evidence id).callers.length = callers.card := by
  have hnodup : (nodeOf (sortScripts scripts) evidence id).callers.Nodup :=
    List.nodup_range.filter _
  refine length_eq_card (nodeIds (sortScripts scripts)) hnodup (fun caller hcaller => ?_)
    fun p => ?_
  · exact (calls_sortScripts.mpr ((hcallers caller).mp hcaller).2).caller_mem
  · simp only [mem_callers_iff hid, hcallers, calls_sortScripts]

/-! ## What the graph says of an id -/

theorem hooks_isEmpty (e : Evidence) : e.hooks.isEmpty = !e.hasHook := by
  unfold Evidence.hooks Evidence.hasHook Evidence.isAction Evidence.isGuard
  cases e.lifecycleHook <;> cases hinteraction : e.interaction with
  | none => by_cases h : e.inboundCalls = some knownGuardCalls <;> simp [h]
  | some interaction =>
      cases interaction <;> by_cases h : e.inboundCalls = some knownGuardCalls <;> simp [h]

/-- The part that `callers` other callers and the hooks make of a script. -/
def statusOf (callers : Nat) (hooked : Bool) : NodeStatus :=
  if callers = 0 then (if hooked then .entry else .orphan)
  else if 3 ≤ callers then .utility
  else .internal

theorem status_eq_statusOf (n : CallNode) :
    n.status = statusOf n.callers.length (!n.hooks.isEmpty) := by
  unfold CallNode.status statusOf
  cases hcallers : n.callers <;> cases hhooks : n.hooks <;> simp [utilityCallers]

section

variable {id : UInt16} {callers : Finset UInt16}

theorem callerCount_build (hid : id ∈ nodeIds (sortScripts scripts))
    (hcallers : ∀ caller, caller ∈ callers ↔ caller ≠ id ∧ Calls scripts caller id) :
    (build scripts evidence).callerCount id = callers.card := by
  rw [callerCount, lookup_build hid, Option.map_some, Option.getD_some]
  exact length_callers hid hcallers

theorem statusOf?_build (hid : id ∈ nodeIds (sortScripts scripts))
    (hcallers : ∀ caller, caller ∈ callers ↔ caller ≠ id ∧ Calls scripts caller id) :
    (build scripts evidence).statusOf? id
      = some (statusOf callers.card (evidence.get id).hasHook) := by
  have hhooks : (nodeOf (sortScripts scripts) evidence id).hooks = (evidence.get id).hooks := rfl
  rw [statusOf?, lookup_build hid, Option.map_some, status_eq_statusOf,
    length_callers hid hcallers, hhooks, hooks_isEmpty, Bool.not_not]

end

end

end CallGraph

end BehaviorScript
