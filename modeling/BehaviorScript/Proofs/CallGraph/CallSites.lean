import BehaviorScript.Proofs.CallGraph.Ids

/-!
# Call sites in the graph

The calls of a script are tallied target by target before the graph is
built, and each entry of the tally becomes one edge. Both steps lose
nothing:

- a tally holds every id that occurs, with the number of times it occurs
  (`IdMap.entries_tally`);
- where no two scripts share an id, the edges that leave a node are those
  of its own script, entry by entry (`outgoing_build`), and its callees are
  the other targets (`calleeCount_build`).

With repeated ids the second would fail: all scripts with an id share one
node, and each adds its own edges to it.
-/

namespace BehaviorScript

namespace IdMap

theorem get?_tally (ids : List UInt16) (k : UInt16) :
    (tally ids).get? k = if k ∈ ids then some (ids.count k) else none := by
  -- what the fold is started from counts in addition
  have hfold : ∀ m : IdMap Nat,
      (ids.foldl (fun m id => m.insert id ((m.get? id).getD 0 + 1)) m).get? k
        = if k ∈ ids then some ((m.get? k).getD 0 + ids.count k) else m.get? k := by
    induction ids with
    | nil => intro m; simp
    | cons id rest ih =>
        intro m
        rw [List.foldl_cons, ih, get?_insert]
        by_cases hk : k = id
        · subst hk
          by_cases hrest : k ∈ rest
          · simp [hrest, Nat.add_assoc, Nat.add_comm 1]
          · simp [hrest, List.count_eq_zero_of_not_mem hrest]
        · simp [hk, List.count_cons_of_ne (Ne.symm hk)]
  rw [tally, hfold]
  simp

/-- A tally is its ids, each with its number of occurrences. -/
theorem entries_tally (ids : List UInt16) :
    (tally ids).entries = (tally ids).keys.map fun k => (k, ids.count k) := by
  rw [keys, List.map_map]
  refine (List.map_id _).symm.trans (List.map_congr_left fun entry hentry => ?_)
  have hget : (tally ids).get? entry.1 = some entry.2 := mem_entries_iff.mp hentry
  rw [get?_tally, Option.ite_none_right_eq_some, Option.some_inj] at hget
  exact Prod.ext rfl hget.2.symm

end IdMap

namespace CallGraph

/-- The calls that leave the node at a place. -/
def outgoing (g : CallGraph) (place : Nat) : List CallEdge :=
  g.edges.filter fun e => e.source = .script place && e.kind = .call

variable {scripts : List ScriptCalls} {evidence : EvidenceTable} {s : ScriptCalls}

/-- The edge for one entry of a tally. -/
def edgeOf (ids : List UInt16) (caller : UInt16) (entry : UInt16 × Nat) : CallEdge :=
  ⟨.script (ids.idxOf caller), ids.idxOf entry.1, .call, entry.2⟩

theorem filter_callEdges (hids : (scripts.map ScriptCalls.id).Nodup) (hs : s ∈ scripts) :
    (callEdges (nodeIds scripts) scripts).filter
        (fun e => e.source = .script ((nodeIds scripts).idxOf s.id))
      = s.callees.entries.map (edgeOf (nodeIds scripts) s.id) := by
  rw [callEdges, List.filter_flatMap, flatMap_eq_of_nodup (List.Nodup.of_map _ hids) hs]
  · refine List.filter_eq_self.mpr fun e he => ?_
    obtain ⟨entry, -, rfl⟩ := List.mem_map.mp he
    exact decide_eq_true rfl
  · intro other hother hne
    refine List.filter_eq_nil_iff.mpr fun e he hsource => hne ?_
    obtain ⟨entry, -, rfl⟩ := List.mem_map.mp he
    have hplace := CallSource.script.inj (of_decide_eq_true hsource)
    have hid : other.id ∈ nodeIds scripts := mem_nodeIds_iff.mpr (Or.inl ⟨other, hother, rfl⟩)
    exact List.inj_on_of_nodup_map hids hother hs ((List.idxOf_inj hid).mp hplace)

theorem mem_callEdges_from_iff (hids : (scripts.map ScriptCalls.id).Nodup) (hs : s ∈ scripts)
    (e : CallEdge) :
    e ∈ callEdges (nodeIds scripts) scripts
        ∧ e.source = .script ((nodeIds scripts).idxOf s.id) ↔
      ∃ entry ∈ s.callees.entries, edgeOf (nodeIds scripts) s.id entry = e := by
  rw [← List.mem_map, ← filter_callEdges hids hs, List.mem_filter, decide_eq_true_eq]

section

variable (hids : (scripts.map ScriptCalls.id).Nodup) (hs : s ∈ scripts)

include hids in
theorem nodup_ids_sortScripts : ((sortScripts scripts).map ScriptCalls.id).Nodup :=
  ((List.mergeSort_perm _ _).map ScriptCalls.id).nodup_iff.mpr hids

include hs in
theorem target_mem_nodeIds {target : UInt16} (htarget : target ∈ s.callees.keys) :
    target ∈ nodeIds (sortScripts scripts) :=
  mem_nodeIds_iff.mpr (Or.inr ⟨s.id, s, List.mem_mergeSort.mpr hs, rfl, htarget⟩)

include hids hs

theorem outgoing_build :
    (build scripts evidence).outgoing ((nodeIds (sortScripts scripts)).idxOf s.id)
      = s.callees.entries.map (edgeOf (nodeIds (sortScripts scripts)) s.id) := by
  rw [outgoing, ← List.filter_filter, filter_call_edges]
  exact filter_callEdges (nodup_ids_sortScripts hids) (List.mem_mergeSort.mpr hs)

theorem nodup_callee_outgoing :
    (((build scripts evidence).outgoing ((nodeIds (sortScripts scripts)).idxOf s.id)).map
      CallEdge.callee).Nodup := by
  have hcallees : (s.callees.entries.map (edgeOf (nodeIds (sortScripts scripts)) s.id)).map
      CallEdge.callee = s.callees.keys.map fun id => (nodeIds (sortScripts scripts)).idxOf id := by
    rw [IdMap.keys, List.map_map, List.map_map]
    rfl
  rw [outgoing_build hids hs, hcallees]
  refine s.callees.nodup_keys.map_on fun id hid other _ hplace => ?_
  exact (List.idxOf_inj (target_mem_nodeIds hs hid)).mp hplace

/-- An edge leads to the target that it counts the sites of. -/
theorem sites_of_mem_outgoing {e : CallEdge}
    (he : e ∈ (build scripts evidence).outgoing ((nodeIds (sortScripts scripts)).idxOf s.id)) :
    ∃ target, (build scripts evidence).idAt? e.callee = some target
      ∧ s.callees.get? target = some e.sites := by
  rw [outgoing_build hids hs] at he
  obtain ⟨entry, hentry, rfl⟩ := List.mem_map.mp he
  have htarget : entry.1 ∈ s.callees.keys := List.mem_map.mpr ⟨entry, hentry, rfl⟩
  exact ⟨entry.1, idAt?_idxOf (target_mem_nodeIds hs htarget), IdMap.mem_entries_iff.mp hentry⟩

theorem exists_outgoing_iff {target : UInt16} :
    (∃ e ∈ (build scripts evidence).outgoing ((nodeIds (sortScripts scripts)).idxOf s.id),
      (build scripts evidence).idAt? e.callee = some target) ↔ target ∈ s.callees.keys := by
  constructor
  · rintro ⟨e, he, hcallee⟩
    obtain ⟨target', hcallee', hsites⟩ := sites_of_mem_outgoing hids hs he
    obtain rfl := Option.some.inj (hcallee.symm.trans hcallee')
    rw [IdMap.mem_keys_iff, hsites]
    rfl
  · intro htarget
    have hid := target_mem_nodeIds hs htarget
    obtain ⟨entry, hentry, rfl⟩ := List.mem_map.mp htarget
    refine ⟨edgeOf (nodeIds (sortScripts scripts)) s.id entry, ?_, idAt?_idxOf hid⟩
    rw [outgoing_build hids hs]
    exact List.mem_map.mpr ⟨entry, hentry, rfl⟩

theorem mem_callees_iff {p : Nat} :
    p ∈ (nodeOf (sortScripts scripts) evidence s.id).callees ↔
      ∃ target ∈ s.callees.keys.toFinset.erase s.id,
        (nodeIds (sortScripts scripts)).idxOf target = p := by
  have hout := mem_callEdges_from_iff (nodup_ids_sortScripts hids) (List.mem_mergeSort.mpr hs)
  simp only [nodeOf, mem_callees_node, Finset.mem_erase, List.mem_toFinset]
  constructor
  · rintro ⟨-, e, he, hsource, rfl, hne⟩
    obtain ⟨entry, hentry, rfl⟩ := (hout e).mp ⟨he, hsource⟩
    have htarget : entry.1 ∈ s.callees.keys := List.mem_map.mpr ⟨entry, hentry, rfl⟩
    exact ⟨entry.1, ⟨fun heq => hne (by rw [edgeOf, heq]), htarget⟩, rfl⟩
  · rintro ⟨target, ⟨hne, htarget⟩, rfl⟩
    have hid := target_mem_nodeIds hs htarget
    obtain ⟨entry, hentry, rfl⟩ := List.mem_map.mp htarget
    obtain ⟨he, hsource⟩ := (hout _).mpr ⟨entry, hentry, rfl⟩
    refine ⟨List.idxOf_lt_length_of_mem hid, _, he, hsource, rfl, ?_⟩
    exact fun hplace => hne ((List.idxOf_inj hid).mp hplace)

theorem calleeCount_build :
    (build scripts evidence).calleeCount s.id = (s.callees.keys.toFinset.erase s.id).card := by
  rw [calleeCount, lookup_build (id_mem_nodeIds ⟨s, hs, rfl⟩), Option.map_some, Option.getD_some]
  have hnodup : (nodeOf (sortScripts scripts) evidence s.id).callees.Nodup :=
    List.nodup_range.filter _
  refine length_eq_card (nodeIds (sortScripts scripts)) hnodup (fun target htarget => ?_)
    fun _ => mem_callees_iff hids hs
  exact target_mem_nodeIds hs (List.mem_toFinset.mp (Finset.mem_of_mem_erase htarget))

end

end CallGraph

end BehaviorScript
