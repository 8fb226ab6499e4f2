import BehaviorScript.Proofs.CallGraph.Interning

/-!
# Well-formed call graphs

What holds of every graph that `build` returns, whatever scripts it is
given: ids may repeat, and a script may call itself or an id that no
script has. `WellFormed` collects it.

All of it rests on three facts. Places and ids correspond
(`nodes_getElem?_iff`), since the ids of the nodes are listed without
repetition. The ids of scripts come first and ascend (`pairwise_nodeIds`).
And the edges between scripts are one list, off which the callers, the
callees and the recursion of each node are read (`mem_callers_node`,
`mem_callees_node`).

The loops that grow the graph one id and one call at a time end with the
same graph (`CallArena.graph_grow`) and with the same places (`place?_grow`).
-/

namespace BehaviorScript

/-! ## Lists without repetition -/

/-- Of an ascending list one of each stays, in the same order. -/
theorem pairwise_lt_eraseDups {ids : List UInt16} (h : ids.Pairwise (· ≤ ·)) :
    ids.eraseDups.Pairwise (· < ·) := by
  match ids, h with
  | [], _ => exact List.Pairwise.nil
  | id :: rest, h =>
      obtain ⟨habove, hrest⟩ := List.pairwise_cons.mp h
      have htail := pairwise_lt_eraseDups (hrest.filter fun other => !other == id)
      rw [List.eraseDups_cons, List.pairwise_cons]
      refine ⟨fun other hother => ?_, htail⟩
      obtain ⟨hmem, hne⟩ := List.mem_filter.mp (List.mem_eraseDups.mp hother)
      refine UInt16.lt_of_le_of_ne (habove other hmem) fun heq => ?_
      simp [heq] at hne
termination_by ids.length
decreasing_by exact Nat.lt_succ_of_le (List.length_filter_le _ _)

theorem length_le_of_nodup {ids : List UInt16} (h : ids.Nodup) : ids.length ≤ 65536 := by
  have hnodup : (ids.map UInt16.toNat).Nodup := h.map fun _ _ => UInt16.toNat_inj.mp
  have hsubset : ids.map UInt16.toNat ⊆ List.range 65536 := by
    intro n hn
    obtain ⟨id, -, rfl⟩ := List.mem_map.mp hn
    exact List.mem_range.mpr id.toNat_lt
  simpa using (List.subperm_of_subset hnodup hsubset).length_le

namespace CallGraph

variable {scripts : List ScriptCalls} {evidence : EvidenceTable}

/-! ## Places -/

theorem getElem?_idxOf {id : UInt16} (h : id ∈ nodeIds scripts) :
    (nodeIds scripts)[(nodeIds scripts).idxOf id]? = some id := by
  have hplace := List.idxOf_lt_length_of_mem h
  rw [List.getElem?_eq_getElem hplace, List.getElem_idxOf hplace]

theorem nodes_getElem?_iff {p : Nat} {n : CallNode} :
    (build scripts evidence).nodes[p]? = some n ↔
      ∃ id, (nodeIds (sortScripts scripts))[p]? = some id
        ∧ nodeOf (sortScripts scripts) evidence id = n := by
  rw [nodes_build, List.getElem?_map, Option.map_eq_some_iff]

theorem mem_nodes_iff {n : CallNode} :
    n ∈ (build scripts evidence).nodes ↔
      ∃ id ∈ nodeIds (sortScripts scripts), nodeOf (sortScripts scripts) evidence id = n := by
  rw [nodes_build, List.mem_map]

theorem length_nodes :
    (build scripts evidence).nodes.length = (nodeIds (sortScripts scripts)).length := by
  rw [nodes_build, List.length_map]

@[simp]
theorem scriptId_nodeOf (id : UInt16) : (nodeOf scripts evidence id).scriptId = id := rfl

@[simp]
theorem hooks_nodeOf (id : UInt16) :
    (nodeOf scripts evidence id).hooks = (evidence.get id).hooks := rfl

theorem map_scriptId_nodes :
    (build scripts evidence).nodes.map CallNode.scriptId = nodeIds (sortScripts scripts) := by
  rw [nodes_build, List.map_map]
  exact List.map_id _

theorem place?_build {p : Nat} {id : UInt16}
    (h : (nodeIds (sortScripts scripts))[p]? = some id) :
    (build scripts evidence).place? id = some p := by
  obtain ⟨hp, hid⟩ := List.getElem?_eq_some_iff.mp h
  rw [place?, nodes_build, List.findIdx?_map, List.findIdx?_eq_some_iff_getElem]
  refine ⟨hp, by simp [hid], fun j hj hsame => ?_⟩
  have hjp : (nodeIds (sortScripts scripts))[j] = (nodeIds (sortScripts scripts))[p] :=
    (of_decide_eq_true hsame).trans hid.symm
  exact absurd (nodup_nodeIds.getElem_inj_iff.mp hjp) (Nat.ne_of_lt hj)

theorem place?_of_notMem {id : UInt16} (h : id ∉ nodeIds (sortScripts scripts)) :
    (build scripts evidence).place? id = none := by
  rw [place?, List.findIdx?_eq_none_iff]
  intro n hn
  obtain ⟨other, hother, rfl⟩ := mem_nodes_iff.mp hn
  exact decide_eq_false fun heq => h (heq ▸ hother)

/-- The places that the loops have given away are those found by a search. -/
theorem place?_grow (id : UInt16) :
    (CallArena.grow scripts evidence).places.get? id = (build scripts evidence).place? id := by
  rw [CallArena.places_grow]
  split
  · next hid => exact (place?_build (getElem?_idxOf hid)).symm
  · next hid => exact (place?_of_notMem hid).symm

theorem lookup_isSome_iff {id : UInt16} :
    ((build scripts evidence).lookup id).isSome ↔ id ∈ nodeIds (sortScripts scripts) := by
  constructor
  · intro h
    obtain ⟨n, hn⟩ := Option.isSome_iff_exists.mp h
    have hid : n.scriptId = id := by simpa using List.find?_some hn
    obtain ⟨id', hid', rfl⟩ := mem_nodes_iff.mp (List.mem_of_find?_eq_some hn)
    exact hid ▸ hid'
  · intro h
    rw [lookup_build h]
    rfl

/-! ## Nodes outside of the corpus -/

theorem isExternal_nodeOf {id : UInt16} :
    (nodeOf scripts evidence id).isExternal = true ↔ ∀ s ∈ scripts, s.id ≠ id := by
  simp only [nodeOf, node, Option.isNone_iff_eq_none, List.getLast?_eq_none_iff,
    List.filter_eq_nil_iff, decide_eq_true_eq]

theorem isExternal_nodeOf_eq_false {id : UInt16} :
    (nodeOf scripts evidence id).isExternal = false ↔ ∃ s ∈ scripts, s.id = id := by
  rw [← Bool.not_eq_true, isExternal_nodeOf]
  simp

theorem owner_of_isExternal {id : UInt16} (h : (nodeOf scripts evidence id).isExternal = true) :
    (nodeOf scripts evidence id).owner = none
      ∧ (nodeOf scripts evidence id).instructionCount = 0 := by
  simp only [nodeOf, node, Option.isNone_iff_eq_none] at h ⊢
  rw [h]
  exact ⟨rfl, rfl⟩

/-- Only a call brings a node into the graph that no script has the id of. -/
theorem callers_ne_nil {id : UInt16} (hid : id ∈ nodeIds scripts)
    (h : (nodeOf scripts evidence id).isExternal = true) :
    (nodeOf scripts evidence id).callers ≠ [] := by
  have hnone := isExternal_nodeOf.mp h
  rcases mem_nodeIds_iff.mp hid with ⟨s, hs, hsid⟩ | ⟨caller, hcalls⟩
  · exact absurd hsid (hnone s hs)
  · have hne : caller ≠ id := by
      obtain ⟨s, hs, rfl, -⟩ := hcalls
      exact hnone s hs
    exact List.ne_nil_of_mem ((mem_callers_iff hid).mpr ⟨caller, ⟨hne, hcalls⟩, rfl⟩)

theorem status_of_callers {n : CallNode} (h : n.callers ≠ []) :
    n.status ≠ .entry ∧ n.status ≠ .orphan := by
  have hempty : n.callers.isEmpty = false := by simpa using h
  unfold CallNode.status
  rw [hempty, if_neg Bool.false_ne_true]
  split <;> simp

/-- The ids of scripts in ascending order, then the others. -/
theorem pairwise_nodeIds (h : scripts.Pairwise fun a b => a.id ≤ b.id) :
    (nodeIds scripts).Pairwise fun a b =>
      (∃ s ∈ scripts, s.id = b) → (∃ s ∈ scripts, s.id = a) ∧ a < b := by
  have hown : (scripts.map ScriptCalls.id).eraseDups.Pairwise (· < ·) :=
    pairwise_lt_eraseDups (List.pairwise_map.mpr h)
  have hscript : ∀ id ∈ (scripts.map ScriptCalls.id).eraseDups, ∃ s ∈ scripts, s.id = id :=
    fun id hid => List.mem_map.mp (List.mem_eraseDups.mp hid)
  have hother : ∀ id ∈ ((scripts.flatMap fun s => s.callees.keys).removeAll
      (scripts.map ScriptCalls.id)).eraseDups, ¬ ∃ s ∈ scripts, s.id = id := by
    rintro id hid ⟨s, hs, rfl⟩
    have hmem : s.id ∈ scripts.map ScriptCalls.id := List.mem_map_of_mem hs
    have hremoved := (List.mem_filter.mp (List.mem_eraseDups.mp hid)).2
    rw [List.elem_eq_true_of_mem hmem] at hremoved
    cases hremoved
  rw [nodeIds, List.eraseDups_append, List.pairwise_append]
  refine ⟨hown.imp_of_mem fun ha hb hab _ => ⟨hscript _ ha, hab⟩, ?_, ?_⟩
  · exact List.pairwise_of_forall_mem_list fun a _ b hb hscript => absurd hscript (hother b hb)
  · exact fun a _ b hb hscript => absurd hscript (hother b hb)

/-! ## Edges -/

/-- A call leads from the node at `a` to the node at `b`. -/
def HasCall (g : CallGraph) (a b : Nat) : Prop :=
  ∃ e ∈ g.edges, e.kind = .call ∧ e.source = .script a ∧ e.callee = b

theorem kind_ofHook_ne_call (hook : Hook) : CallKind.ofHook hook ≠ .call := by
  cases hook <;> simp [CallKind.ofHook]

theorem mem_hookEdges_iff {ids : List UInt16} {e : CallEdge} :
    e ∈ hookEdges ids evidence ↔ ∃ id ∈ ids, ∃ hook ∈ (evidence.get id).hooks,
      e = ⟨.engine hook, ids.idxOf id, .ofHook hook, 1⟩ := by
  simp only [hookEdges, List.mem_flatMap, List.mem_mergeSort, List.mem_map, eq_comm]

theorem mem_edges_build_iff {e : CallEdge} :
    e ∈ (build scripts evidence).edges ↔
      e ∈ callEdges (nodeIds (sortScripts scripts)) (sortScripts scripts)
        ∨ e ∈ hookEdges (nodeIds (sortScripts scripts)) evidence :=
  List.mem_append

theorem hasCall_build_iff {a b : Nat} :
    (build scripts evidence).HasCall a b ↔
      ∃ e ∈ callEdges (nodeIds (sortScripts scripts)) (sortScripts scripts),
        e.source = .script a ∧ e.callee = b := by
  constructor
  · rintro ⟨e, he, hkind, hends⟩
    rcases mem_edges_build_iff.mp he with he | he
    · exact ⟨e, he, hends⟩
    · obtain ⟨id, -, hook, -, rfl⟩ := mem_hookEdges_iff.mp he
      exact absurd hkind (kind_ofHook_ne_call hook)
  · rintro ⟨e, he, hends⟩
    refine ⟨e, mem_edges_build_iff.mpr (Or.inl he), ?_, hends⟩
    obtain ⟨s, -, target, sites, -, rfl⟩ := mem_callEdges_iff.mp he
    rfl

theorem ends_of_mem_callEdges {e : CallEdge} (he : e ∈ callEdges (nodeIds scripts) scripts) :
    e.callee < (nodeIds scripts).length
      ∧ ∃ a < (nodeIds scripts).length, e.source = .script a := by
  obtain ⟨s, hs, target, sites, hentry, rfl⟩ := mem_callEdges_iff.mp he
  have hcalls : Calls scripts s.id target := ⟨s, hs, rfl, List.mem_map.mpr ⟨_, hentry, rfl⟩⟩
  refine ⟨List.idxOf_lt_length_of_mem (mem_nodeIds_iff.mpr (Or.inr ⟨_, hcalls⟩)), _, ?_, rfl⟩
  exact List.idxOf_lt_length_of_mem hcalls.caller_mem

theorem ends_of_mem_edges {e : CallEdge} (he : e ∈ (build scripts evidence).edges) :
    e.callee < (build scripts evidence).nodes.length
      ∧ (∀ a, e.source = .script a → a < (build scripts evidence).nodes.length)
      ∧ (e.kind = .call ↔ ∃ a, e.source = .script a) := by
  rw [length_nodes]
  rcases mem_edges_build_iff.mp he with he | he
  · obtain ⟨hcallee, a, ha, hsource⟩ := ends_of_mem_callEdges he
    obtain ⟨s, -, target, sites, -, rfl⟩ := mem_callEdges_iff.mp he
    refine ⟨hcallee, fun b hb => ?_, fun _ => ⟨_, rfl⟩, fun _ => rfl⟩
    obtain rfl := CallSource.script.inj (hsource.symm.trans hb)
    exact ha
  · obtain ⟨id, hid, hook, -, rfl⟩ := mem_hookEdges_iff.mp he
    refine ⟨List.idxOf_lt_length_of_mem hid, ?_, ?_, ?_⟩
    · intro a ha
      cases ha
    · intro hkind
      exact absurd hkind (kind_ofHook_ne_call hook)
    · rintro ⟨a, ha⟩
      cases ha

/-! ## Callers and callees -/

theorem callee?_eq_some_iff {place q : Nat} {e : CallEdge} :
    callee? place e = some q ↔ e.source = .script place ∧ e.callee = q ∧ q ≠ place := by
  unfold callee?
  cases hsource : e.source with
  | script caller =>
      simp only [CallSource.script.injEq, Bool.and_eq_true, decide_eq_true_eq,
        Option.ite_none_right_eq_some, Option.some.injEq]
      constructor
      · rintro ⟨⟨hcaller, hne⟩, rfl⟩
        exact ⟨hcaller, rfl, hne⟩
      · rintro ⟨hcaller, rfl, hne⟩
        exact ⟨⟨hcaller, hne⟩, rfl⟩
  | engine hook => simp

theorem mem_callees_node {count place q : Nat} {calls : List CallEdge} {id : UInt16} :
    q ∈ (node scripts evidence count calls place id).callees ↔
      q < count ∧ ∃ e ∈ calls, e.source = .script place ∧ e.callee = q ∧ q ≠ place := by
  simp only [node, List.mem_filter, List.mem_range, List.contains_iff_mem, List.mem_filterMap,
    callee?_eq_some_iff]

section

variable {p q : Nat} {n : CallNode}

/-- The callers of a node are the other places from which a call leads to it. -/
theorem mem_callers_build (hn : (build scripts evidence).nodes[p]? = some n) :
    q ∈ n.callers ↔ q ≠ p ∧ (build scripts evidence).HasCall q p := by
  obtain ⟨id, hid, rfl⟩ := nodes_getElem?_iff.mp hn
  rw [nodeOf, idxOf_of_getElem? hid, mem_callers_node, hasCall_build_iff]
  constructor
  · rintro ⟨-, e, he, hsource, hcallee, hne⟩
    exact ⟨hne, e, he, hsource, hcallee⟩
  · rintro ⟨hne, e, he, hsource, hcallee⟩
    obtain ⟨-, a, ha, hsource'⟩ := ends_of_mem_callEdges he
    obtain rfl := CallSource.script.inj (hsource'.symm.trans hsource)
    exact ⟨ha, e, he, hsource, hcallee, hne⟩

theorem mem_callees_build (hn : (build scripts evidence).nodes[p]? = some n) :
    q ∈ n.callees ↔ q ≠ p ∧ (build scripts evidence).HasCall p q := by
  obtain ⟨id, hid, rfl⟩ := nodes_getElem?_iff.mp hn
  rw [nodeOf, idxOf_of_getElem? hid, mem_callees_node, hasCall_build_iff]
  constructor
  · rintro ⟨-, e, he, hsource, hcallee, hne⟩
    exact ⟨hne, e, he, hsource, hcallee⟩
  · rintro ⟨hne, e, he, hsource, rfl⟩
    exact ⟨(ends_of_mem_callEdges he).1, e, he, hsource, rfl, hne⟩

theorem isRecursive_build (hn : (build scripts evidence).nodes[p]? = some n) :
    n.isRecursive = true ↔ (build scripts evidence).HasCall p p := by
  obtain ⟨id, hid, rfl⟩ := nodes_getElem?_iff.mp hn
  rw [nodeOf, idxOf_of_getElem? hid, hasCall_build_iff]
  simp only [node, List.any_eq_true, Bool.and_eq_true, decide_eq_true_eq]

end

theorem lt_of_hasCall {a b : Nat} (h : (build scripts evidence).HasCall a b) :
    a < (build scripts evidence).nodes.length ∧ b < (build scripts evidence).nodes.length := by
  obtain ⟨e, he, -, hsource, rfl⟩ := h
  obtain ⟨hcallee, hcaller, -⟩ := ends_of_mem_edges he
  exact ⟨hcaller a hsource, hcallee⟩

/-! ## Hooks -/

theorem nodup_hooks (e : Evidence) : e.hooks.Nodup := by
  unfold Evidence.hooks
  cases e.lifecycleHook <;> cases e.isAction <;> cases e.isGuard <;> simp

/-- What one member of a list alone contributes. -/
theorem flatMap_eq_of_nodup {α β : Type} {l : List α} {a : α} {f : α → List β} (hnodup : l.Nodup)
    (ha : a ∈ l) (hothers : ∀ b ∈ l, b ≠ a → f b = []) : l.flatMap f = f a := by
  obtain ⟨before, after, rfl⟩ := List.append_of_mem ha
  have hfresh : a ∉ before ++ after := (List.nodup_cons.mp (List.nodup_middle.mp hnodup)).1
  have hnil : ∀ b ∈ before ++ after, f b = [] := by
    intro b hb
    refine hothers b ?_ fun heq => hfresh (heq ▸ hb)
    simp only [List.mem_append, List.mem_cons] at hb ⊢
    tauto
  have hb : before.flatMap f = [] :=
    List.flatMap_eq_nil_iff.mpr fun b hb => hnil b (List.mem_append_left _ hb)
  have ha : after.flatMap f = [] :=
    List.flatMap_eq_nil_iff.mpr fun b hb => hnil b (List.mem_append_right _ hb)
  rw [List.flatMap_append, List.flatMap_cons, hb, ha, List.nil_append, List.append_nil]

theorem filter_hookEdges {p : Nat} {id : UInt16} (h : (nodeIds scripts)[p]? = some id) :
    (hookEdges (nodeIds scripts) evidence).filter (fun e => e.callee = p)
      = (evidence.get id).hooks.map fun hook => ⟨.engine hook, p, .ofHook hook, 1⟩ := by
  have hid : id ∈ (nodeIds scripts).mergeSort fun a b => a ≤ b :=
    List.mem_mergeSort.mpr (List.mem_of_getElem? h)
  have hplace := idxOf_of_getElem? h
  rw [hookEdges, List.filter_flatMap, flatMap_eq_of_nodup nodup_nodeIds.mergeSort hid]
  · rw [hplace]
    refine List.filter_eq_self.mpr fun e he => ?_
    obtain ⟨hook, -, rfl⟩ := List.mem_map.mp he
    exact decide_eq_true rfl
  · intro other hother hne
    refine List.filter_eq_nil_iff.mpr fun e he hcallee => hne ?_
    obtain ⟨hook, -, rfl⟩ := List.mem_map.mp he
    exact (List.idxOf_inj (List.mem_mergeSort.mp hother)).mp
      ((of_decide_eq_true hcallee).trans hplace.symm)

/-- The hooks of a node and the edges from the engine to it are the same,
one by one. -/
theorem filter_edges_build {p : Nat} {n : CallNode}
    (hn : (build scripts evidence).nodes[p]? = some n) :
    (build scripts evidence).edges.filter (fun e => e.kind ≠ .call ∧ e.callee = p)
      = n.hooks.map fun hook => ⟨.engine hook, p, .ofHook hook, 1⟩ := by
  obtain ⟨id, hid, rfl⟩ := nodes_getElem?_iff.mp hn
  have hcalls : (callEdges (nodeIds (sortScripts scripts)) (sortScripts scripts)).filter
      (fun e => e.kind ≠ .call ∧ e.callee = p) = [] := by
    refine List.filter_eq_nil_iff.mpr fun e he => ?_
    obtain ⟨s, -, target, sites, -, rfl⟩ := mem_callEdges_iff.mp he
    simp
  have hhooks : (hookEdges (nodeIds (sortScripts scripts)) evidence).filter
      (fun e => e.kind ≠ .call ∧ e.callee = p)
        = (hookEdges (nodeIds (sortScripts scripts)) evidence).filter fun e => e.callee = p := by
    refine List.filter_congr fun e he => ?_
    obtain ⟨id', -, hook, -, rfl⟩ := mem_hookEdges_iff.mp he
    simp [kind_ofHook_ne_call hook]
  rw [build, List.filter_append, hcalls, hhooks, filter_hookEdges hid, List.nil_append,
    hooks_nodeOf]

/-! ## The whole -/

/-- What the graph of `scripts` promises. A node is named by its place. -/
structure WellFormed (scripts : List ScriptCalls) (evidence : EvidenceTable) (g : CallGraph) :
    Prop where
  /-- The place of a node is the one found for its id. -/
  place : ∀ p n, g.nodes[p]? = some n → g.place? n.scriptId = some p
  distinct : (g.nodes.map CallNode.scriptId).Nodup
  /-- As many as there are ids, so that a place fits into 32 bits. -/
  small : g.nodes.length ≤ 65536 ∧ ∀ p < g.nodes.length, (UInt32.ofNat p).toNat = p
  found_iff : ∀ id, (g.lookup id).isSome ↔
    (∃ s ∈ scripts, s.id = id) ∨ ∃ s ∈ scripts, id ∈ s.callees.keys
  found : ∀ id n, g.lookup id = some n → n ∈ g.nodes ∧ n.scriptId = id
  external_iff : ∀ n ∈ g.nodes, n.isExternal = true ↔ ∀ s ∈ scripts, s.id ≠ n.scriptId
  external : ∀ n ∈ g.nodes, n.isExternal = true →
    n.owner = none ∧ n.instructionCount = 0 ∧ n.callers ≠ []
      ∧ n.status ≠ .entry ∧ n.status ≠ .orphan
  mirrored : ∀ a b m n, g.nodes[a]? = some m → g.nodes[b]? = some n →
    (b ∈ m.callees ↔ a ∈ n.callers) ∧ (a ∈ n.callers ↔ a ≠ b ∧ g.HasCall a b)
  /-- Callers and callees are places of other nodes. -/
  others : ∀ p n, g.nodes[p]? = some n → ∀ q, q ∈ n.callers ∨ q ∈ n.callees →
    q ≠ p ∧ q < g.nodes.length
  recursive_iff : ∀ p n, g.nodes[p]? = some n → (n.isRecursive = true ↔ g.HasCall p p)
  ends : ∀ e ∈ g.edges, e.callee < g.nodes.length
    ∧ (∀ a, e.source = .script a → a < g.nodes.length)
    ∧ (e.kind = .call ↔ ∃ a, e.source = .script a)
  /-- A node of the corpus has only such nodes before it, with smaller ids. -/
  ordered : g.nodes.Pairwise fun m n =>
    n.isExternal = false → m.isExternal = false ∧ m.scriptId < n.scriptId
  hooks : ∀ p n, g.nodes[p]? = some n →
    n.hooks = (evidence.get n.scriptId).hooks ∧ n.hooks.Nodup
      ∧ g.edges.filter (fun e => e.kind ≠ .call ∧ e.callee = p)
          = n.hooks.map fun hook => ⟨.engine hook, p, .ofHook hook, 1⟩

theorem pairwise_nodes :
    (build scripts evidence).nodes.Pairwise fun m n =>
      n.isExternal = false → m.isExternal = false ∧ m.scriptId < n.scriptId := by
  have hsorted : (sortScripts scripts).Pairwise fun a b => a.id ≤ b.id :=
    ById.pairwise_mergeSort ScriptCalls.id scripts
  rw [nodes_build, List.pairwise_map]
  refine (pairwise_nodeIds hsorted).imp fun {a b} hab => ?_
  simpa only [isExternal_nodeOf_eq_false, scriptId_nodeOf] using hab

/-- The loops grow a well-formed graph, which is the one that `build` writes
down, and know the place of every id in it. -/
theorem wellFormed_build (scripts : List ScriptCalls) (evidence : EvidenceTable) :
    (CallArena.grow scripts evidence).graph = build scripts evidence
      ∧ (∀ id, (CallArena.grow scripts evidence).places.get? id
        = (build scripts evidence).place? id)
      ∧ WellFormed scripts evidence (build scripts evidence) := by
  refine ⟨CallArena.graph_grow scripts evidence, place?_grow, ?_⟩
  exact {
    place := by
      intro p n hn
      obtain ⟨id, hid, rfl⟩ := nodes_getElem?_iff.mp hn
      exact place?_build hid
    distinct := by
      rw [map_scriptId_nodes]
      exact nodup_nodeIds
    small := by
      have hlength : (build scripts evidence).nodes.length ≤ 65536 := by
        rw [length_nodes]
        exact length_le_of_nodup nodup_nodeIds
      refine ⟨hlength, fun p hp => ?_⟩
      rw [UInt32.toNat_ofNat']
      exact Nat.mod_eq_of_lt (by omega)
    found_iff := by
      intro id
      rw [lookup_isSome_iff]
      simp only [nodeIds, sortScripts, List.mem_eraseDups, List.mem_append, List.mem_map,
        List.mem_flatMap, List.mem_mergeSort]
    found := by
      intro id n hn
      exact ⟨List.mem_of_find?_eq_some hn, by simpa using List.find?_some hn⟩
    external_iff := by
      intro n hn
      obtain ⟨id, -, rfl⟩ := mem_nodes_iff.mp hn
      rw [isExternal_nodeOf, scriptId_nodeOf]
      simp only [sortScripts, List.mem_mergeSort]
    external := by
      intro n hn hexternal
      obtain ⟨id, hid, rfl⟩ := mem_nodes_iff.mp hn
      obtain ⟨howner, hcount⟩ := owner_of_isExternal hexternal
      have hcallers := callers_ne_nil hid hexternal
      exact ⟨howner, hcount, hcallers, status_of_callers hcallers⟩
    mirrored := by
      intro a b m n hm hn
      refine ⟨?_, mem_callers_build hn⟩
      rw [mem_callees_build hm, mem_callers_build hn, ne_comm]
    others := by
      rintro p n hn q (hq | hq)
      · obtain ⟨hne, hcall⟩ := (mem_callers_build hn).mp hq
        exact ⟨hne, (lt_of_hasCall hcall).1⟩
      · obtain ⟨hne, hcall⟩ := (mem_callees_build hn).mp hq
        exact ⟨hne, (lt_of_hasCall hcall).2⟩
    recursive_iff := fun _ _ hn => isRecursive_build hn
    ends := fun _ he => ends_of_mem_edges he
    ordered := pairwise_nodes
    hooks := by
      intro p n hn
      refine ⟨?_, ?_, filter_edges_build hn⟩
      · obtain ⟨id, -, rfl⟩ := nodes_getElem?_iff.mp hn
        rfl
      · obtain ⟨id, -, rfl⟩ := nodes_getElem?_iff.mp hn
        exact nodup_hooks _ }

end CallGraph

end BehaviorScript
