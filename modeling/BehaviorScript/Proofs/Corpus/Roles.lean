import BehaviorScript.Proofs.Corpus.Conservation
import BehaviorScript.Proofs.Profile.Rules

/-!
# Roles go with hooks

That a hook runs a script is said four times: by the hooks of its node, by
the part that the node plays, by the evidence, and by the profile that the
rules look at. `Script.respectsHooks_report` is the step for one script whose
node is known; there the four agree, also on the number of inbound calls
that marks a guard and is no count of callers. The graph of a corpus has
such a node for every script (`exists_node`).

An orphan has no callers in the graph. So a rule that asks for some can
match it only by a count that the evidence holds.
-/

namespace BehaviorScript

/-! ## Hooks -/

theorem CallNode.status_eq_entry_iff {n : CallNode} :
    n.status = .entry ↔ n.callers = [] ∧ n.hooks ≠ [] := by
  by_cases hcallers : n.callers = []
  · simp [status, hcallers]
  · simp [(CallGraph.status_of_callers hcallers).1, hcallers]

theorem CallNode.status_eq_orphan_iff {n : CallNode} :
    n.status = .orphan ↔ n.callers = [] ∧ n.hooks = [] := by
  by_cases hcallers : n.callers = []
  · simp [status, hcallers]
  · simp [(CallGraph.status_of_callers hcallers).2, hcallers]

theorem Evidence.hasHook_iff (e : Evidence) : e.hasHook = true ↔ e.hooks ≠ [] := by
  rw [← List.isEmpty_eq_false_iff, CallGraph.hooks_isEmpty, Bool.not_eq_false']

theorem Evidence.callerCount?_eq_some_iff {e : Evidence} {n : Nat} :
    e.callerCount? = some n ↔ e.inboundCalls = some n ∧ n ≠ knownGuardCalls := by
  rw [callerCount?, Option.filter_eq_some_iff, decide_eq_true_eq]

/-- The record of a script holds a number of calls only if it is listed. -/
theorem EvidenceTable.exists_record {table : EvidenceTable} {id : UInt16} {n : Nat}
    (h : (table.get id).inboundCalls = some n) :
    ∃ record, table.get? id = some record ∧ record.inboundCalls = some n := by
  unfold EvidenceTable.get at h
  cases hrecord : table.get? id with
  | none =>
      rw [hrecord] at h
      cases h
  | some record =>
      rw [hrecord] at h
      exact ⟨record, rfl, h⟩

/-! ## Reports -/

/-- The role of a report goes with the node of its script. -/
structure Report.RespectsHooks (graph : CallGraph) (table : EvidenceTable) (r : Report) : Prop where
  node : ∃ n, graph.lookup r.id = some n ∧ r.profile.relationships.graphStatus = some n.status
    ∧ (r.profile.relationships.isEntryPoint = true ↔ n.hooks ≠ [])
  entry : r.profile.relationships.graphStatus = some .entry →
    r.classification.role ≠ .utility
      ∧ RoleRule.callSequence.isMatch r.profile = false
      ∧ r.classification.matchedRule ≠ RoleRule.callSequence.name
  orphan : r.profile.relationships.graphStatus = some .orphan →
    r.classification.role ≠ .role ∧ r.classification.role ≠ .action
      ∧ (r.classification.role = .flow
        ∨ ∃ record n, table.get? r.id = some record ∧ record.inboundCalls = some n ∧ 3 ≤ n)

namespace Script

variable {s : Script} {graph : CallGraph} {table : EvidenceTable} {n : CallNode}

/-- A script that no other one calls has the callers that the evidence
counts. -/
theorem exists_record_of_callers (table : EvidenceTable) (yielding : List UInt16)
    (hlookup : graph.lookup s.image.id = some n) (hcallers : n.callers = [])
    (hpos : 0 < (s.profile yielding (table.get s.image.id) (some graph)).callerCount) :
    ∃ record, table.get? s.image.id = some record ∧ record.inboundCalls
      = some (s.profile yielding (table.get s.image.id) (some graph)).callerCount := by
  have hgraph : graph.callerCount s.image.id = 0 := by
    rw [CallGraph.callerCount, hlookup, Option.map_some, Option.getD_some, hcallers,
      List.length_nil]
  have hcount : (s.profile yielding (table.get s.image.id) (some graph)).callerCount
      = (table.get s.image.id).callerCount?.getD (graph.callerCount s.image.id) := rfl
  rw [hgraph] at hcount
  cases hknown : (table.get s.image.id).callerCount? with
  | none =>
      rw [hknown, Option.getD_none] at hcount
      omega
  | some count =>
      rw [hknown, Option.getD_some] at hcount
      rw [hcount]
      exact EvidenceTable.exists_record (Evidence.callerCount?_eq_some_iff.mp hknown).1

theorem respectsHooks_report (options : Options) (hlookup : graph.lookup s.image.id = some n)
    (hhooks : n.hooks = (table.get s.image.id).hooks) :
    (s.report options (table.get s.image.id) (some graph)).RespectsHooks graph table := by
  have hcounted := exists_record_of_callers table Primitive.yieldOpcodes hlookup
  obtain ⟨p, hp⟩ : ∃ p, s.profile Primitive.yieldOpcodes (table.get s.image.id) (some graph) = p :=
    ⟨_, rfl⟩
  have hstatus : p.relationships.graphStatus = some n.status := by
    rw [← hp]
    exact congrArg (Option.map CallNode.status) hlookup
  have hpoint : p.isEntryPoint = true ↔ n.hooks ≠ [] := by
    rw [← hp, hhooks]
    exact Evidence.hasHook_iff _
  rw [hp] at hcounted
  rw [report, hp]
  refine ⟨⟨n, hlookup, hstatus, hpoint⟩, fun hentry => ?_, fun horphan => ?_⟩
  · rw [hstatus, Option.some_inj, CallNode.status_eq_entry_iff] at hentry
    have hhooked := hpoint.mpr hentry.2
    exact ⟨Profile.role_ne_utility_of_isEntryPoint hhooked,
      Profile.not_callSequence_of_isEntryPoint hhooked,
      Profile.matchedRule_ne_callSequence_of_isEntryPoint hhooked⟩
  · rw [hstatus, Option.some_inj, CallNode.status_eq_orphan_iff] at horphan
    have hfree : p.isEntryPoint = false :=
      Bool.eq_false_iff.mpr fun hhooked => hpoint.mp hhooked horphan.2
    obtain ⟨hrole, haction, hflow⟩ := Profile.role_of_not_isEntryPoint hfree
    refine ⟨hrole, haction, hflow.imp_right fun hcallers => ?_⟩
    obtain ⟨record, hrecord, hcount⟩ := hcounted horphan.1 (by omega)
    exact ⟨record, p.callerCount, hrecord, hcount, hcallers⟩

end Script

namespace Corpus

variable {c : Corpus}

theorem exists_node {s : Script} (hs : s ∈ c.scripts) (evidence : EvidenceTable) :
    ∃ n, (c.callGraph evidence).lookup s.image.id = some n
      ∧ n.hooks = (evidence.get s.image.id).hooks := by
  obtain ⟨himage, -⟩ := ofImage_of_mem_scripts hs
  exact ⟨_, CallGraph.lookup_build (id_mem_nodeIds_calls himage), CallGraph.hooks_nodeOf _⟩

/-- In every corpus and with any evidence, roles go with the hooks. -/
theorem reports_respectHooks (c : Corpus) (evidence : EvidenceTable) (options : Options) :
    ∀ r ∈ (c.analyze evidence options).reports,
      r.RespectsHooks (c.analyze evidence options).graph evidence := by
  intro r hr
  obtain ⟨s, hs, rfl⟩ := mem_reports hr
  obtain ⟨n, hlookup, hhooks⟩ := exists_node hs evidence
  exact Script.respectsHooks_report options hlookup hhooks

/-- Two scripts that no other one calls; the second one calls itself. -/
def lampAndDoor : Corpus :=
  ⟨[⟨0x1000, "lamp", 0, 0, 1, [0x02, 0x00, 254, 255, 0, 0, 0, 0, 0, 0, 0, 0]⟩,
    ⟨0x1001, "door", 0, 0, 1, [0x01, 0x10, 254, 255, 0, 0, 0, 0, 0, 0, 0, 0]⟩], []⟩

/-- The number of calls marks the lamp as a guard, and counts the calls of
the door. -/
def guardAndCount : EvidenceTable :=
  (IdMap.empty.insert 0x1000 ⟨none, none, some knownGuardCalls, false, none⟩).insert 0x1001
    ⟨none, none, some 4, false, none⟩

theorem reports_respectHooks_lampAndDoor :
    ∃ lamp door, lamp ∈ (lampAndDoor.analyze guardAndCount Options.default).reports
      ∧ door ∈ (lampAndDoor.analyze guardAndCount Options.default).reports
      ∧ lamp.RespectsHooks (lampAndDoor.analyze guardAndCount Options.default).graph guardAndCount
      ∧ door.RespectsHooks (lampAndDoor.analyze guardAndCount Options.default).graph guardAndCount
      ∧ lamp.profile.relationships.graphStatus = some .entry
      ∧ door.profile.relationships.graphStatus = some .orphan
      ∧ lamp.classification.role = .guard ∧ door.classification.role = .guard := by
  obtain ⟨lamp, hlamp⟩ : ∃ s, Script.ofImage lampAndDoor.images[0] = .ok s := ⟨_, rfl⟩
  obtain ⟨door, hdoor⟩ : ∃ s, Script.ofImage lampAndDoor.images[1] = .ok s := ⟨_, rfl⟩
  have hreports : ∀ s ∈ [lamp, door], s.report Options.default (guardAndCount.get s.image.id)
      (some (lampAndDoor.callGraph guardAndCount))
        ∈ (lampAndDoor.analyze guardAndCount Options.default).reports := by
    have hscripts : lampAndDoor.scripts = [lamp, door] := by
      cases hlamp
      cases hdoor
      rfl
    intro s hs
    refine (reports_perm _ _ _).mem_iff.mpr (List.mem_map.mpr ⟨s, ?_, rfl⟩)
    exact hscripts ▸ hs
  have hinLamp := hreports lamp (by simp)
  have hinDoor := hreports door (by simp)
  refine ⟨_, _, hinLamp, hinDoor, reports_respectHooks _ _ _ _ hinLamp,
    reports_respectHooks _ _ _ _ hinDoor, ?_⟩
  -- the graph sorts its scripts; the callers alone can be counted here
  rw [report_of_image _ _ (List.getElem_mem _) hlamp,
    report_of_image _ _ (List.getElem_mem _) hdoor]
  cases hlamp
  cases hdoor
  decide +kernel

end Corpus

end BehaviorScript
