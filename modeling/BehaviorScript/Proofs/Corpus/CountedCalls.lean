import BehaviorScript.Proofs.Corpus.Roles
import BehaviorScript.Proofs.Profile.Notes

/-!
# Callers that only the evidence knows

A report takes the number of its callers from the evidence, where that
holds one, and the verdict that nothing calls the script from the call
graph, which looks at the corpus alone. The two answers contradict each
other in one situation, `Corpus.CountedByEvidenceAlone`: the evidence
counts calls of a script that nothing in the corpus calls and no hook
runs. There the report always contradicts itself, and nowhere else
(`Corpus.contradiction_iff_countedByEvidenceAlone`).

The step for one script is `Script.orphan_with_callers_iff`. That the
evidence may hold the number that marks a guard makes no case of its own:
a guard has a hook and is no orphan.
-/

namespace BehaviorScript

theorem Evidence.not_isGuard_of_hooks {e : Evidence} (h : e.hooks = []) :
    e.inboundCalls ≠ some knownGuardCalls := by
  intro hmark
  have hhooked : e.hasHook = true := by simp [hasHook, isGuard, hmark]
  exact (hasHook_iff e).mp hhooked h

theorem Profile.noCaller_mem_notes_iff {p : Profile} :
    "no caller or hook reaches this script" ∈ p.classify.notes ↔
      p.relationships.graphStatus = some .orphan := by
  have hnoted : NoteKind.noCaller.Noted p.classify.notes ↔
      "no caller or hook reaches this script" ∈ p.classify.notes :=
    ⟨fun ⟨_, h⟩ => h, fun h => ⟨0, h⟩⟩
  rw [← hnoted, noted_iff]
  exact decide_eq_true_iff

namespace Script

variable {s : Script} {graph : CallGraph} {table : EvidenceTable} {n : CallNode}

theorem unreachable_profile_iff {yielding : List UInt16} {evidence : Evidence}
    {graph : Option CallGraph} :
    (s.profile yielding evidence graph).reachability = .unreachable ↔
      (s.profile yielding evidence graph).relationships.graphStatus = some .orphan
        ∧ (s.profile yielding evidence graph).shape.deadInstructionCount = 0 := by
  simp only [profile]
  by_cases hdead : 0 < s.deadCount
  · simp [hdead, Nat.ne_of_gt hdead]
  · simp [Nat.eq_zero_of_not_pos hdead]

/-- An orphan has callers where the evidence counts some. -/
theorem orphan_with_callers_iff (yielding : List UInt16)
    (hlookup : graph.lookup s.image.id = some n)
    (hhooks : n.hooks = (table.get s.image.id).hooks) :
    (0 < (s.profile yielding (table.get s.image.id) (some graph)).callerCount
      ∧ (s.profile yielding (table.get s.image.id) (some graph)).relationships.graphStatus
        = some .orphan)
      ↔ n.callers = [] ∧ (table.get s.image.id).hooks = []
        ∧ ∃ record count, table.get? s.image.id = some record
          ∧ record.inboundCalls = some count ∧ 0 < count := by
  have hcounted := exists_record_of_callers table yielding hlookup
  have hstatus : (s.profile yielding (table.get s.image.id) (some graph)).relationships.graphStatus
      = some n.status := congrArg (Option.map CallNode.status) hlookup
  rw [hstatus, Option.some_inj, CallNode.status_eq_orphan_iff, hhooks]
  constructor
  · rintro ⟨hpos, hcallers, hunhooked⟩
    obtain ⟨record, hrecord, hcount⟩ := hcounted hcallers hpos
    exact ⟨hcallers, hunhooked, record, _, hrecord, hcount, hpos⟩
  · rintro ⟨hcallers, hunhooked, record, count, hrecord, hcount, hpos⟩
    have hget : table.get s.image.id = record := by
      rw [EvidenceTable.get, hrecord, Option.getD_some]
    have hmark : count ≠ knownGuardCalls := by
      rintro rfl
      exact Evidence.not_isGuard_of_hooks hunhooked (hget ▸ hcount)
    have hknown : (table.get s.image.id).callerCount? = some count :=
      Evidence.callerCount?_eq_some_iff.mpr ⟨hget ▸ hcount, hmark⟩
    have hcallerCount : (s.profile yielding (table.get s.image.id) (some graph)).callerCount
        = count := congrArg (Option.getD · _) hknown
    exact ⟨hcallerCount ▸ hpos, hcallers, hunhooked⟩

end Script

namespace Corpus

variable {c : Corpus}

/-- The evidence counts calls of a script that no other one of the corpus
calls and no hook runs. -/
@[mk_iff]
structure CountedByEvidenceAlone (c : Corpus) (table : EvidenceTable) (id : UInt16) : Prop where
  uncalled : ∀ image ∈ c.images, image.id ≠ id → image.calls id = false
  unhooked : (table.get id).hooks = []
  counted : ∃ record n, table.get? id = some record ∧ record.inboundCalls = some n ∧ 0 < n

theorem callersOf_eq_empty_iff {id : UInt16} :
    c.callersOf id = ∅ ↔ ∀ image ∈ c.images, image.id ≠ id → image.calls id = false := by
  simp only [Finset.eq_empty_iff_forall_notMem, mem_callersOf_iff, calls_iff]
  constructor
  · intro h image himage hne
    exact Bool.eq_false_iff.mpr fun hcalls => h image.id ⟨hne, image, himage, rfl, hcalls⟩
  · rintro h _ ⟨hne, image, himage, rfl, hcalls⟩
    rw [h image himage hne] at hcalls
    cases hcalls

theorem callers_eq_nil_iff {s : Script} (hs : s ∈ c.scripts) {evidence : EvidenceTable}
    {n : CallNode} (hlookup : (c.callGraph evidence).lookup s.image.id = some n) :
    n.callers = [] ↔ ∀ image ∈ c.images, image.id ≠ s.image.id → image.calls s.image.id = false := by
  have hcard : (c.callGraph evidence).callerCount s.image.id = (c.callersOf s.image.id).card :=
    CallGraph.callerCount_build (id_mem_nodeIds_calls (ofImage_of_mem_scripts hs).1)
      fun _ => mem_callersOf_iff
  rw [CallGraph.callerCount, hlookup, Option.map_some, Option.getD_some] at hcard
  rw [← callersOf_eq_empty_iff, ← Finset.card_eq_zero, ← hcard, List.length_eq_zero_iff]

theorem inCorpus_mem_reports {image : Image} {s : Script} (evidence : EvidenceTable)
    (options : Options) (himage : image ∈ c.images) (hs : Script.ofImage image = .ok s) :
    (s.report options (evidence.get image.id) none).inCorpus (c.callersOf image.id).card
        (evidence.get image.id) ∈ (c.analyze evidence options).reports := by
  have hscript : s ∈ c.scripts := List.mem_filterMap.mpr ⟨image, himage, by rw [hs]; rfl⟩
  rw [← report_of_image evidence options himage hs, (reports_perm c evidence options).mem_iff]
  exact List.mem_map.mpr ⟨s, hscript, rfl⟩

/-- A report speaks of callers and denies them exactly where the evidence
alone counts some. -/
theorem contradiction_iff_countedByEvidenceAlone (c : Corpus) (table : EvidenceTable)
    (options : Options) :
    ∀ r ∈ (c.analyze table options).reports,
      (0 < r.profile.relationships.inboundCalls
          ∧ "no caller or hook reaches this script" ∈ r.classification.notes
        ↔ c.CountedByEvidenceAlone table r.id)
      ∧ (0 < r.profile.relationships.inboundCalls ∧ r.profile.reachability = .unreachable
        ↔ c.CountedByEvidenceAlone table r.id ∧ r.profile.shape.deadInstructionCount = 0) := by
  intro r hr
  obtain ⟨s, hs, rfl⟩ := mem_reports hr
  obtain ⟨n, hlookup, hhooks⟩ := exists_node hs table
  have horphan := Script.orphan_with_callers_iff Primitive.yieldOpcodes hlookup hhooks
  rw [callers_eq_nil_iff hs hlookup, ← countedByEvidenceAlone_iff] at horphan
  refine ⟨(and_congr_right fun _ => Profile.noCaller_mem_notes_iff).trans horphan, ?_⟩
  exact (and_congr_right fun _ => Script.unreachable_profile_iff).trans
    (and_assoc.symm.trans (and_congr_left fun _ => horphan))

/-- A lamp that calls a door. -/
def lampCallsDoor : Corpus :=
  ⟨[⟨0x1000, "lamp", 0, 0, 1, [0x01, 0x10, 254, 255, 0, 0, 0, 0, 0, 0, 0, 0]⟩,
    ⟨0x1001, "door", 0, 0, 1, [0x00, 0x00, 255, 253, 0, 0, 0, 0, 0, 0, 0, 0]⟩], []⟩

/-- Two calls of each. -/
def twoCallsEach : EvidenceTable :=
  (IdMap.empty.insert 0x1000 ⟨none, none, some 2, false, none⟩).insert 0x1001
    ⟨none, none, some 2, false, none⟩

theorem contradiction_iff_countedByEvidenceAlone_lampCallsDoor :
    ∃ lamp door, lamp ∈ (lampCallsDoor.analyze twoCallsEach Options.default).reports
      ∧ door ∈ (lampCallsDoor.analyze twoCallsEach Options.default).reports
      ∧ lamp.id = 0x1000 ∧ lampCallsDoor.CountedByEvidenceAlone twoCallsEach lamp.id
      ∧ door.id = 0x1001 ∧ ¬lampCallsDoor.CountedByEvidenceAlone twoCallsEach door.id
      ∧ 0 < door.profile.relationships.inboundCalls := by
  obtain ⟨lamp, hlamp⟩ : ∃ s, Script.ofImage lampCallsDoor.images[0] = .ok s := ⟨_, rfl⟩
  obtain ⟨door, hdoor⟩ : ∃ s, Script.ofImage lampCallsDoor.images[1] = .ok s := ⟨_, rfl⟩
  have hlampReport := inCorpus_mem_reports twoCallsEach Options.default (List.getElem_mem _) hlamp
  have hdoorReport := inCorpus_mem_reports twoCallsEach Options.default (List.getElem_mem _) hdoor
  have hlampIff := (contradiction_iff_countedByEvidenceAlone _ _ _ _ hlampReport).1
  have hdoorIff := (contradiction_iff_countedByEvidenceAlone _ _ _ _ hdoorReport).1
  refine ⟨_, _, hlampReport, hdoorReport, ?_⟩
  cases hlamp
  cases hdoor
  refine ⟨rfl, hlampIff.mp (by decide +kernel), rfl, fun h => ?_, by decide⟩
  exact absurd (hdoorIff.mpr h) (by decide +kernel)

/-- The report on the lamp counts two callers and says that there are none. -/
theorem lamp_contradicts_itself :
    ∃ r ∈ (lampCallsDoor.analyze twoCallsEach Options.default).reports,
      0 < r.profile.relationships.inboundCalls ∧ r.profile.reachability = .unreachable
        ∧ "no caller or hook reaches this script" ∈ r.classification.notes := by
  obtain ⟨lamp, hlamp⟩ : ∃ s, Script.ofImage lampCallsDoor.images[0] = .ok s := ⟨_, rfl⟩
  refine ⟨_, inCorpus_mem_reports _ _ (List.getElem_mem _) hlamp, ?_⟩
  cases hlamp
  decide +kernel

end Corpus

end BehaviorScript
