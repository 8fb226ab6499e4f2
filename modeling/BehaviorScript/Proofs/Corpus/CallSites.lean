import BehaviorScript.Proofs.CallGraph.CallSites
import BehaviorScript.Proofs.Code.Operands
import BehaviorScript.Proofs.Corpus.Conservation

/-!
# Calls are conserved

A call is counted three times on its way: as an instruction by the
profile, as one more site of its target by the tally, and as part of an
edge by the graph. `Script.ConservesCalls` says that the three agree.
Nothing distinguishes a recursive call or one that leaves the corpus here;
only among the callees of a node is the node itself left out.
-/

namespace BehaviorScript

/-- The calls are the instructions that name a target. -/
theorem Instruction.isSome_callTarget?_iff {i : Instruction} :
    i.callTarget?.isSome = true ↔ i.opcode = Primitive.gosubOpcode ∨ 0x0100 ≤ i.opcode := by
  rw [callTarget?, operand, Operand.decode, Operand.schemaOf_eq]
  simp only [Operand.isCallOpcode_iff, Primitive.gosubOpcode]
  split_ifs with hcall hgosub hexpression
  · simp [hcall]
  · simp [hgosub]
  · simp [hcall, hgosub]
  · simp [hcall, hgosub]

namespace IdMap

theorem toFinset_keys_tally (ids : List UInt16) : (tally ids).keys.toFinset = ids.toFinset := by
  ext id
  rw [List.mem_toFinset, mem_keys_tally, List.mem_toFinset]

theorem total_tally (ids : List UInt16) : total (tally ids).entries = ids.length := by
  rw [entries_tally]
  exact total_count (nodup_keys _) fun _ hid => mem_keys_tally.mpr hid

end IdMap

namespace Script

/-- The ids that some instruction calls. -/
def callTargets (s : Script) : Finset UInt16 := (s.code.filterMap Instruction.callTarget?).toFinset

/-- Every call site of `s` is behind one of the edges that leave `place`,
and the profile `p` counts as many. -/
structure ConservesCalls (s : Script) (g : CallGraph) (place : Nat) (p : Profile) : Prop where
  distinct : ((g.outgoing place).map CallEdge.callee).Nodup
  targets : ∀ id, (∃ e ∈ g.outgoing place, g.idAt? e.callee = some id) ↔ id ∈ s.callTargets
  length : (g.outgoing place).length = s.callTargets.card
  sites : ∀ e ∈ g.outgoing place, ∃ id, g.idAt? e.callee = some id
    ∧ e.sites = s.code.countP fun i => i.callTarget? = some id
  sum : total ((g.outgoing place).map fun e => (e.callee, e.sites))
    = s.code.countP fun i => i.opcode = Primitive.gosubOpcode ∨ 0x0100 ≤ i.opcode
  outbound : p.relationships.outboundCalls
    = total ((g.outgoing place).map fun e => (e.callee, e.sites))
  /-- Recursion makes no callee. -/
  callees : g.calleeCount s.image.id = (s.callTargets.erase s.image.id).card

/-- What holds of the calls that the graph of `scripts` was given. -/
theorem conservesCalls {s : Script} {scripts : List ScriptCalls} {calls : ScriptCalls}
    {p : Profile} (evidence : EvidenceTable) (hids : (scripts.map ScriptCalls.id).Nodup)
    (hcalls : calls ∈ scripts) (hid : calls.id = s.image.id)
    (hcallees : calls.callees = IdMap.tally (s.code.filterMap Instruction.callTarget?))
    (hp : p.relationships.outboundCalls = s.outboundCalls) :
    s.ConservesCalls (CallGraph.build scripts evidence)
      ((CallGraph.nodeIds (CallGraph.sortScripts scripts)).idxOf calls.id) p := by
  have hkeys : calls.callees.keys.toFinset = s.callTargets := by
    rw [hcallees]
    exact IdMap.toFinset_keys_tally _
  have htotal : total (((CallGraph.build scripts evidence).outgoing
      ((CallGraph.nodeIds (CallGraph.sortScripts scripts)).idxOf calls.id)).map
        fun e => (e.callee, e.sites)) = s.outboundCalls := by
    rw [CallGraph.outgoing_build hids hcalls, List.map_map, hcallees]
    calc
      _ = total (IdMap.tally (s.code.filterMap Instruction.callTarget?)).entries :=
        total_map (fun id => (CallGraph.nodeIds (CallGraph.sortScripts scripts)).idxOf id) _
      _ = (s.code.filterMap Instruction.callTarget?).length := IdMap.total_tally _
      _ = s.outboundCalls := List.length_filterMap_eq_countP
  refine ⟨CallGraph.nodup_callee_outgoing hids hcalls, fun id => ?_, ?_, fun e he => ?_, ?_, ?_, ?_⟩
  · rw [CallGraph.exists_outgoing_iff hids hcalls, ← hkeys, List.mem_toFinset]
  · rw [CallGraph.outgoing_build hids hcalls, List.length_map, ← hkeys,
      List.toFinset_card_of_nodup calls.callees.nodup_keys, IdMap.keys, List.length_map]
  · obtain ⟨id, hcallee, hsites⟩ := CallGraph.sites_of_mem_outgoing hids hcalls he
    rw [hcallees, IdMap.get?_tally, Option.ite_none_right_eq_some, Option.some_inj,
      List.count_filterMap] at hsites
    exact ⟨id, hcallee, hsites.2.symm.trans (List.countP_congr fun i _ => by simp)⟩
  · rw [htotal]
    exact List.countP_congr fun i _ => by
      rw [Instruction.isSome_callTarget?_iff, decide_eq_true_eq]
  · rw [hp, htotal]
  · rw [← hid, ← hkeys]
    exact CallGraph.calleeCount_build hids hcalls

end Script

namespace Corpus

variable {c : Corpus}

theorem callees_callsOf {s : Script} (hs : Script.ofImage s.image = .ok s) :
    (callsOf s.image).callees = IdMap.tally (s.code.filterMap Instruction.callTarget?) := by
  rw [callsOf, Script.decode_ofImage hs]
  rfl

theorem report_unique (hids : c.ids.Nodup) (evidence : EvidenceTable) (options : Options)
    {s : Script} (hs : s ∈ c.scripts) (r : Report) :
    r ∈ (c.analyze evidence options).reports ∧ r.id = s.image.id ↔
      r = s.report options (evidence.get s.image.id) (some (c.callGraph evidence)) := by
  constructor
  · rintro ⟨hr, hid⟩
    obtain ⟨s', hs', rfl⟩ := mem_reports hr
    obtain rfl : s' = s := List.inj_on_of_nodup_map (nodup_ids_scripts hids) hs' hs hid
    rfl
  · rintro rfl
    exact ⟨(reports_perm c evidence options).mem_iff.mpr (List.mem_map.mpr ⟨s, hs, rfl⟩), rfl⟩

/-- Where no two scripts share an id, every call of a script that decodes
is in the graph once. -/
theorem calls_conserved (hids : c.ids.Nodup) (evidence : EvidenceTable) (options : Options)
    {s : Script} (hs : s ∈ c.scripts) :
    ∃ place r, (c.analyze evidence options).graph.place? s.image.id = some place
      ∧ (∀ r', r' ∈ (c.analyze evidence options).reports ∧ r'.id = s.image.id ↔ r' = r)
      ∧ s.ConservesCalls (c.analyze evidence options).graph place r.profile := by
  obtain ⟨himage, hscript⟩ := ofImage_of_mem_scripts hs
  have hcalls : callsOf s.image ∈ c.calls :=
    List.mem_append_left _ (List.mem_map.mpr ⟨_, himage, rfl⟩)
  have hnodup : (c.calls.map ScriptCalls.id).Nodup := by rwa [map_id_calls]
  refine ⟨_, _, CallGraph.place?_build (CallGraph.getElem?_idxOf (id_mem_nodeIds_calls himage)),
    report_unique hids evidence options hs, ?_⟩
  rw [← id_callsOf s.image]
  exact Script.conservesCalls evidence hnodup hcalls (id_callsOf _) (callees_callsOf hscript) rfl

/-- A lamp that calls a door twice, itself, and a script that is not
there; the code of the door cannot be read. -/
def lampAndBrokenDoor : Corpus :=
  ⟨[⟨0x1000, "lamp", 0, 0, 5, [0x01, 0x10, 1, 255, 0, 0, 0, 0, 0, 0, 0, 0,
      0x1C, 0x00, 2, 255, 0x01, 0x10, 0, 0, 0, 0, 0, 0,
      0x00, 0x10, 3, 255, 0, 0, 0, 0, 0, 0, 0, 0,
      0x00, 0x20, 4, 255, 0, 0, 0, 0, 0, 0, 0, 0,
      0x00, 0x00, 255, 253, 0, 0, 0, 0, 0, 0, 0, 0]⟩], [⟨0x1001, "door", "no hex"⟩]⟩

theorem calls_conserved_lampAndBrokenDoor :
    lampAndBrokenDoor.ids.Nodup ∧ ∃ lamp ∈ lampAndBrokenDoor.scripts,
      lamp.callTargets.card = 3 ∧ (lamp.callTargets.erase lamp.image.id).card = 2
        ∧ ∃ place r, (lampAndBrokenDoor.analyze IdMap.empty Options.default).graph.place? 0x1000
            = some place
          ∧ r ∈ (lampAndBrokenDoor.analyze IdMap.empty Options.default).reports
          ∧ lamp.ConservesCalls (lampAndBrokenDoor.analyze IdMap.empty Options.default).graph place
            r.profile
          ∧ r.profile.relationships.outboundCalls = 4 := by
  have hids : lampAndBrokenDoor.ids.Nodup := by decide
  obtain ⟨lamp, hlamp⟩ : ∃ s, Script.ofImage lampAndBrokenDoor.images[0] = .ok s := ⟨_, rfl⟩
  have hscript : lamp ∈ lampAndBrokenDoor.scripts :=
    List.mem_filterMap.mpr ⟨_, List.getElem_mem _, by rw [hlamp]; rfl⟩
  obtain ⟨place, r, hplace, hreport, hconserved⟩ :=
    calls_conserved hids IdMap.empty Options.default hscript
  have houtbound := hconserved.outbound.trans hconserved.sum
  refine ⟨hids, lamp, hscript, ?_, ?_, place, r, ?_, ((hreport r).mpr rfl).1, hconserved, ?_⟩
  · cases hlamp
    decide +kernel
  · cases hlamp
    decide +kernel
  · cases hlamp
    exact hplace
  · rw [houtbound]
    cases hlamp
    decide +kernel

end Corpus

end BehaviorScript
