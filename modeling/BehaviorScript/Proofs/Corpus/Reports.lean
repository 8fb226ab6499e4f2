import BehaviorScript.Corpus.Basic
import BehaviorScript.Proofs.CallGraph.Callers

/-!
# Reports in a corpus

A script is reported on alone by `analyze`, and together with all others
by `Corpus.analyze`. The two reports are tied together here. What the
corpus adds is a function of one number, the count of the other scripts
that call the script (`Corpus.callersOf`):

- `Report.inCorpus` says what that number and the evidence change in a
  report;
- `report_eq_inCorpus` is the step for one script: with the graph's
  answers given, the report with a graph is the one without, changed so;
- `Corpus.mem_callersOf_iff` ties the callers that the graph counts to
  the images, and `Corpus.reports_eq_alone_inCorpus` puts the reports of a
  corpus together.

Ids may repeat, and evidence may name any id: a report looks up both by
the id of its own image.
-/

namespace BehaviorScript

/-! ## What a corpus adds to a report -/

/-- The report of a script that `callers` other scripts call. Evidence on
the callers outranks their count, unless it marks a guard. -/
def Report.inCorpus (callers : Nat) (evidence : Evidence) (alone : Report) : Report :=
  let status := CallGraph.statusOf callers evidence.hasHook
  let profile : Profile :=
    { alone.profile with
      relationships :=
        { alone.profile.relationships with
          inboundCalls := match evidence.inboundCalls with
            | some n => if n = 999 then callers else n
            | none => callers
          graphStatus := some status }
      reachability :=
        if alone.profile.reachability = .fullyReachable ∧ status = .orphan then .unreachable
        else alone.profile.reachability }
  { alone with profile, classification := profile.classify }

theorem callerCount?_getD (evidence : Evidence) (callers : Nat) :
    evidence.callerCount?.getD callers = match evidence.inboundCalls with
      | some n => if n = 999 then callers else n
      | none => callers := by
  unfold Evidence.callerCount?
  cases evidence.inboundCalls with
  | none => rfl
  | some n => by_cases h : n = 999 <;> simp [h, knownGuardCalls, Option.filter]

section

variable {s : Script} {evidence : Evidence} {graph : CallGraph} {callers : Nat}

/-- Of the three verdicts only the best one depends on the graph. -/
theorem reachability_profile {yielding : List UInt16} {status : NodeStatus}
    (hstatus : graph.statusOf? s.image.id = some status) :
    (s.profile yielding evidence (some graph)).reachability
      = if (s.profile yielding evidence none).reachability = .fullyReachable ∧ status = .orphan
        then .unreachable else (s.profile yielding evidence none).reachability := by
  simp only [Script.profile, Option.bind_some, Option.bind_none, hstatus]
  by_cases hdead : 0 < s.deadCount <;> by_cases horphan : status = .orphan <;>
    simp [hdead, horphan]

theorem relationships_profile {yielding : List UInt16} {status : NodeStatus}
    (hcount : graph.callerCount s.image.id = callers)
    (hstatus : graph.statusOf? s.image.id = some status) :
    (s.profile yielding evidence (some graph)).relationships
      = { (s.profile yielding evidence none).relationships with
          inboundCalls := match evidence.inboundCalls with
            | some n => if n = 999 then callers else n
            | none => callers
          graphStatus := some status } := by
  simp only [Script.profile, Option.bind_some, Option.map_some, Option.getD_some, hcount, hstatus,
    callerCount?_getD]

theorem report_eq_inCorpus (options : Options)
    (hcount : graph.callerCount s.image.id = callers)
    (hstatus : graph.statusOf? s.image.id = some (CallGraph.statusOf callers evidence.hasHook)) :
    s.report options evidence (some graph)
      = (s.report options evidence none).inCorpus callers evidence := by
  have hprofile : s.profile Primitive.yieldOpcodes evidence (some graph)
      = ((s.report options evidence none).inCorpus callers evidence).profile := by
    -- no other part of a profile looks at the graph
    calc s.profile Primitive.yieldOpcodes evidence (some graph)
      _ = { s.profile Primitive.yieldOpcodes evidence none with
            relationships := (s.profile Primitive.yieldOpcodes evidence (some graph)).relationships
            reachability := (s.profile Primitive.yieldOpcodes evidence (some graph)).reachability
          } := rfl
      _ = _ := by
        rw [relationships_profile hcount hstatus, reachability_profile hstatus]
        rfl
  rw [Script.report, hprofile]
  rfl

end

/-! ## Who calls whom in a corpus -/

/-- Some instruction of the image, dead or not, calls `id`. An image that
does not decode calls nothing. -/
def Image.calls (image : Image) (id : UInt16) : Bool :=
  match image.decode with
  | .ok decoded => decoded.code.any fun i => i.callTarget? = some id
  | .error _ => false

namespace Corpus

variable {c : Corpus}

/-- The other ids whose images call `id`. -/
def callersOf (c : Corpus) (id : UInt16) : Finset UInt16 :=
  ((c.images.filter fun image => image.calls id).map Image.id).toFinset.erase id

theorem id_callsOf (image : Image) : (callsOf image).id = image.id := by
  unfold callsOf
  cases image.decode <;> rfl

theorem mem_callees_callsOf {image : Image} {id : UInt16} :
    id ∈ (callsOf image).callees.keys ↔ image.calls id := by
  unfold callsOf Image.calls
  cases image.decode with
  | ok decoded =>
      simp only [ScriptCalls.ofCode, IdMap.mem_keys_tally, List.mem_filterMap, List.any_eq_true,
        decide_eq_true_eq]
  | error e => simp [ScriptCalls.withoutCode, IdMap.keys, IdMap.empty]

/-- A rejected script is a node of the graph, but calls nothing. -/
theorem calls_iff {caller id : UInt16} :
    CallGraph.Calls c.calls caller id ↔
      ∃ image ∈ c.images, image.id = caller ∧ image.calls id := by
  constructor
  · rintro ⟨s, hs, hcaller, hid⟩
    rcases List.mem_append.mp hs with hs | hs
    · obtain ⟨image, himage, rfl⟩ := List.mem_map.mp hs
      exact ⟨image, himage, (id_callsOf image).symm.trans hcaller, mem_callees_callsOf.mp hid⟩
    · obtain ⟨f, -, rfl⟩ := List.mem_map.mp hs
      simp [ScriptCalls.withoutCode, IdMap.keys, IdMap.empty] at hid
  · rintro ⟨image, himage, hcaller, hcalls⟩
    exact ⟨callsOf image, List.mem_append_left _ (List.mem_map.mpr ⟨image, himage, rfl⟩),
      (id_callsOf image).trans hcaller, mem_callees_callsOf.mpr hcalls⟩

theorem mem_callersOf_iff {caller id : UInt16} :
    caller ∈ c.callersOf id ↔ caller ≠ id ∧ CallGraph.Calls c.calls caller id := by
  simp only [callersOf, Finset.mem_erase, List.mem_toFinset, List.mem_map, List.mem_filter,
    calls_iff]
  refine and_congr_right fun _ => ?_
  constructor
  · rintro ⟨image, ⟨himage, hcalls⟩, hid⟩
    exact ⟨image, himage, hid, hcalls⟩
  · rintro ⟨image, himage, hid, hcalls⟩
    exact ⟨image, ⟨himage, hcalls⟩, hid⟩

/-- Every image has a node, whether or not it decodes. -/
theorem id_mem_nodeIds_calls {image : Image} (himage : image ∈ c.images) :
    image.id ∈ CallGraph.nodeIds (CallGraph.sortScripts c.calls) :=
  CallGraph.id_mem_nodeIds ⟨callsOf image,
    List.mem_append_left _ (List.mem_map.mpr ⟨_, himage, rfl⟩), id_callsOf _⟩

/-! ## The reports -/

theorem image_ofImage {image : Image} {s : Script} (h : Script.ofImage image = .ok s) :
    s.image = image := by
  unfold Script.ofImage at h
  split at h
  · cases h
    rfl
  · cases h

/-- Only the declared count decides whether an image gets a report. -/
theorem exists_ofImage {image : Image} (h : image.instructionCount ≤ 253) :
    ∃ s, Script.ofImage image = .ok s := by
  have hcount : ¬ maxInstructions < image.instructionCount := Nat.not_lt.mpr h
  simp only [Script.ofImage, Image.decode, decode, if_neg hcount]
  exact ⟨_, rfl⟩

/-- What the corpus says of one of its scripts. -/
theorem report_of_image {image : Image} {s : Script} (evidence : EvidenceTable)
    (options : Options) (himage : image ∈ c.images) (hs : Script.ofImage image = .ok s) :
    s.report options (evidence.get s.image.id) (some (c.callGraph evidence))
      = (s.report options (evidence.get image.id) none).inCorpus
        (c.callersOf image.id).card (evidence.get image.id) := by
  obtain rfl := image_ofImage hs
  have hnode := id_mem_nodeIds_calls himage
  have hcallers : ∀ caller, caller ∈ c.callersOf s.image.id ↔
      caller ≠ s.image.id ∧ CallGraph.Calls c.calls caller s.image.id := fun _ => mem_callersOf_iff
  exact report_eq_inCorpus options (CallGraph.callerCount_build hnode hcallers)
    (CallGraph.statusOf?_build hnode hcallers)

/-- Image by image, the corpus reports what each image alone does. -/
theorem map_report_scripts (c : Corpus) (evidence : EvidenceTable) (options : Options) :
    c.scripts.map (fun s =>
        s.report options (evidence.get s.image.id) (some (c.callGraph evidence)))
      = c.images.filterMap fun image =>
          (BehaviorScript.analyze image (evidence.get image.id) options).toOption.map
            (Report.inCorpus (c.callersOf image.id).card (evidence.get image.id)) := by
  rw [scripts, List.map_filterMap]
  refine List.filterMap_congr fun image himage => ?_
  cases hs : Script.ofImage image with
  | ok s =>
      simp only [BehaviorScript.analyze, hs, Except.toOption, Option.map_some,
        report_of_image evidence options himage hs]
  | error e => simp only [BehaviorScript.analyze, hs, Except.toOption, Option.map_none]

/-- Every image that declares at most 253 instructions has a report in the
corpus, which is its report alone changed by nothing but the number of
its callers; and these reports, in the order of their ids, are all there
are. -/
theorem reports_eq_alone_inCorpus (c : Corpus) (evidence : EvidenceTable) (options : Options) :
    (∀ image ∈ c.images, image.instructionCount ≤ 253 →
      ∃ alone, BehaviorScript.analyze image (evidence.get image.id) options = .ok alone
        ∧ alone.inCorpus (c.callersOf image.id).card (evidence.get image.id)
            ∈ (c.analyze evidence options).reports)
    ∧ (c.analyze evidence options).reports
        = (c.images.filterMap fun image =>
            (BehaviorScript.analyze image (evidence.get image.id) options).toOption.map
              (Report.inCorpus (c.callersOf image.id).card (evidence.get image.id))).mergeSort
          fun a b => a.id ≤ b.id := by
  have hreports := congrArg (List.mergeSort · fun a b : Report => a.id ≤ b.id)
    (map_report_scripts c evidence options)
  refine ⟨fun image himage hcount => ?_, hreports⟩
  obtain ⟨s, hs⟩ := exists_ofImage hcount
  have halone : BehaviorScript.analyze image (evidence.get image.id) options
      = .ok (s.report options (evidence.get image.id) none) := by
    rw [BehaviorScript.analyze, hs]
  refine ⟨_, halone, ?_⟩
  rw [analyze, List.mem_mergeSort, map_report_scripts]
  exact List.mem_filterMap.mpr ⟨image, himage, by rw [halone]; rfl⟩

/-- All others call the lamp, and the hall calls the door as well. -/
def sharedLamp : Corpus :=
  ⟨[⟨0x1000, "lamp", 0, 0, 0, []⟩,
    ⟨0x1001, "door", 0, 0, 1, [0x00, 0x10, 254, 255, 0, 0, 0, 0, 0, 0, 0, 0]⟩,
    ⟨0x1002, "hall", 0, 0, 2, [0x00, 0x10, 1, 255, 0, 0, 0, 0, 0, 0, 0, 0,
      0x01, 0x10, 254, 255, 0, 0, 0, 0, 0, 0, 0, 0]⟩,
    ⟨0x1003, "roof", 0, 0, 1, [0x00, 0x10, 254, 255, 0, 0, 0, 0, 0, 0, 0, 0]⟩], []⟩

/-- The lamp is a guard, the door is called from elsewhere, and a hook runs
the roof. -/
def hookedRoof : EvidenceTable :=
  ((IdMap.empty.insert 0x1000 ⟨none, none, some 999, false, none⟩).insert 0x1001
    ⟨none, none, some 5, false, none⟩).insert 0x1003 ⟨some .main, none, none, false, none⟩

theorem reports_eq_alone_inCorpus_sharedLamp :
    (∃ door,
      BehaviorScript.analyze sharedLamp.images[1] (hookedRoof.get 0x1001) Options.default = .ok door
        ∧ door.inCorpus 1 (hookedRoof.get 0x1001)
            ∈ (sharedLamp.analyze hookedRoof Options.default).reports)
    ∧ ((sharedLamp.analyze hookedRoof Options.default).reports.map fun r =>
        (r.id, r.profile.relationships.inboundCalls, r.profile.relationships.graphStatus,
          r.profile.reachability))
      = [(0x1000, 3, some .utility, .fullyReachable), (0x1001, 5, some .internal, .fullyReachable),
        (0x1002, 0, some .orphan, .unreachable), (0x1003, 0, some .entry, .fullyReachable)] := by
  obtain ⟨hreported, hreports⟩ := reports_eq_alone_inCorpus sharedLamp hookedRoof Options.default
  have hcallers : (sharedLamp.callersOf sharedLamp.images[1].id).card = 1 := by decide +kernel
  constructor
  · obtain ⟨door, halone, hmem⟩ := hreported sharedLamp.images[1] (List.getElem_mem _) (by decide)
    exact ⟨door, halone, hcallers ▸ hmem⟩
  · rw [hreports, List.mergeSort_of_pairwise (by decide +kernel)]
    decide +kernel

end Corpus

end BehaviorScript
