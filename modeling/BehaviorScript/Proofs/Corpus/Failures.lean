import BehaviorScript.Proofs.CallGraph.Ids
import BehaviorScript.Proofs.Code.Records
import BehaviorScript.Proofs.Corpus.InputOrder

/-!
# Scripts that cannot be analyzed

A script without a report stays in the call graph, under a place of its
own. Its node moves those of others, and where other scripts call its id
it takes the place of a node outside of the corpus. None of this can be
seen in what the analysis says of the others
(`Corpus.analyze_of_addsFailing`).

`AddsFailing` covers both ways to fail. Each list that the analysis starts
from gains one element or stays the same (`AddsFailing.ids`,
`AddsFailing.calls`, `AddsFailing.failures`, `AddsFailing.filterMap_images`);
the rest is what one more element does to sorted lists and to the graph.
-/

namespace BehaviorScript

namespace Corpus

/-- The corpus `d` is `c` with one more script, put in anywhere. It gets
the failure `f` and no report. -/
inductive AddsFailing (c : Corpus) (f : Failure) (d : Corpus) : Prop where
  | rejected (hrejected : Inserted f c.rejected d.rejected) (himages : d.images = c.images)
  | oversized (image : Image) (hcount : 253 < image.instructionCount)
      (hfailure : f = ⟨image.id, image.owner,
        (DecodeError.tooManyInstructions image.instructionCount).message⟩)
      (himages : Inserted image c.images d.images) (hrejected : d.rejected = c.rejected)

/-! ## Images that declare too much -/

section

variable {image : Image} (hcount : 253 < image.instructionCount)

include hcount

theorem decode_of_oversized :
    image.decode = .error (.tooManyInstructions image.instructionCount) :=
  decode_of_lt hcount image.code

theorem callsOf_of_oversized : callsOf image = ScriptCalls.withoutCode image.id image.owner := by
  rw [callsOf, decode_of_oversized hcount]

theorem failure?_of_oversized :
    failure? image = some ⟨image.id, image.owner,
      (DecodeError.tooManyInstructions image.instructionCount).message⟩ := by
  rw [failure?, decode_of_oversized hcount]

theorem analyze_of_oversized (evidence : Evidence) (options : Options) :
    (BehaviorScript.analyze image evidence options).toOption = none := by
  rw [BehaviorScript.analyze, Script.ofImage, decode_of_oversized hcount]
  rfl

end

/-! ## The lists of the larger corpus -/

namespace AddsFailing

variable {c d : Corpus} {f : Failure} (h : c.AddsFailing f d)

include h

theorem ids : Inserted f.id c.ids d.ids := by
  cases h with
  | rejected hrejected himages =>
      rw [Corpus.ids, Corpus.ids, himages]
      exact (hrejected.map Failure.id).append_left _
  | oversized image hcount hfailure himages hrejected =>
      subst hfailure
      rw [Corpus.ids, Corpus.ids, hrejected]
      exact (himages.map Image.id).append_right _

theorem calls : Inserted (ScriptCalls.withoutCode f.id f.owner) c.calls d.calls := by
  cases h with
  | rejected hrejected himages =>
      rw [Corpus.calls, Corpus.calls, himages]
      exact (hrejected.map fun f => ScriptCalls.withoutCode f.id f.owner).append_left _
  | oversized image hcount hfailure himages hrejected =>
      subst hfailure
      rw [Corpus.calls, Corpus.calls, hrejected, ← callsOf_of_oversized hcount]
      exact (himages.map callsOf).append_right _

theorem failures : Inserted f c.failures d.failures := by
  cases h with
  | rejected hrejected himages =>
      rw [Corpus.failures, Corpus.failures, himages]
      exact hrejected.append_right _
  | oversized image hcount hfailure himages hrejected =>
      subst hfailure
      rw [Corpus.failures, Corpus.failures, hrejected]
      exact (himages.filterMap_some (failure?_of_oversized hcount)).append_left _

theorem size : d.size = c.size + 1 := by
  have hids : ∀ e : Corpus, e.size = e.ids.length := by
    intro e
    rw [Corpus.size, Corpus.ids, List.length_append, List.length_map, List.length_map]
  rw [hids, hids, h.ids.perm.length_eq, List.length_cons]

/-- What is gathered from the images that can be analyzed stays the same. -/
theorem filterMap_images {β : Type} {g : Image → Option β}
    (hg : ∀ image, 253 < image.instructionCount → g image = none) :
    d.images.filterMap g = c.images.filterMap g := by
  cases h with
  | rejected hrejected himages => rw [himages]
  | oversized image hcount hfailure himages hrejected =>
      exact himages.filterMap_none (hg image hcount)

theorem callersOf (id : UInt16) : d.callersOf id = c.callersOf id := by
  ext caller
  rw [mem_callersOf_iff, mem_callersOf_iff, CallGraph.calls_of_inserted h.calls rfl]

theorem reports (evidence : EvidenceTable) (options : Options) :
    (d.analyze evidence options).reports = (c.analyze evidence options).reports := by
  have himages : d.scripts.map (fun s =>
        s.report options (evidence.get s.image.id) (some (d.callGraph evidence)))
      = c.scripts.map fun s =>
        s.report options (evidence.get s.image.id) (some (c.callGraph evidence)) := by
    rw [map_report_scripts, map_report_scripts]
    simp only [h.callersOf]
    refine h.filterMap_images fun image hcount => ?_
    rw [analyze_of_oversized hcount, Option.map_none]
  exact congrArg (List.mergeSort · fun a b : Report => a.id ≤ b.id) himages

end AddsFailing

/-! ## The analysis of the larger corpus -/

variable {c d : Corpus} {f : Failure}

theorem fresh_calls (hfresh : f.id ∉ c.ids) : ∀ s ∈ c.calls, s.id ≠ f.id := by
  intro s hs heq
  refine hfresh ?_
  rw [← map_id_calls, ← heq]
  exact List.mem_map_of_mem hs

theorem fresh_failures (hfresh : f.id ∉ c.ids) : ∀ g ∈ c.failures, g.id ≠ f.id := by
  intro g hg heq
  refine hfresh ?_
  rw [← heq, ids, List.mem_append]
  rcases List.mem_append.mp hg with hg | hg
  · exact Or.inr (List.mem_map_of_mem hg)
  · obtain ⟨image, himage, hg⟩ := List.mem_filterMap.mp hg
    exact Or.inl (List.mem_map.mpr ⟨image, himage, (id_failure? hg).symm⟩)

/-- A script that fails adds its failure, its node and its counts. The
reports, the statuses of all other ids and the calls between ids are what
they were without it. -/
theorem analyze_of_addsFailing (hadds : c.AddsFailing f d) (hfresh : f.id ∉ c.ids)
    (evidence : EvidenceTable) (options : Options) :
    (d.analyze evidence options).reports = (c.analyze evidence options).reports
    ∧ Inserted f (c.analyze evidence options).failures (d.analyze evidence options).failures
    ∧ (∀ id, id ≠ f.id → (d.analyze evidence options).graph.statusOf? id
        = (c.analyze evidence options).graph.statusOf? id)
    ∧ (d.analyze evidence options).graph.namedCalls
        = (c.analyze evidence options).graph.namedCalls
    ∧ ∃ status, (d.analyze evidence options).graph.statusOf? f.id = some status
      ∧ (d.analyze evidence options).summary
        = { (c.analyze evidence options).summary with
            scripts := (c.analyze evidence options).summary.scripts + 1
            failed := (c.analyze evidence options).summary.failed + 1
            entryPoints := (c.analyze evidence options).summary.entryPoints
              + if status = .entry then 1 else 0
            utilities := (c.analyze evidence options).summary.utilities
              + if status = .utility then 1 else 0
            orphans := (c.analyze evidence options).summary.orphans
              + if status = .orphan then 1 else 0 } := by
  have hreports := hadds.reports evidence options
  have hfailures : Inserted f (c.analyze evidence options).failures
      (d.analyze evidence options).failures :=
    ById.mergeSort_of_inserted Failure.id hadds.failures (fresh_failures hfresh)
  obtain ⟨status, hstatus⟩ : ∃ status, (d.callGraph evidence).statusOf? f.id = some status :=
    CallGraph.exists_statusOf? ⟨_, hadds.calls.mem_iff.mpr (Or.inl rfl), rfl⟩
  have hcount : ∀ part, ((d.callGraph evidence).withStatus part).length
      = ((c.callGraph evidence).withStatus part).length + if status = part then 1 else 0 := by
    intro part
    have hinserted : ((d.callGraph evidence).withStatus part).length
        = ((c.callGraph evidence).withStatus part).length
          + if (d.callGraph evidence).statusOf? f.id = some part then 1 else 0 :=
      CallGraph.length_withStatus_of_inserted hadds.calls rfl (fresh_calls hfresh) part
    simpa only [hstatus, Option.some_inj] using hinserted
  have hsummary : ∀ e : Corpus, (e.analyze evidence options).summary
      = Summary.of e.size (e.analyze evidence options).reports
          (e.analyze evidence options).failures (e.callGraph evidence) := fun _ => rfl
  refine ⟨hreports, hfailures, fun id hne => CallGraph.statusOf?_of_inserted hadds.calls rfl hne,
    CallGraph.namedCalls_of_inserted hadds.calls rfl (fresh_calls hfresh), status, hstatus, ?_⟩
  rw [hsummary d, hsummary c, hreports, hadds.size]
  simp only [Summary.of, hcount, hfailures.perm.length_eq, List.length_cons]

/-- `mixedCorpus` without the script that declares too much, which another
script calls. -/
def soundCorpus : Corpus := { mixedCorpus with images := mixedCorpus.images.take 1 }

def oversizedFailure : Failure := ⟨0x1001, "lamp", (DecodeError.tooManyInstructions 300).message⟩

theorem analyze_of_addsFailing_mixedCorpus :
    soundCorpus.AddsFailing oversizedFailure mixedCorpus ∧ oversizedFailure.id ∉ soundCorpus.ids
      ∧ (mixedCorpus.analyze IdMap.empty Options.default).reports
        = (soundCorpus.analyze IdMap.empty Options.default).reports := by
  have hadds : soundCorpus.AddsFailing oversizedFailure mixedCorpus :=
    .oversized ⟨0x1001, "lamp", 0, 0, 300, []⟩ (by decide) rfl
      ⟨soundCorpus.images, [], (List.append_nil _).symm, rfl⟩ rfl
  have hfresh : oversizedFailure.id ∉ soundCorpus.ids := by decide
  exact ⟨hadds, hfresh, (analyze_of_addsFailing hadds hfresh IdMap.empty Options.default).1⟩

end Corpus

end BehaviorScript
