import BehaviorScript.CallGraph.Drawing
import BehaviorScript.Proofs.Corpus.Reports
import BehaviorScript.Proofs.Script.Sorting

/-!
# The order of the input

A corpus is given as two lists, and each of its results is sorted by id
on its own: the scripts before the call graph is built, the reports, and
the failures. Where no two scripts share an id, each of these three sorts
alone decides the order of what it sorts, and nothing of the input order
is left (`Corpus.analyze_eq_of_perm`).

The nodes that are only called have no sort of their own. Their order is
that of the first calls, which the sorted scripts decide
(`CallGraph.build_eq_of_perm`).
-/

namespace BehaviorScript

theorem CallGraph.build_eq_of_perm {scripts scripts' : List ScriptCalls}
    (hperm : scripts.Perm scripts') (hids : (scripts.map ScriptCalls.id).Nodup)
    (evidence : EvidenceTable) : build scripts evidence = build scripts' evidence := by
  have hsorted : sortScripts scripts = sortScripts scripts' :=
    ById.mergeSort_eq_of_perm ScriptCalls.id hperm hids
  rw [build, build, hsorted]

namespace Corpus

/-- The ids of all scripts, rejected ones included. -/
def ids (c : Corpus) : List UInt16 := c.images.map Image.id ++ c.rejected.map Failure.id

variable {c d : Corpus}

/-! ## Ids of what a corpus lists -/

theorem map_id_calls (c : Corpus) : c.calls.map ScriptCalls.id = c.ids := by
  simp only [calls, ids, List.map_append, List.map_map]
  refine congrArg₂ (· ++ ·) (List.map_congr_left fun image _ => id_callsOf image) ?_
  exact List.map_congr_left fun f _ => rfl

theorem id_failure? {image : Image} {f : Failure} (h : failure? image = some f) :
    f.id = image.id := by
  unfold failure? at h
  split at h
  · cases h
  · cases h
    rfl

/-- Leaving out and renaming does not add ids. -/
theorem map_filterMap_sublist {α β : Type} {f : α → Option β} {idOf : α → UInt16}
    {idOf' : β → UInt16} (h : ∀ a b, f a = some b → idOf' b = idOf a) (l : List α) :
    ((l.filterMap f).map idOf').Sublist (l.map idOf) := by
  induction l with
  | nil => exact List.Sublist.refl _
  | cons a l ih =>
      cases ha : f a with
      | none =>
          rw [List.filterMap_cons_none ha, List.map_cons]
          exact ih.cons _
      | some b =>
          rw [List.filterMap_cons_some ha, List.map_cons, List.map_cons, h a b ha]
          exact ih.cons_cons _

theorem nodup_ids_scripts (h : c.ids.Nodup) :
    (c.scripts.map fun s => s.image.id).Nodup := by
  have hsublist : (c.scripts.map fun s => s.image.id).Sublist (c.images.map Image.id) := by
    refine map_filterMap_sublist (fun image s hs => ?_) c.images
    cases himage : Script.ofImage image with
    | ok script =>
        rw [himage] at hs
        cases hs
        rw [image_ofImage himage]
    | error e =>
        rw [himage] at hs
        cases hs
  exact (List.nodup_append.mp h).1.sublist hsublist

theorem nodup_ids_failures (h : c.ids.Nodup) : (c.failures.map Failure.id).Nodup := by
  have hsublist : ((c.images.filterMap failure?).map Failure.id).Sublist (c.images.map Image.id) :=
    map_filterMap_sublist (fun _ _ hf => id_failure? hf) c.images
  rw [failures, List.map_append]
  exact (List.perm_append_comm.nodup h).sublist (hsublist.append_left _)

/-! ## The lists of a permuted corpus -/

theorem calls_perm (himages : c.images.Perm d.images) (hrejected : c.rejected.Perm d.rejected) :
    c.calls.Perm d.calls :=
  (himages.map _).append (hrejected.map _)

theorem failures_perm (himages : c.images.Perm d.images)
    (hrejected : c.rejected.Perm d.rejected) : c.failures.Perm d.failures :=
  hrejected.append (himages.filterMap _)

theorem size_eq_of_perm (himages : c.images.Perm d.images)
    (hrejected : c.rejected.Perm d.rejected) : c.size = d.size := by
  rw [size, size, himages.length_eq, hrejected.length_eq]

/-- The scripts of a corpus may be given in any order: all reports and
failures, the call graph with the numbers of its nodes, its drawing and
the counts stay the same. -/
theorem analyze_eq_of_perm (hids : c.ids.Nodup) (himages : c.images.Perm d.images)
    (hrejected : c.rejected.Perm d.rejected) (evidence : EvidenceTable) (options : Options) :
    c.analyze evidence options = d.analyze evidence options
      ∧ (c.analyze evidence options).graph.dot = (d.analyze evidence options).graph.dot := by
  have hgraph : c.callGraph evidence = d.callGraph evidence := by
    refine CallGraph.build_eq_of_perm (calls_perm himages hrejected) ?_ evidence
    rw [map_id_calls]
    exact hids
  have hfailures : (c.failures.mergeSort fun a b => a.id ≤ b.id)
      = d.failures.mergeSort fun a b => a.id ≤ b.id :=
    ById.mergeSort_eq_of_perm Failure.id (failures_perm himages hrejected)
      (nodup_ids_failures hids)
  have hreports : ((c.scripts.map fun s =>
        s.report options (evidence.get s.image.id) (some (d.callGraph evidence))).mergeSort
          fun a b => a.id ≤ b.id)
      = (d.scripts.map fun s =>
        s.report options (evidence.get s.image.id) (some (d.callGraph evidence))).mergeSort
          fun a b => a.id ≤ b.id := by
    refine ById.mergeSort_eq_of_perm Report.id ((himages.filterMap _).map _) ?_
    rw [List.map_map]
    exact nodup_ids_scripts hids
  have hsame : c.analyze evidence options = d.analyze evidence options := by
    simp only [analyze, hgraph, hreports, hfailures, size_eq_of_perm himages hrejected]
  exact ⟨hsame, congrArg (fun a => a.graph.dot) hsame⟩

/-- A script that calls the next one, which declares too much, and two
scripts that could not be read. -/
def mixedCorpus : Corpus where
  images := [⟨0x1002, "lamp", 0, 0, 1, [0x01, 0x10, 254, 255, 0, 0, 0, 0, 0, 0, 0, 0]⟩,
    ⟨0x1001, "lamp", 0, 0, 300, []⟩]
  rejected := [⟨0x2000, "chair", "odd length"⟩, ⟨0x0100, "chair", "odd length"⟩]

theorem analyze_eq_of_perm_mixedCorpus :
    mixedCorpus.ids.Nodup
      ∧ mixedCorpus.analyze IdMap.empty Options.default
        = (⟨mixedCorpus.images.reverse, mixedCorpus.rejected.reverse⟩ : Corpus).analyze
            IdMap.empty Options.default := by
  have hids : mixedCorpus.ids.Nodup := by decide
  exact ⟨hids, (analyze_eq_of_perm hids (List.reverse_perm _).symm (List.reverse_perm _).symm
    IdMap.empty Options.default).1⟩

end Corpus

end BehaviorScript
