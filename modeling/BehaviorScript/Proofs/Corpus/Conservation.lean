import BehaviorScript.Corpus.Load
import BehaviorScript.Proofs.Corpus.Failures
import BehaviorScript.Proofs.Profile.Rules
import Mathlib.Algebra.BigOperators.Group.Finset.Basic

/-!
# Nothing is lost and nothing counted twice

The scripts of a corpus part ways early: rejected ones, images that
declare too much, and images that are reported on go through different
lists, and each counter of the summary is taken from another one of them.
`Corpus.Accounted` says that all of them add up to what went in.

Images are told apart by their declared count alone
(`map_image_scripts`, `filterMap_failure?`), so the two parts of the list
of images are two filters of it. The counters by kind rest on
`total_census`: a census over all kinds counts everything once. Ids may
repeat throughout; the graph counts each id once, under its one status.
-/

namespace BehaviorScript

/-! ## Counters -/

/-- The sum of the counts of all kinds. -/
def total {κ : Type} : List (κ × Nat) → Nat
  | [] => 0
  | entry :: rest => entry.2 + total rest

theorem total_filter_pos {κ : Type} (counts : List (κ × Nat)) :
    total (counts.filter fun entry => 0 < entry.2) = total counts := by
  induction counts with
  | nil => rfl
  | cons entry rest ih =>
      by_cases hpos : 0 < entry.2
      · rw [List.filter_cons_of_pos (by simpa using hpos), total, total, ih]
      · rw [List.filter_cons_of_neg (by simpa using hpos), total, ih]
        omega

/-- What is counted may be renamed. -/
theorem total_map {κ κ' : Type} (rename : κ → κ') (counts : List (κ × Nat)) :
    total (counts.map fun entry => (rename entry.1, entry.2)) = total counts := by
  induction counts with
  | nil => rfl
  | cons entry rest ih => rw [List.map_cons, total, total, ih]

theorem total_count_cons {κ : Type} [DecidableEq κ] (kinds occurring : List κ) (kind : κ) :
    total (kinds.map fun k => (k, (kind :: occurring).count k))
      = total (kinds.map fun k => (k, occurring.count k)) + kinds.count kind := by
  induction kinds with
  | nil => rfl
  | cons k rest ih =>
      rw [List.map_cons, List.map_cons, total, total, ih, List.count_cons, List.count_cons]
      by_cases hk : kind = k
      · simp [hk]
        omega
      · have hk' : ¬k = kind := fun h => hk h.symm
        simp [hk, hk']
        omega

theorem total_count_nil {κ : Type} [DecidableEq κ] (kinds : List κ) :
    total (kinds.map fun k => (k, ([] : List κ).count k)) = 0 := by
  induction kinds with
  | nil => rfl
  | cons k rest ih => simpa [total] using ih

/-- Where all kinds are listed once, their counts add up to everything. -/
theorem total_count {κ : Type} [DecidableEq κ] {kinds : List κ} (hnodup : kinds.Nodup)
    {occurring : List κ} (hall : ∀ kind ∈ occurring, kind ∈ kinds) :
    total (kinds.map fun kind => (kind, occurring.count kind)) = occurring.length := by
  induction occurring with
  | nil => exact total_count_nil kinds
  | cons kind rest ih =>
      have hcount : kinds.count kind = 1 :=
        List.count_eq_one_of_mem hnodup (hall kind (List.mem_cons_self ..))
      rw [total_count_cons, hcount, List.length_cons,
        ih fun other hother => hall other (List.mem_cons_of_mem _ hother)]

theorem total_census {κ : Type} [DecidableEq κ] {kinds : List κ} (hnodup : kinds.Nodup)
    {occurring : List κ} (hall : ∀ kind ∈ occurring, kind ∈ kinds) :
    total (census kinds occurring) = occurring.length := by
  rw [census, total_filter_pos]
  exact total_count hnodup hall

theorem mem_occurring_of_census {κ : Type} [DecidableEq κ] {kinds occurring : List κ} {kind : κ}
    {n : Nat} (h : (kind, n) ∈ census kinds occurring) : kind ∈ occurring := by
  obtain ⟨hmem, hpos⟩ := List.mem_filter.mp h
  obtain ⟨k, -, heq⟩ := List.mem_map.mp hmem
  cases heq
  exact List.count_pos_iff.mp (by simpa using hpos)

namespace Summary

variable (scripts : Nat) (reports : List Report) (failures : List Failure) (graph : CallGraph)

theorem decoded_add_partlyDecoded :
    (Summary.of scripts reports failures graph).decoded
      + (Summary.of scripts reports failures graph).partlyDecoded = reports.length := by
  have hsplit := List.length_eq_countP_add_countP (fun r : Report => r.status = .complete)
    (l := reports)
  simpa [Summary.of] using hsplit.symm

theorem total_findings :
    total (Summary.of scripts reports failures graph).findings
      = (reports.flatMap fun r => r.findings).length := by
  have hall : ∀ severity : Severity, severity ∈ Severity.all := by
    intro severity
    cases severity <;> decide
  simp only [Summary.of]
  rw [total_census (by decide) fun severity _ => hall severity, ← List.map_flatMap,
    List.length_map]

theorem total_roles : total (Summary.of scripts reports failures graph).roles = reports.length := by
  have hall : ∀ r : Role, r ∈ Role.all := by
    intro r
    cases r <;> decide
  simp only [Summary.of]
  rw [total_census (by decide) fun r _ => hall r, List.length_map]

end Summary

/-- Every rule names a role. -/
theorem Profile.role_rule_ne_unknown (p : Profile) : p.rule.role ≠ .unknown := by
  intro hrole
  have hpresumes : Role.unknown.Presumes p := hrole ▸ presumes_role_rule p
  exact hpresumes

/-- The status of an id is one of four. -/
theorem card_by_status {ids : Finset UInt16} {statusOf? : UInt16 → Option NodeStatus}
    (h : ∀ id ∈ ids, ∃ status, statusOf? id = some status) :
    (ids.filter fun id => statusOf? id = some .entry).card
      + (ids.filter fun id => statusOf? id = some .utility).card
      + (ids.filter fun id => statusOf? id = some .orphan).card
      + (ids.filter fun id => statusOf? id = some .internal).card = ids.card := by
  have hmaps : Set.MapsTo statusOf? ids ({some .entry, some .utility, some .orphan,
      some .internal} : Finset (Option NodeStatus)) := by
    intro id hid
    obtain ⟨status, hstatus⟩ := h id hid
    cases status <;> simp [hstatus]
  rw [Finset.card_eq_sum_card_fiberwise hmaps, Finset.sum_insert (by decide),
    Finset.sum_insert (by decide), Finset.sum_insert (by decide), Finset.sum_singleton]
  omega

namespace Corpus

variable {c : Corpus}

/-! ## The two parts of the images -/

theorem map_image_scripts (c : Corpus) :
    c.scripts.map Script.image = c.images.filter fun image => image.instructionCount ≤ 253 := by
  rw [scripts, List.map_filterMap, ← List.filterMap_eq_filter]
  refine List.filterMap_congr fun image _ => ?_
  by_cases hcount : image.instructionCount ≤ 253
  · obtain ⟨s, hs⟩ := exists_ofImage hcount
    simp [hs, Except.toOption, image_ofImage hs, Option.guard, hcount]
  · have herror := decode_of_oversized (Nat.not_le.mp hcount)
    simp [Script.ofImage, herror, Except.toOption, Option.guard, hcount]

theorem failure?_of_le {image : Image} (hcount : image.instructionCount ≤ 253) :
    failure? image = none := by
  rw [failure?, Image.decode, decode_of_le hcount]

theorem filterMap_failure? (images : List Image) :
    images.filterMap failure? = (images.filter fun image => 253 < image.instructionCount).map
      fun image => ⟨image.id, image.owner,
        (DecodeError.tooManyInstructions image.instructionCount).message⟩ := by
  induction images with
  | nil => rfl
  | cons image rest ih =>
      by_cases hcount : 253 < image.instructionCount
      · rw [List.filterMap_cons_some (failure?_of_oversized hcount),
          List.filter_cons_of_pos (by simpa using hcount), List.map_cons, ih]
      · rw [List.filterMap_cons_none (failure?_of_le (Nat.not_lt.mp hcount)),
          List.filter_cons_of_neg (by simpa using hcount), ih]

theorem images_perm (images : List Image) :
    ((images.filter fun image => image.instructionCount ≤ 253)
      ++ images.filter fun image => 253 < image.instructionCount).Perm images := by
  have hnot : (images.filter fun image => 253 < image.instructionCount)
      = images.filter fun image => !decide (image.instructionCount ≤ 253) := by
    refine List.filter_congr fun image _ => ?_
    rw [← decide_not]
    exact decide_eq_decide.mpr Nat.not_le.symm
  rw [hnot]
  exact List.filter_append_perm _ images

/-! ## Reports and failures -/

section

variable {evidence : EvidenceTable} {options : Options}

theorem reports_perm (c : Corpus) (evidence : EvidenceTable) (options : Options) :
    (c.analyze evidence options).reports.Perm (c.scripts.map fun s =>
      s.report options (evidence.get s.image.id) (some (c.callGraph evidence))) :=
  List.mergeSort_perm _ _

theorem mem_reports {r : Report} (hr : r ∈ (c.analyze evidence options).reports) :
    ∃ s ∈ c.scripts,
      r = s.report options (evidence.get s.image.id) (some (c.callGraph evidence)) := by
  obtain ⟨s, hs, hreport⟩ := List.mem_map.mp ((reports_perm c evidence options).mem_iff.mp hr)
  exact ⟨s, hs, hreport.symm⟩

theorem ofImage_of_mem_scripts {s : Script} (hs : s ∈ c.scripts) :
    s.image ∈ c.images ∧ Script.ofImage s.image = .ok s := by
  obtain ⟨image, himage, hsome⟩ := List.mem_filterMap.mp hs
  cases hscript : Script.ofImage image with
  | error e =>
      rw [hscript] at hsome
      cases hsome
  | ok script =>
      rw [hscript] at hsome
      cases hsome
      rw [image_ofImage hscript]
      exact ⟨himage, hscript⟩

theorem reported_perm (c : Corpus) (evidence : EvidenceTable) (options : Options) :
    ((c.analyze evidence options).reports.map fun r => (r.id, r.owner)).Perm
      ((c.images.filter fun image => image.instructionCount ≤ 253).map
        fun image => (image.id, image.owner)) := by
  have hperm := (reports_perm c evidence options).map fun r => (r.id, r.owner)
  rw [List.map_map] at hperm
  rw [← map_image_scripts, List.map_map]
  exact hperm

theorem failed_perm (c : Corpus) (evidence : EvidenceTable) (options : Options) :
    (c.analyze evidence options).failures.Perm (c.rejected
      ++ (c.images.filter fun image => 253 < image.instructionCount).map fun image =>
        ⟨image.id, image.owner,
          (DecodeError.tooManyInstructions image.instructionCount).message⟩) := by
  rw [← filterMap_failure?]
  exact List.mergeSort_perm _ _

/-- Reports and failures name the scripts that went in, each as often as
it did. -/
theorem owners_perm (c : Corpus) (evidence : EvidenceTable) (options : Options) :
    (((c.analyze evidence options).reports.map fun r => (r.id, r.owner))
      ++ (c.analyze evidence options).failures.map fun f => (f.id, f.owner)).Perm c.owners := by
  have hfailed := (failed_perm c evidence options).map fun f => (f.id, f.owner)
  rw [List.map_append, List.map_map] at hfailed
  have himages := (images_perm c.images).map fun image => (image.id, image.owner)
  rw [List.map_append] at himages
  refine ((reported_perm c evidence options).append hfailed).trans ?_
  -- the rejected scripts come last among the owners
  refine (List.perm_append_comm.append_left _).trans ?_
  rw [← List.append_assoc]
  exact himages.append_right _

theorem length_reports_add_failures (c : Corpus) (evidence : EvidenceTable) (options : Options) :
    (c.analyze evidence options).reports.length + (c.analyze evidence options).failures.length
      = c.size := by
  have hlength := (owners_perm c evidence options).length_eq
  simpa [owners, size] using hlength

theorem countP_partly (c : Corpus) (evidence : EvidenceTable) (options : Options) :
    ((c.analyze evidence options).reports.countP fun r => r.status ≠ .complete)
      = c.images.countP fun image => image.code.length < 12 * image.instructionCount
          && image.instructionCount ≤ 253 := by
  have hstatus : ∀ s ∈ c.scripts, s.decoded.status ≠ .complete ↔
      s.image.code.length < 12 * s.image.instructionCount := by
    intro s hs
    obtain ⟨-, hscript⟩ := ofImage_of_mem_scripts hs
    rw [ne_eq, (status_of_decode (Script.decode_ofImage hscript)).1, Nat.not_le]
  rw [(reports_perm c evidence options).countP_eq, List.countP_map, ← List.countP_filter,
    ← map_image_scripts, List.countP_map]
  refine List.countP_congr fun s hs => ?_
  simpa [Script.report] using hstatus s hs

theorem withStatus_callGraph (c : Corpus) (evidence : EvidenceTable) :
    ((c.callGraph evidence).withStatus .entry).length
      + ((c.callGraph evidence).withStatus .utility).length
      + ((c.callGraph evidence).withStatus .orphan).length
      + ((c.callGraph evidence).withStatus .internal).length = c.ids.toFinset.card := by
  have hids : ∀ id, id ∈ c.ids.toFinset ↔ ∃ s ∈ c.calls, s.id = id := by
    intro id
    rw [List.mem_toFinset, ← map_id_calls, List.mem_map]
  simp only [callGraph, CallGraph.length_withStatus hids]
  exact card_by_status fun id hid => CallGraph.exists_statusOf? ((hids id).mp hid)

theorem role_report_ne_unknown {r : Report} (hr : r ∈ (c.analyze evidence options).reports) :
    r.classification.role ≠ .unknown := by
  obtain ⟨s, -, rfl⟩ := mem_reports hr
  exact Profile.role_rule_ne_unknown _

end

/-! ## Accounts -/

/-- Every script of `c` is in the analysis once, and every counter of the
summary counts what it says. -/
structure Accounted (c : Corpus) (a : CorpusAnalysis) : Prop where
  owners : ((a.reports.map fun r => (r.id, r.owner))
    ++ a.failures.map fun f => (f.id, f.owner)).Perm c.owners
  reports : (a.reports.map fun r => (r.id, r.owner)).Perm
    ((c.images.filter fun image => image.instructionCount ≤ 253).map
      fun image => (image.id, image.owner))
  failures : a.failures.Perm (c.rejected
    ++ (c.images.filter fun image => 253 < image.instructionCount).map fun image =>
      ⟨image.id, image.owner,
        (DecodeError.tooManyInstructions image.instructionCount).message⟩)
  reports_sorted : a.reports.Pairwise fun r r' => r.id ≤ r'.id
  failures_sorted : a.failures.Pairwise fun f f' => f.id ≤ f'.id
  scripts : a.summary.scripts = c.images.length + c.rejected.length
  parts : a.summary.scripts = a.summary.decoded + a.summary.partlyDecoded + a.summary.failed
  failed : a.summary.failed = a.failures.length
  partlyDecoded : a.summary.partlyDecoded = c.images.countP fun image =>
    image.code.length < 12 * image.instructionCount && image.instructionCount ≤ 253
  findings : total a.summary.findings = (a.reports.flatMap fun r => r.findings).length
  roles : total a.summary.roles = a.reports.length
  named : ∀ n, (Role.unknown, n) ∉ a.summary.roles
  /-- An id that several scripts have is counted once. -/
  ids : a.summary.entryPoints + a.summary.utilities + a.summary.orphans
    + (a.graph.withStatus .internal).length = c.ids.toFinset.card

/-- No script is lost or counted twice, whatever ids repeat. -/
theorem accounted_analyze (c : Corpus) (evidence : EvidenceTable) (options : Options) :
    c.Accounted (c.analyze evidence options) where
  owners := owners_perm c evidence options
  reports := reported_perm c evidence options
  failures := failed_perm c evidence options
  reports_sorted := ById.pairwise_mergeSort Report.id _
  failures_sorted := ById.pairwise_mergeSort Failure.id _
  scripts := rfl
  parts := by
    have hsize := length_reports_add_failures c evidence options
    rw [← Summary.decoded_add_partlyDecoded c.size _ (c.analyze evidence options).failures
      (c.callGraph evidence)] at hsize
    exact hsize.symm
  failed := rfl
  partlyDecoded := countP_partly c evidence options
  findings := Summary.total_findings ..
  roles := Summary.total_roles ..
  named := by
    intro n hn
    obtain ⟨r, hr, hrole⟩ := List.mem_map.mp (mem_occurring_of_census hn)
    exact role_report_ne_unknown hr hrole
  ids := withStatus_callGraph c evidence

end Corpus

end BehaviorScript
