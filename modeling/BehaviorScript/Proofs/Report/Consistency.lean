import BehaviorScript.Proofs.Corpus.Conservation
import BehaviorScript.Proofs.Lint.Passes
import BehaviorScript.Proofs.Profile.Notes

/-!
# Reports agree with themselves

A report puts together what the passes, the profile and the
classification found out on their own. `Report.Consistent` says where
they speak of the same thing, and that they say the same: what is dead,
which pointers lead nowhere, and where the script branches.
-/

namespace BehaviorScript

/-! ## The dead-code note -/

def IsDeadCodeNote (note : String) : Prop := "dead code: ".toList <+: note.toList

instance (note : String) : Decidable (IsDeadCodeNote note) := inferInstanceAs (Decidable (_ <+: _))

theorem not_deadCodeNote_of_digits (n : Nat) (rest : String) :
    ¬IsDeadCodeNote (toString n ++ rest) := by
  intro h
  cases hdigits : Nat.toDigits 10 n with
  | nil => exact Nat.toDigits_ne_nil hdigits
  | cons c digits =>
      have hdigit : c.isDigit = true :=
        Nat.isDigit_of_mem_toDigits (by decide) (by decide) (hdigits ▸ List.mem_cons_self ..)
      have hnote : (toString n ++ rest).toList = c :: (digits ++ rest.toList) := by
        simp [hdigits]
      rw [IsDeadCodeNote, hnote] at h
      obtain ⟨rfl, -⟩ := List.cons_prefix_cons.mp h
      exact absurd hdigit (by decide)

/-- No other kind of note begins like the one on dead code. -/
theorem NoteKind.isDeadCodeNote_note_iff {kind : NoteKind} {n : Nat} :
    IsDeadCodeNote (kind.note n) ↔ kind = .deadCode := by
  cases kind with
  | deadCode =>
      refine iff_of_true ?_ rfl
      show _ <+: ("dead code: " ++ toString n ++ " unreachable instruction(s) (-0.10)").toList
      rw [String.append_assoc, String.toList_append]
      exact List.prefix_append _ _
  | unknownOpcodes =>
      refine iff_of_false ?_ (by decide)
      show ¬_ <+: ("utility uses " ++ toString n ++ " unknown opcode(s) (-0.15)").toList
      simp
  | validationErrors =>
      refine iff_of_false ?_ (by decide)
      show ¬IsDeadCodeNote (toString n ++ " validation error(s) (-0.05 each)")
      exact not_deadCodeNote_of_digits n _
  | sharedAction =>
      refine iff_of_false ?_ (by decide)
      show ¬_ <+: ("interaction action is also called by " ++ toString n ++ " scripts").toList
      simp
  -- the other notes give no number
  | noRule => exact iff_of_false (show ¬IsDeadCodeNote (noRule.note 0) by decide) (by decide)
  | noYield => exact iff_of_false (show ¬IsDeadCodeNote (noYield.note 0) by decide) (by decide)
  | loopingAction =>
      exact iff_of_false (show ¬IsDeadCodeNote (loopingAction.note 0) by decide) (by decide)
  | yieldingGuard =>
      exact iff_of_false (show ¬IsDeadCodeNote (yieldingGuard.note 0) by decide) (by decide)
  | noCaller => exact iff_of_false (show ¬IsDeadCodeNote (noCaller.note 0) by decide) (by decide)
  | truncated => exact iff_of_false (show ¬IsDeadCodeNote (truncated.note 0) by decide) (by decide)

namespace Profile

variable {p : Profile} {note : String}

def deadCodeNote (p : Profile) : String :=
  s!"dead code: {p.shape.deadInstructionCount} unreachable instruction(s) (-0.10)"

/-- Dead code is noted once, with its size. -/
theorem mem_notes_and_isDeadCodeNote_iff :
    note ∈ p.classify.notes ∧ IsDeadCodeNote note ↔
      p.reachability = .hasDeadCode ∧ note = p.deadCodeNote := by
  rw [mem_notes_iff]
  constructor
  · rintro ⟨⟨kind, happlies, rfl⟩, hnote⟩
    obtain rfl := NoteKind.isDeadCodeNote_note_iff.mp hnote
    exact ⟨of_decide_eq_true happlies, rfl⟩
  · rintro ⟨hreach, rfl⟩
    have hnote : p.deadCodeNote = NoteKind.deadCode.note (NoteKind.deadCode.number p) := rfl
    rw [hnote]
    exact ⟨⟨.deadCode, decide_eq_true hreach, rfl⟩, NoteKind.isDeadCodeNote_note_iff.mpr rfl⟩

end Profile

/-! ## Consistency -/

open BehaviorScript.Flow

namespace Report

/-- The instructions that are reported as dead code. -/
def deadIndices (r : Report) : List Nat :=
  (r.findings.filter fun f => f.category = .deadCode).map Finding.index

/-- What a report on the decoded script `d` says in several places, it
says the same way in all of them. -/
structure Consistent (d : Decoded) (r : Report) : Prop where
  status : r.status = d.status
  size : r.profile.shape.instructionCount = d.code.length
  index_lt : ∀ f ∈ r.findings, f.index < r.profile.shape.instructionCount
  mem_deadIndices : ∀ a, a ∈ r.deadIndices ↔ a < d.code.length ∧ ¬Reachable d.code a
  nodup_deadIndices : r.deadIndices.Nodup
  length_deadIndices : r.deadIndices.length = r.profile.shape.deadInstructionCount
  reachability : r.profile.reachability = .hasDeadCode ↔ 0 < r.profile.shape.deadInstructionCount
  note : ∀ note, note ∈ r.classification.notes ∧ IsDeadCodeNote note ↔
    0 < r.profile.shape.deadInstructionCount ∧ note = r.profile.deadCodeNote
  live : ∀ f ∈ r.findings, f.category = .stackBalance ∨ f.category = .variableUsage →
    f.index ∉ r.deadIndices
  validationErrors : r.profile.validationErrors = (d.code.map fun i => i.issues.length).sum
    + r.findings.countP Finding.isOutOfRange + (if d.isTruncated then 1 else 0)
  hasBranching : r.profile.shape.hasBranching = true ↔ ∃ a i, d.code[a]? = some i
    ∧ i.flow = .branches ∧ a ∉ r.deadIndices
    ∧ ∀ f ∈ r.findings, f.index = a → f.isSameBranches = false

end Report

namespace Script

theorem reachability_report (s : Script) (options : Options) (evidence : Evidence)
    (graph : Option CallGraph) :
    (s.report options evidence graph).profile.reachability = .hasDeadCode ↔
      0 < (s.report options evidence graph).profile.shape.deadInstructionCount := by
  simp only [report, profile]
  split_ifs <;> simp_all

section

variable {image : Image} {s : Script} (hs : ofImage image = .ok s)
include hs

theorem deadIndices_perm (options : Options) (evidence : Evidence) (graph : Option CallGraph) :
    (s.report options evidence graph).deadIndices.Perm ((Lint.deadCode s).map Finding.index) :=
  (Lint.filter_lint_perm hs options .deadCode).map Finding.index

theorem mem_deadIndices_iff (options : Options) (evidence : Evidence) (graph : Option CallGraph)
    (a : Nat) :
    a ∈ (s.report options evidence graph).deadIndices ↔
      a < s.code.length ∧ ¬Reachable s.code a := by
  rw [(deadIndices_perm hs options evidence graph).mem_iff, Lint.dead_mem_iff hs]

theorem countP_outOfRange_lint (options : Options) :
    (s.lint options).countP Finding.isOutOfRange = s.invalidPointers := by
  rw [Lint.countP_lint hs fun f => Finding.category_of_isOutOfRange]
  exact Lint.countP_outOfRange hs

theorem hasBranching_iff :
    s.hasBranching = true ↔ ∃ a i, s.code[a]? = some i ∧ i.flow = .branches
      ∧ Reachable s.code a ∧ i.truePointer ≠ i.falsePointer := by
  have hresolve : ∀ i : Instruction, Target.resolve i.truePointer s.code.length
      = Target.resolve i.falsePointer s.code.length ↔ i.truePointer = i.falsePointer :=
    fun i => (Target.resolve_injective s.code.length).eq_iff
  simp only [hasBranching, List.any_eq_true, Prod.exists, mem_liveCode_iff hs, Bool.and_eq_true,
    decide_eq_true_eq, ne_eq, hresolve]
  constructor
  · rintro ⟨i, a, ⟨hi, hreach⟩, hflow, hne⟩
    exact ⟨a, i, hi, hflow, hreach, hne⟩
  · rintro ⟨a, i, hi, hflow, hreach, hne⟩
    exact ⟨i, a, ⟨hi, hreach⟩, hflow, hne⟩

/-- Where nothing is said of equal branches, the pointers differ. -/
theorem notSameBranches_iff (options : Options) {a : Nat} {i : Instruction}
    (hi : s.code[a]? = some i) (hflow : i.flow = .branches) :
    (∀ f ∈ s.lint options, f.index = a → f.isSameBranches = false) ↔
      i.truePointer ≠ i.falsePointer := by
  constructor
  · intro hno heq
    obtain ⟨f, hf, hindex, hsame⟩ := (Lint.sameBranches_mem_iff hi).mpr ⟨hflow, heq⟩
    have hpass : f ∈ Lint.pass options s .logicError := hf
    rw [hno f ((Lint.mem_pass_iff hs).mp hpass).1 hindex] at hsame
    cases hsame
  · intro hne f hf hindex
    refine Bool.eq_false_iff.mpr fun hsame => hne ?_
    have hpass : f ∈ Lint.pass options s .logicError :=
      (Lint.mem_pass_iff hs).mpr ⟨hf, Finding.category_of_isSameBranches hsame⟩
    exact ((Lint.sameBranches_mem_iff hi).mp ⟨f, hpass, hindex, hsame⟩).2

theorem consistent_report (options : Options) (evidence : Evidence) (graph : Option CallGraph) :
    (s.report options evidence graph).Consistent s.decoded where
  status := rfl
  size := rfl
  index_lt := fun f hf => Lint.index_lt_of_mem_lint hs hf
  mem_deadIndices := mem_deadIndices_iff hs options evidence graph
  nodup_deadIndices :=
    (deadIndices_perm hs options evidence graph).nodup_iff.mpr (Lint.nodup_index_deadCode s)
  length_deadIndices := by
    rw [(deadIndices_perm hs options evidence graph).length_eq, List.length_map,
      Lint.length_deadCode hs]
    rfl
  reachability := reachability_report s options evidence graph
  note := by
    intro note
    rw [← reachability_report]
    exact Profile.mem_notes_and_isDeadCodeNote_iff
  live := by
    intro f hf hcategory hindex
    refine ((mem_deadIndices_iff hs options evidence graph _).mp hindex).2 ?_
    rcases hcategory with hstack | husage
    · exact (Lint.live_of_mem_stackBalance ((Lint.mem_pass_iff hs).mpr ⟨hf, hstack⟩)).2
    · exact (Lint.live_of_mem_variableUsage hs ((Lint.mem_pass_iff hs).mpr ⟨hf, husage⟩)).2
  validationErrors := by
    have hissues : s.decoded.operandIssueCount
        = (s.decoded.code.map fun i => i.issues.length).sum := List.length_flatMap
    have hcount := countP_outOfRange_lint hs options
    show s.decoded.operandIssueCount + s.invalidPointers + _ = _
    rw [hissues, ← hcount]
    rfl
  hasBranching := by
    refine (hasBranching_iff hs).trans (exists_congr fun a => exists_congr fun i => ?_)
    refine and_congr_right fun hi => and_congr_right fun hflow => ?_
    have ha : a < s.code.length := (List.getElem?_eq_some_iff.mp hi).1
    refine and_congr ?_ (notSameBranches_iff hs options hi hflow).symm
    rw [mem_deadIndices_iff hs options evidence graph, not_and_not_right]
    exact ⟨fun hreach _ => hreach, fun h => h ha⟩

end

end Script

/-- Every report is consistent, whether the script is analyzed on its own
or in a corpus. -/
theorem reports_consistent (options : Options) :
    (∀ image evidence r, analyze image evidence options = .ok r →
        ∃ d, image.decode = .ok d ∧ r.Consistent d)
      ∧ ∀ (c : Corpus) (evidence : EvidenceTable), ∀ r ∈ (c.analyze evidence options).reports,
        ∃ image ∈ c.images, r.id = image.id ∧ r.owner = image.owner
          ∧ ∃ d, image.decode = .ok d ∧ r.Consistent d := by
  constructor
  · intro image evidence r h
    unfold analyze at h
    split at h
    · next s hs =>
      cases h
      exact ⟨s.decoded, Script.decode_ofImage hs, Script.consistent_report hs options evidence none⟩
    · cases h
  · intro c evidence r hr
    obtain ⟨s, hs, rfl⟩ := Corpus.mem_reports hr
    obtain ⟨himage, hscript⟩ := Corpus.ofImage_of_mem_scripts hs
    exact ⟨s.image, himage, rfl, rfl, s.decoded, Script.decode_ofImage hscript,
      Script.consistent_report hscript options _ _⟩

/-- A branch, one with equal pointers and a variable of no known scope, and
one that is dead and leads nowhere; a fourth instruction is missing. -/
def strayPointers : Image :=
  ⟨0x1000, "lamp", 0, 0, 4, [0x01, 0x10, 1, 255, 0, 0, 0, 0, 0, 0, 0, 0,
    0x02, 0x00, 254, 254, 0, 0, 1, 0, 0, 2, 40, 7, 0x01, 0x10, 9, 200, 0, 0, 0, 0, 0, 0, 0, 0]⟩

theorem reports_consistent_strayPointers :
    ∃ d alone inCorpus, strayPointers.decode = .ok d
      ∧ analyze strayPointers .absent Options.default = .ok alone ∧ alone.Consistent d
      ∧ ((⟨[strayPointers], []⟩ : Corpus).analyze IdMap.empty Options.default).reports = [inCorpus]
      ∧ inCorpus.Consistent d
      ∧ d.code.map Instruction.issues = [[], [.unknownScope .left 40], []]
      ∧ alone.profile.shape.deadInstructionCount = 1 ∧ alone.profile.validationErrors = 4
      ∧ alone.profile.shape.hasBranching = true := by
  obtain ⟨halone, hcorpus⟩ := reports_consistent Options.default
  obtain ⟨d, hdecode⟩ : ∃ d, strayPointers.decode = .ok d := ⟨_, rfl⟩
  obtain ⟨alone, hreport⟩ : ∃ r, analyze strayPointers .absent Options.default = .ok r := ⟨_, rfl⟩
  obtain ⟨inCorpus, hreports⟩ : ∃ r, ((⟨[strayPointers], []⟩ : Corpus).analyze IdMap.empty
      Options.default).reports = [r] := ⟨_, List.mergeSort_singleton _⟩
  have hissues : d.code.map Instruction.issues = [[], [.unknownScope .left 40], []] := by
    cases hdecode
    decide +kernel
  have hfacts : alone.profile.shape.deadInstructionCount = 1 ∧ alone.profile.validationErrors = 4
      ∧ alone.profile.shape.hasBranching = true := by
    cases hreport
    decide +kernel
  refine ⟨d, alone, inCorpus, hdecode, hreport, ?_, hreports, ?_, hissues, hfacts⟩
  · obtain ⟨d', hd', hconsistent⟩ := halone _ _ _ hreport
    obtain rfl := Except.ok.inj (hdecode.symm.trans hd')
    exact hconsistent
  · obtain ⟨image, himage, -, -, d', hd', hconsistent⟩ :=
      hcorpus _ IdMap.empty inCorpus (hreports ▸ List.mem_singleton.mpr rfl)
    obtain rfl := List.mem_singleton.mp himage
    obtain rfl := Except.ok.inj (hdecode.symm.trans hd')
    exact hconsistent

end BehaviorScript
