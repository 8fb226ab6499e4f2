import BehaviorScript.Output.Sarif
import BehaviorScript.Proofs.Corpus.Conservation
import BehaviorScript.Proofs.Lint.Order
import BehaviorScript.Proofs.Text.Hexadecimal

/-!
# Results of a log

A log is read here as its consumers read it: the results are those of all
runs, one after the other, and a result names its rule, its message and
its locations (`results?`, `ruleId?`, `messageText?`, `locationNames?`). Read
so, the log of a corpus has one result for each finding, in order
(`Conveys`), so there are as many as the summary counts.

A location is the owner, the id and the index without a quote between
them, and the owner is an arbitrary text, which may hold a location itself.
The name is read from its end (`locationName_inj`): the index has no
bracket, and what is between owner and index has always eight characters.
-/

namespace BehaviorScript

namespace Sarif

/-! ## Reading a log -/

/-- The results of all runs of a log. -/
def results? (log : Json) : Option (List Json) := do
  let runs ← (log.field? "runs").bind Json.array?
  let results ← runs.mapM fun run => (run.field? "results").bind Json.array?
  some results.flatten

def ruleId? (result : Json) : Option String := (result.field? "ruleId").bind Json.text?

def messageText? (result : Json) : Option String :=
  ((result.field? "message").bind (Json.field? "text")).bind Json.text?

/-- The names of the logical locations of a result. -/
def locationNames? (result : Json) : Option (List String) := do
  let locations ← (result.field? "locations").bind Json.array?
  let logical ← locations.mapM fun location => (location.field? "logicalLocations").bind Json.array?
  logical.flatten.mapM fun location => (location.field? "name").bind Json.text?

theorem results?_log (arguments : List String) (reports : List Report) :
    results? (log arguments reports) = some ((results reports).map Result.toJson) := by
  simp [results?, log, Json.field?, List.lookup_cons, Json.array?]

theorem ruleId?_toJson (r : Result) : ruleId? r.toJson = some r.ruleId := by
  simp [ruleId?, Result.toJson, Json.field?, List.lookup_cons, Json.text?]

theorem messageText?_toJson (r : Result) : messageText? r.toJson = some r.text := by
  simp [messageText?, Result.toJson, Json.field?, List.lookup_cons, Json.text?]

theorem locationNames?_toJson (r : Result) : locationNames? r.toJson = some [r.location] := by
  simp [locationNames?, Result.toJson, Json.field?, List.lookup_cons, Json.array?, Json.text?]

/-! ## Locations -/

theorem toList_locationName (owner : String) (id : UInt16) (index : Nat) :
    (locationName owner id index).toList = (owner.toList ++ ("::" ++ Hex.word id).toList)
      ++ '[' :: ((toString index).toList ++ [']']) := by
  show (owner ++ "::" ++ Hex.word id ++ "[" ++ toString index ++ "]").toList = _
  simp

/-- Owner, script and instruction can be read back from a location,
whatever the owner is. -/
theorem locationName_inj {owner owner' : String} {id id' : UInt16} {index index' : Nat}
    (h : locationName owner id index = locationName owner' id' index') :
    owner = owner' ∧ id = id' ∧ index = index' := by
  have hbracket : ∀ n : Nat, '[' ∉ (toString n).toList ++ [']'] := by
    intro n
    rw [List.mem_append, not_or]
    exact ⟨Text.notMem_toString (by decide) n, by decide⟩
  have hlength : ∀ id, ("::" ++ Hex.word id).toList.length = 8 := by
    intro id
    rw [String.toList_append, List.length_append, Hex.length_word]
    rfl
  have hlists := congrArg String.toList h
  rw [toList_locationName, toList_locationName] at hlists
  obtain ⟨hfront, hindex⟩ := Text.cut_at_last (hbracket _) (hbracket _) hlists
  obtain ⟨howner, hword⟩ := List.append_inj' hfront ((hlength id).trans (hlength id').symm)
  rw [String.toList_inj, String.append_right_inj] at hword
  exact ⟨String.toList_inj.mp howner, Hex.word_injective hword,
    (Text.number_at_front (by decide) hindex).1⟩

/-! ## Findings -/

/-- The result is about the finding of the report. -/
structure Carries (entry : Report × Finding) (result : Json) : Prop where
  ruleId : ruleId? result = some entry.2.ruleId
  location : locationNames? result
    = some [locationName entry.1.owner entry.1.id entry.2.index]
  message : ∃ rest, messageText? result = some (entry.2.message ++ rest)

theorem carries_result (r : Report) (f : Finding) : Carries (r, f) (result r f).toJson where
  ruleId := ruleId?_toJson _
  location := locationNames?_toJson _
  message := by
    rw [messageText?_toJson]
    unfold result
    cases f.suggestion? with
    | none => exact ⟨"", by simp⟩
    | some suggestion =>
        refine ⟨" (" ++ suggestion ++ ")", congrArg some ?_⟩
        show f.message ++ " (" ++ suggestion ++ ")" = _
        simp [String.append_assoc]

/-- The findings of the reports, each with its report. -/
def entries (reports : List Report) : List (Report × Finding) :=
  reports.flatMap fun r => r.findings.map fun f => (r, f)

theorem forall₂_results (reports : List Report) :
    List.Forall₂ Carries (entries reports) ((results reports).map Result.toJson) := by
  have hresults : (results reports).map Result.toJson
      = (entries reports).map fun entry => (result entry.1 entry.2).toJson := by
    simp [results, entries, List.map_flatMap, Function.comp_def]
  rw [hresults, List.forall₂_map_right_iff]
  exact List.forall₂_same.mpr fun entry _ => carries_result entry.1 entry.2

theorem length_entries (reports : List Report) :
    (entries reports).length = (reports.flatMap fun r => r.findings).length := by
  simp [entries]

/-- The log has one result for each finding of the analysis, by script and
in the order of the findings. -/
structure Conveys (log : Json) (c : Corpus) (options : Options) (a : CorpusAnalysis) : Prop where
  results : ∃ results, results? log = some results
    ∧ List.Forall₂ Carries (entries a.reports) results
    ∧ results.length = total a.summary.findings
  byId : a.reports.Pairwise fun r r' => r.id ≤ r'.id
  linted : ∀ r ∈ a.reports, ∃ s ∈ c.scripts,
    r.id = s.image.id ∧ r.owner = s.image.owner ∧ r.findings = s.lint options
  ordered : ∀ r ∈ a.reports, r.findings.Pairwise fun f g => f.key < g.key

theorem conveys_log (arguments : List String) (c : Corpus) (evidence : EvidenceTable)
    (options : Options) :
    Conveys (log arguments (c.analyze evidence options).reports) c options
      (c.analyze evidence options) where
  results := by
    have hcarries := forall₂_results (c.analyze evidence options).reports
    refine ⟨_, results?_log _ _, hcarries, ?_⟩
    rw [← hcarries.length_eq, length_entries]
    exact (Summary.total_findings ..).symm
  byId := ById.pairwise_mergeSort Report.id _
  linted := by
    intro r hr
    obtain ⟨s, hs, rfl⟩ := Corpus.mem_reports hr
    exact ⟨s, hs, rfl, rfl, rfl⟩
  ordered := by
    intro r hr
    obtain ⟨s, hs, rfl⟩ := Corpus.mem_reports hr
    exact Lint.pairwise_key_lint (Corpus.ofImage_of_mem_scripts hs).2 options

/-- Every finding is in the log once, and its location tells where it
is. -/
theorem log_carries_findings :
    (∀ arguments c evidence options, Conveys (log arguments (c.analyze evidence options).reports)
        c options (c.analyze evidence options))
      ∧ ∀ owner owner' id id' index index',
        locationName owner id index = locationName owner' id' index' ↔
          owner = owner' ∧ id = id' ∧ index = index' := by
  refine ⟨conveys_log, fun owner owner' id id' index index' => ⟨locationName_inj, ?_⟩⟩
  rintro ⟨rfl, rfl, rfl⟩
  rfl

end Sarif

end BehaviorScript
