import BehaviorScript.Proofs.Corpus.Manifests
import BehaviorScript.Proofs.Json.WholeNumbers

/-!
# Documents that pass and cannot be read

A document is checked against its schema first, and what passes is then
read into fields of fixed width. The schema was to be as strict as the
fields, so that every document which cannot be used is reported as a
violation. It is not, in two places, and these are all:

- the type `integer` admits a double without a fraction, and no field takes
  a double, whatever its value;
- the two counts of an evidence record have no greatest value in the
  schema, but only 32 bits in the record.

`Manifest.Misfit` and `EvidenceDocument.Misfit` name the entries with such a
number. A document that passes is read exactly if it has none of them
(`Outcome`). A manifest's count of instructions has no greatest value in
its schema either, but a whole number of a document never needs more than
64 bits (`Json.bounded_ofBytes?`): a greater literal is a double already.
-/

namespace BehaviorScript

/-! ## Fields -/

namespace Schema

theorem Passes.exists_natUpTo? {limit : Nat} {v : Json} (h : (wholeUpTo limit).Passes v)
    (hnot : ∀ d, v ≠ .number (.double d)) : ∃ n, v.natUpTo? limit = some n := by
  have hinteger := h.admits (t := .integer) (by simp [wholeUpTo])
  rw [Json.exists_natUpTo?_iff h hinteger (by simp [wholeUpTo]),
    Json.misfit_iff_double h (by simp [wholeUpTo]), not_exists]
  exact hnot

end Schema

theorem passes_scripts {script : Schema} {j : Json}
    (h : Schema.violations (scriptsSchema script) j = []) :
    ∃ entries, j.field? "scripts" = some (.array entries)
      ∧ ∀ entry ∈ entries, script.Passes entry := by
  obtain ⟨-, hrequired, hproperties⟩ := (Schema.passes_of_violations h).record
  obtain ⟨v, hv⟩ := hrequired "scripts" (List.mem_singleton.mpr rfl)
  have hlist : Schema.Passes [.items script, .type [.array]] v :=
    hproperties ("scripts", _) (List.mem_singleton.mpr rfl) v hv
  obtain ⟨entries, rfl⟩ := JsonType.shape_of_admits (hlist.admits (t := .array) (by simp))
  exact ⟨entries, hv, hlist.items (by simp)⟩

/-! ## Manifests -/

namespace Manifest

/-- What the schema asks of an entry. -/
structure Checked (entry : Json) : Prop where
  id : ∃ v, entry.field? "id" = some v ∧ (wholeUpTo 65535).Passes v
  owner : ∃ s, entry.field? "owner" = some (.text s)
  argCount : ∀ v ∈ entry.field? "arg_count", (wholeUpTo 255).Passes v
  localCount : ∀ v ∈ entry.field? "local_count", (wholeUpTo 255).Passes v
  instructionCount : ∃ v, entry.field? "instruction_count" = some v
    ∧ Schema.Passes [.minimum 0, .type [.integer]] v
  code : ∃ s, entry.field? "code" = some (.text s)

theorem exists_checked {j : Json} (h : Schema.violations schema j = []) :
    ∃ entries, j.field? "scripts" = some (.array entries) ∧ ∀ entry ∈ entries, Checked entry := by
  obtain ⟨entries, hentries, hpasses⟩ := passes_scripts h
  refine ⟨entries, hentries, fun entry hentry => ?_⟩
  obtain ⟨-, hrequired, hproperties⟩ := (hpasses entry hentry).record
  simp only [List.forall_mem_cons] at hrequired hproperties
  obtain ⟨⟨id, hid⟩, ⟨owner, howner⟩, ⟨count, hcount⟩, ⟨code, hcode⟩, -⟩ := hrequired
  obtain ⟨hargs, hcodes, hids, hcounts, hlocals, howners, -⟩ := hproperties
  have hstring := (hcodes code hcode).admits (t := .string) (by simp)
  have hstring' := (howners owner howner).admits (t := .string) (by simp)
  obtain ⟨text, rfl⟩ := JsonType.shape_of_admits hstring
  obtain ⟨name, rfl⟩ := JsonType.shape_of_admits hstring'
  exact ⟨⟨id, hid, hids id hid⟩, ⟨name, howner⟩, hargs, hlocals,
    ⟨count, hcount, hcounts count hcount⟩, ⟨text, hcode⟩⟩

/-- A number of the entry is a double. -/
def Misfit (entry : Json) : Prop :=
  ∃ name ∈ ["id", "arg_count", "local_count", "instruction_count"], ∃ d,
    entry.field? name = some (.number (.double d))

theorem exists_byte? {field : Option Json} (h : ∀ v ∈ field, (wholeUpTo 255).Passes v)
    (hnot : ∀ d, field ≠ some (.number (.double d))) : ∃ b, byte? field = some b := by
  cases field with
  | none => exact ⟨0, rfl⟩
  | some v =>
      obtain ⟨n, hn⟩ := (h v rfl).exists_natUpTo? fun d hd => hnot d (congrArg some hd)
      exact ⟨UInt8.ofNat n, by rw [byte?, hn, Option.map_some]⟩

theorem not_misfit_of_describes {entry : Json} {s : ManifestScript} (h : Describes entry s) :
    ¬Misfit entry := by
  rintro ⟨name, hname, d, hd⟩
  obtain ⟨hid, -, hargs, hlocals, hcount, -⟩ := h
  simp only [List.mem_cons, List.not_mem_nil, or_false] at hname
  rcases hname with rfl | rfl | rfl | rfl
  · simp [hd, Json.nat] at hid
  · simp [hd, Json.nat] at hargs
  · simp [hd, Json.nat] at hlocals
  · simp [hd, Json.nat] at hcount

theorem exists_script?_iff {entry : Json} (h : Checked entry) (hbounded : entry.Bounded) :
    (∃ s, script? entry = some s) ↔ ¬Misfit entry := by
  constructor
  · rintro ⟨s, hs⟩
    exact not_misfit_of_describes (describes_of_script? hs)
  · intro hfit
    have hnot : ∀ name ∈ ["id", "arg_count", "local_count", "instruction_count"], ∀ d,
        entry.field? name ≠ some (.number (.double d)) :=
      fun name hname d hd => hfit ⟨name, hname, d, hd⟩
    obtain ⟨id, hid, hidPasses⟩ := h.id
    obtain ⟨n, hn⟩ := hidPasses.exists_natUpTo? fun d hd => hnot "id" (by simp) d (hd ▸ hid)
    obtain ⟨owner, howner⟩ := h.owner
    obtain ⟨args, hargs⟩ := exists_byte? h.argCount (hnot "arg_count" (by simp))
    obtain ⟨locals, hlocals⟩ := exists_byte? h.localCount (hnot "local_count" (by simp))
    obtain ⟨count, hcount, hcountPasses⟩ := h.instructionCount
    obtain ⟨m, hm⟩ : ∃ m, count.natUpTo? (UInt64.size - 1) = some m := by
      rw [Json.exists_natUpTo?_iff hcountPasses (hcountPasses.admits (by simp)) (by simp)]
      rintro (⟨d, rfl⟩ | ⟨m, hlt, rfl⟩)
      · exact hnot "instruction_count" (by simp) d hcount
      · have hbound := (hbounded.field hcount).nat_lt
        omega
    obtain ⟨code, hcode⟩ := h.code
    refine ⟨⟨UInt16.ofNat n, owner, args, locals, m, code⟩, ?_⟩
    simp only [script?, Option.bind_eq_bind, Option.bind_some, hid, hn, howner, hargs, hlocals,
      hcount, hm, hcode, Json.text?]

end Manifest

/-! ## Evidence documents -/

namespace EvidenceDocument

/-- What the schema asks of a count. -/
def countSchema : Schema := [.minimum 0, .type [.integer, .null]]

/-- What the schema asks of the name of a case. -/
def namesSchema (names : List String) : Schema := [.enum (names.map Json.text ++ [.null])]

/-- What the schema asks of an entry. -/
structure Checked (entry : Json) : Prop where
  record : ∃ fields, entry = .object fields
  id : ∃ v, entry.field? "id" = some v ∧ (wholeUpTo 65535).Passes v
  inboundCalls : ∀ v ∈ entry.field? "inbound_calls", countSchema.Passes v
  interaction : ∀ v ∈ entry.field? "interaction",
    (namesSchema (Interaction.all.map Interaction.key)).Passes v
  lifecycleHook : ∀ v ∈ entry.field? "lifecycle_hook",
    (namesSchema (LifecycleHook.all.map LifecycleHook.key)).Passes v
  maxIterations : ∀ v ∈ entry.field? "max_iterations", countSchema.Passes v
  observedYield : ∀ v ∈ entry.field? "observed_yield", Schema.Passes [.type [.boolean]] v

theorem exists_checked {j : Json} (h : Schema.violations schema j = []) :
    ∃ entries, j.field? "scripts" = some (.array entries) ∧ ∀ entry ∈ entries, Checked entry := by
  obtain ⟨entries, hentries, hpasses⟩ := passes_scripts h
  refine ⟨entries, hentries, fun entry hentry => ?_⟩
  obtain ⟨hrecord, hrequired, hproperties⟩ := (hpasses entry hentry).record
  simp only [List.forall_mem_cons] at hrequired hproperties
  obtain ⟨⟨id, hid⟩, -⟩ := hrequired
  obtain ⟨hids, hcalls, hinteraction, hhook, hiterations, hyield, -⟩ := hproperties
  exact ⟨hrecord, ⟨id, hid, hids id hid⟩, hcalls, hinteraction, hhook, hiterations, hyield⟩

/-- The id of the entry is a double, or a count of it is one or needs more
than 32 bits. -/
def Misfit (entry : Json) : Prop :=
  (∃ d, entry.field? "id" = some (.number (.double d)))
    ∨ ∃ name ∈ ["inbound_calls", "max_iterations"], ∃ v ∈ entry.field? name,
      v.Misfit (UInt32.size - 1)

theorem exists_case? {α : Type} {read : Json → Option α} {names : List String}
    (hread : ∀ name ∈ names, (read (.text name)).isSome = true) {field : Option Json}
    (h : ∀ v ∈ field, (namesSchema names).Passes v) :
    ∃ found, Evidence.optional? read field = some found := by
  cases field with
  | none => exact ⟨none, rfl⟩
  | some v =>
      have hvalue := (h v rfl).enum (List.mem_singleton.mpr rfl)
      rw [List.mem_append, List.mem_map, List.mem_singleton] at hvalue
      rcases hvalue with ⟨name, hname, rfl⟩ | rfl
      · obtain ⟨a, ha⟩ := Option.isSome_iff_exists.mp (hread name hname)
        exact ⟨some a, Option.map_eq_some_iff.mpr ⟨a, ha, rfl⟩⟩
      · exact ⟨none, rfl⟩

theorem exists_flag? {field : Option Json}
    (h : ∀ v ∈ field, Schema.Passes [.type [.boolean]] v) : ∃ b, Evidence.flag? field = some b := by
  cases field with
  | none => exact ⟨false, rfl⟩
  | some v =>
      obtain ⟨b, rfl⟩ := JsonType.shape_of_admits ((h v rfl).admits (t := .boolean) (by simp))
      exact ⟨b, rfl⟩

theorem exists_count?_iff {field : Option Json} (h : ∀ v ∈ field, countSchema.Passes v) :
    (∃ found, Evidence.optional? Evidence.count? field = some found) ↔
      ∀ v ∈ field, ¬v.Misfit (UInt32.size - 1) := by
  cases field with
  | none => exact iff_of_true ⟨none, rfl⟩ nofun
  | some v =>
      have hpasses := h v rfl
      obtain ⟨t, ht, hadmits⟩ := hpasses.type (List.mem_cons_of_mem _ (List.mem_singleton.mpr rfl))
      rw [List.mem_cons, List.mem_singleton] at ht
      rcases ht with rfl | rfl
      · have hread := Json.exists_natUpTo?_iff hpasses hadmits (List.mem_cons_self ..)
          (UInt32.size - 1)
        obtain ⟨value, rfl⟩ := JsonType.shape_of_admits hadmits
        have hone : (∀ v ∈ some (Json.number value), ¬v.Misfit (UInt32.size - 1)) ↔
            ¬(Json.number value).Misfit (UInt32.size - 1) := by simp
        rw [hone, ← hread]
        constructor
        · rintro ⟨found, hfound⟩
          obtain ⟨n, hn, -⟩ := Option.map_eq_some_iff.mp hfound
          exact ⟨n, hn⟩
        · rintro ⟨n, hn⟩
          exact ⟨some n, Option.map_eq_some_iff.mpr ⟨n, hn, rfl⟩⟩
      · obtain rfl : v = .null := JsonType.shape_of_admits hadmits
        refine iff_of_true ⟨none, rfl⟩ ?_
        simp [Json.Misfit, Json.nat]

theorem exists_entry?_iff {entry : Json} (h : Checked entry) :
    (∃ found, entry? entry = some found) ↔ ¬Misfit entry := by
  obtain ⟨fields, rfl⟩ := h.record
  have hcalls := exists_count?_iff h.inboundCalls
  have hiterations := exists_count?_iff h.maxIterations
  have hooks : ∀ name ∈ LifecycleHook.all.map LifecycleHook.key,
      (Evidence.hook? (.text name)).isSome = true := by decide
  have interactions : ∀ name ∈ Interaction.all.map Interaction.key,
      (Evidence.interaction? (.text name)).isSome = true := by decide
  constructor
  · rintro ⟨found, hfound⟩
    simp only [Evidence.ofJson?, entry?, Evidence.read?, Option.bind_eq_bind,
      Option.bind_eq_some_iff] at hfound
    obtain ⟨n, ⟨id, hid, hn⟩, -, ⟨-, -, -, -, calls, hcount, -, -, iterations, hcount', -⟩, -⟩ :=
      hfound
    rintro (⟨d, hd⟩ | ⟨name, hname, v, hv, hmisfit⟩)
    · obtain ⟨-, rfl⟩ := Json.natUpTo?_eq_some_iff.mp hn
      rw [hd] at hid
      cases hid
    · simp only [List.mem_cons, List.not_mem_nil, or_false] at hname
      rcases hname with rfl | rfl
      · exact hcalls.mp ⟨calls, hcount⟩ v hv hmisfit
      · exact hiterations.mp ⟨iterations, hcount'⟩ v hv hmisfit
  · intro hfit
    have hnot : ∀ name ∈ ["inbound_calls", "max_iterations"],
        ∀ v ∈ (Json.object fields).field? name, ¬v.Misfit (UInt32.size - 1) :=
      fun name hname v hv hmisfit => hfit (.inr ⟨name, hname, v, hv, hmisfit⟩)
    obtain ⟨id, hid, hidPasses⟩ := h.id
    obtain ⟨n, hn⟩ := hidPasses.exists_natUpTo? fun d hd => hfit (.inl ⟨d, hd ▸ hid⟩)
    obtain ⟨hook, hhook⟩ := exists_case? hooks h.lifecycleHook
    obtain ⟨interaction, hinteraction⟩ := exists_case? interactions h.interaction
    obtain ⟨calls, hcount⟩ := hcalls.mpr (hnot "inbound_calls" (by simp))
    obtain ⟨flag, hflag⟩ := exists_flag? h.observedYield
    obtain ⟨iterations, hcount'⟩ := hiterations.mpr (hnot "max_iterations" (by simp))
    have hevidence : Evidence.ofJson? (.object fields)
        = some ⟨hook, interaction, calls, flag, iterations⟩ := by
      show Evidence.read? (fun name => (Json.object fields).field? name) = _
      simp only [Evidence.read?, Option.bind_eq_bind, Option.bind_some, hhook, hinteraction, hcount,
        hflag, hcount']
    refine ⟨(UInt16.ofNat n, ⟨hook, interaction, calls, flag, iterations⟩), ?_⟩
    simp only [Option.bind_eq_bind, entry?, Option.bind_some, hid, hn, hevidence]

end EvidenceDocument

/-! ## Whole documents -/

theorem checkedDocument_of_violations {source : String} {schema : Schema} {bytes : ByteArray}
    {j : Json} (hread : Json.ofBytes? bytes = some j) (h : Schema.violations schema j ≠ []) :
    checkedDocument source schema bytes
      = .error (.schemaViolation source (Schema.violations schema j)) := by
  unfold checkedDocument
  rw [hread]
  dsimp only
  split
  · next hnil => exact absurd hnil h
  · rfl

/-- What becomes of a document with the value `j`: a violation of the
schema is reported as such, and what passes is read unless one of the
entries is a misfit. -/
structure Outcome {α : Type} (schema : Schema) (Misfit : Json → Prop) (source : String)
    (unreadable : LoadError) (j : Json) (result : Except LoadError α) : Prop where
  violated : Schema.violations schema j ≠ [] →
    result = .error (.schemaViolation source (Schema.violations schema j))
  passed : Schema.violations schema j = [] → ∃ entries,
    j.field? "scripts" = some (.array entries)
      ∧ ((∃ a, result = .ok a) ↔ ∀ entry ∈ entries, ¬Misfit entry)
      ∧ (result = .error unreadable ↔ ∃ entry ∈ entries, Misfit entry)

/-- Checks a document and reads its entries one by one. -/
def parseEntries {α β : Type} (schema : Schema) (read : Json → Option β) (make : List β → α)
    (source : String) (unreadable : LoadError) (bytes : ByteArray) : Except LoadError α :=
  match checkedDocument source schema bytes with
  | .error e => .error e
  | .ok j =>
    match ((j.field? "scripts").bind Json.array?).bind fun items => items.mapM read with
    | some found => .ok (make found)
    | none => .error unreadable

theorem Corpus.parse_eq (source : String) (bytes : ByteArray) :
    Corpus.parse source bytes = parseEntries Manifest.schema Manifest.script? Corpus.ofManifest
      source (.unreadableScripts source) bytes := by
  unfold Corpus.parse parseEntries Manifest.scripts?
  cases checkedDocument source Manifest.schema bytes with
  | error e => rfl
  | ok j =>
      dsimp only
      cases ((j.field? "scripts").bind Json.array?).bind
          fun items => items.mapM Manifest.script? with
      | none => rfl
      | some found => rfl

theorem EvidenceTable.parse_eq (source : String) (bytes : ByteArray) :
    EvidenceTable.parse source bytes = parseEntries EvidenceDocument.schema
      EvidenceDocument.entry? IdMap.ofList source (.unreadableEvidence source) bytes := by
  unfold EvidenceTable.parse parseEntries EvidenceDocument.entries?
  cases checkedDocument source EvidenceDocument.schema bytes with
  | error e => rfl
  | ok j =>
      dsimp only
      cases ((j.field? "scripts").bind Json.array?).bind
          fun items => items.mapM EvidenceDocument.entry? with
      | none => rfl
      | some found => rfl

/-- Where each entry on its own is read unless it is a misfit, so is the
document. -/
theorem outcome_parseEntries {α β : Type} {schema : Schema} {Misfit : Json → Prop}
    {bytes : ByteArray} {j : Json} {read : Json → Option β}
    (hread : Json.ofBytes? bytes = some j)
    (hentries : Schema.violations schema j = [] → ∃ entries,
      j.field? "scripts" = some (.array entries)
        ∧ ∀ entry ∈ entries, (∃ found, read entry = some found) ↔ ¬Misfit entry)
    (make : List β → α) (source : String) (unreadable : LoadError) :
    Outcome schema Misfit source unreadable j
      (parseEntries schema read make source unreadable bytes) where
  violated h := by rw [parseEntries, checkedDocument_of_violations hread h]
  passed h := by
    obtain ⟨entries, hfield, hentry⟩ := hentries h
    have hall : (∃ found, entries.mapM read = some found) ↔ ∀ entry ∈ entries, ¬Misfit entry :=
      exists_mapM_iff.trans (forall₂_congr hentry)
    refine ⟨entries, hfield, ?_⟩
    simp only [parseEntries, checkedDocument_eq_ok_iff.mpr ⟨hread, h⟩, hfield, Option.bind_some,
      Json.array?]
    cases hfound : entries.mapM read with
    | none =>
        have hmisfit : ¬∀ entry ∈ entries, ¬Misfit entry := by simp [← hall, hfound]
        refine ⟨iff_of_false ?_ hmisfit, iff_of_true rfl ?_⟩
        · rintro ⟨a, ha⟩
          cases ha
        · simpa using hmisfit
    | some found =>
        have hfits := hall.mp ⟨found, hfound⟩
        refine ⟨iff_of_true ⟨make found, rfl⟩ hfits, iff_of_false ?_ ?_⟩
        · intro h
          cases h
        · simpa using hfits

/-- A document that cannot be used is reported as a violation of its
schema, the misfits apart. -/
theorem parse_unreadable_iff_misfit (source : String) {bytes : ByteArray} {j : Json}
    (hread : Json.ofBytes? bytes = some j) :
    Outcome Manifest.schema Manifest.Misfit source (.unreadableScripts source) j
        (Corpus.parse source bytes)
      ∧ Outcome EvidenceDocument.schema EvidenceDocument.Misfit source
        (.unreadableEvidence source) j (EvidenceTable.parse source bytes) := by
  have hbounded := Json.bounded_ofBytes? hread
  constructor
  · rw [Corpus.parse_eq]
    refine outcome_parseEntries hread (fun h => ?_) _ _ _
    obtain ⟨entries, hfield, hchecked⟩ := Manifest.exists_checked h
    refine ⟨entries, hfield, fun entry hentry => ?_⟩
    exact Manifest.exists_script?_iff (hchecked entry hentry)
      ((hbounded.field hfield).item entry hentry)
  · rw [EvidenceTable.parse_eq]
    refine outcome_parseEntries hread (fun h => ?_) _ _ _
    obtain ⟨entries, hfield, hchecked⟩ := EvidenceDocument.exists_checked h
    exact ⟨entries, hfield, fun entry hentry =>
      EvidenceDocument.exists_entry?_iff (hchecked entry hentry)⟩

/-- A manifest that counts its instructions by a double. -/
def doubleCount : ByteArray :=
  ("\x7b\"scripts\":[\x7b\"id\":1,\"owner\":\"lamp\",\"instruction_count\":1.0,"
    ++ "\"code\":\"\"\x7d]\x7d").toUTF8

/-- Its entry. -/
def doubleCountEntry : Json :=
  .object [("code", .text ""), ("id", .nat 1),
    ("instruction_count", .number (.double ⟨false, ⟨4503599627370496, -52⟩⟩)),
    ("owner", .text "lamp")]

theorem parse_unreadable_iff_misfit_doubleCount :
    Json.ofBytes? doubleCount = some (.object [("scripts", .array [doubleCountEntry])])
      ∧ Manifest.Misfit doubleCountEntry
      ∧ Corpus.parse "m.json" doubleCount = .error (.unreadableScripts "m.json")
      ∧ ¬EvidenceDocument.Misfit doubleCountEntry
      ∧ ∃ table, EvidenceTable.parse "m.json" doubleCount = .ok table := by
  have hread : Json.ofBytes? doubleCount
      = some (.object [("scripts", .array [doubleCountEntry])]) := by with_unfolding_all rfl
  have hmisfit : Manifest.Misfit doubleCountEntry := ⟨"instruction_count", by simp, _, rfl⟩
  have hfits : ¬EvidenceDocument.Misfit doubleCountEntry := by
    rintro (⟨d, hd⟩ | ⟨name, hname, v, hv, -⟩)
    · cases hd
    · rcases List.mem_pair.mp hname with rfl | rfl <;> cases hv
  obtain ⟨hmanifest, hevidence⟩ := parse_unreadable_iff_misfit "m.json" hread
  obtain ⟨_, hscripts, -, hunreadable⟩ := hmanifest.passed (by decide +kernel)
  obtain ⟨_, hentries, hreadable, -⟩ := hevidence.passed (by decide +kernel)
  cases hscripts
  cases hentries
  exact ⟨hread, hmisfit, hunreadable.mpr ⟨_, List.mem_singleton.mpr rfl, hmisfit⟩, hfits,
    hreadable.mpr fun entry hentry => List.mem_singleton.mp hentry ▸ hfits⟩

/-- An evidence document with one call more than a record can count. -/
def oneCallTooMany : ByteArray :=
  "\x7b\"scripts\":[\x7b\"id\":1,\"inbound_calls\":4294967296\x7d]\x7d".toUTF8

/-- The document passes the schema, cannot be read, and is reported as
unreadable, not as a violation. -/
theorem unreadable_oneCallTooMany : ∃ j,
    Json.ofBytes? oneCallTooMany = some j ∧ Schema.violations EvidenceDocument.schema j = []
      ∧ EvidenceDocument.entries? j = none
      ∧ EvidenceTable.parse "e.json" oneCallTooMany = .error (.unreadableEvidence "e.json") := by
  have hfacts : (Json.ofBytes? oneCallTooMany).any (fun j =>
      (Schema.violations EvidenceDocument.schema j).isEmpty
        && (EvidenceDocument.entries? j).isNone) = true := by decide +kernel
  obtain ⟨j, hread⟩ : ∃ j, Json.ofBytes? oneCallTooMany = some j :=
    Option.isSome_iff_exists.mp (by decide +kernel)
  rw [hread, Option.any_some, Bool.and_eq_true, List.isEmpty_iff,
    Option.isNone_iff_eq_none] at hfacts
  obtain ⟨hpasses, hunread⟩ := hfacts
  refine ⟨j, hread, hpasses, hunread, ?_⟩
  rw [EvidenceTable.parse, checkedDocument_eq_ok_iff.mpr ⟨hread, hpasses⟩]
  dsimp only
  rw [hunread]

end BehaviorScript
