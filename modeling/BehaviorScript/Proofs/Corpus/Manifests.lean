import BehaviorScript.Proofs.Corpus.Loading
import BehaviorScript.Proofs.Json.Schemas
import BehaviorScript.Proofs.Text.Hexadecimal

/-!
# A bad script is the only one that is lost

Once a manifest has been read, nothing in it can make it fail. Each entry
goes to one of two lists by its own code, and what becomes of it does not
depend on the entries around it (`Manifest.Dealt`): the images are those of
the entries whose code is hexadecimal text, the rejected scripts are the
other entries, both in the order of the manifest.

An entry is taken as it stands in the document (`Manifest.Describes`), so
that a count which is not there is seen to be zero, and its code is the
text between the blanks around it (`Manifest.codeText`).
-/

namespace BehaviorScript

namespace Manifest

/-! ## Entries -/

/-- The entry says of a script what `s` holds. Counts of arguments and
locals may be left out, and are zero then. -/
structure Describes (entry : Json) (s : ManifestScript) : Prop where
  id : entry.field? "id" = some (.nat s.id.toNat)
  owner : entry.field? "owner" = some (.text s.owner)
  argCount : (entry.field? "arg_count").getD (.nat 0) = .nat s.argCount.toNat
  localCount : (entry.field? "local_count").getD (.nat 0) = .nat s.localCount.toNat
  instructionCount : entry.field? "instruction_count" = some (.nat s.instructionCount)
  code : entry.field? "code" = some (.text s.code)

theorem getD_of_byte? {field : Option Json} {b : UInt8} (h : byte? field = some b) :
    field.getD (.nat 0) = .nat b.toNat := by
  cases field with
  | none =>
      cases h
      rfl
  | some j =>
      obtain ⟨n, hn, rfl⟩ := Option.map_eq_some_iff.mp h
      obtain ⟨hle, rfl⟩ := Json.natUpTo?_eq_some_iff.mp hn
      rw [Option.getD_some, UInt8.toNat_ofNat', Nat.mod_eq_of_lt (by omega)]

theorem describes_of_script? {entry : Json} {s : ManifestScript} (h : script? entry = some s) :
    Describes entry s := by
  simp only [script?, Option.bind_eq_bind, Option.bind_eq_some_iff, Json.natUpTo?_eq_some_iff,
    Json.text?_eq_some_iff] at h
  obtain ⟨id, ⟨_, hid, hle, rfl⟩, owner, ⟨_, howner, rfl⟩, args, hargs, locals, hlocals,
    count, ⟨_, hcount, -, rfl⟩, code, ⟨_, hcode, rfl⟩, hscript⟩ := h
  cases hscript
  have hword : (UInt16.ofNat id).toNat = id := by
    rw [UInt16.toNat_ofNat', Nat.mod_eq_of_lt (by omega)]
  refine ⟨?_, howner, getD_of_byte? hargs, getD_of_byte? hlocals, hcount, hcode⟩
  rw [hword]
  exact hid

/-- The code of an entry without the blanks around it. -/
def codeText (entry : Json) : List Char :=
  match entry.field? "code" with
  | some (.text code) => trimBlank code.toList
  | _ => []

theorem Describes.codeText_eq {entry : Json} {s : ManifestScript} (h : Describes entry s) :
    codeText entry = trimBlank s.code.toList := by
  rw [codeText, h.code]

theorem Describes.trims_code {entry : Json} {s : ManifestScript} (h : Describes entry s) :
    ∃ code, entry.field? "code" = some (.text code)
      ∧ ∀ text, Trims code.toList text ↔ codeText entry = text := by
  refine ⟨s.code, h.code, fun text => ?_⟩
  rw [h.codeText_eq]
  exact trims_iff

/-- The image holds what the entry says, and the bytes that its code
spells. -/
def Carries (entry : Json) (image : Image) : Prop :=
  (∃ code, Describes entry ⟨image.id, image.owner, image.argCount, image.localCount,
      image.instructionCount, code⟩)
    ∧ Hex.Spells (codeText entry) image.code

/-- The failure names the script of the entry. -/
structure Blames (entry : Json) (failure : Failure) : Prop where
  id : entry.field? "id" = some (.nat failure.id.toNat)
  owner : entry.field? "owner" = some (.text failure.owner)
  error : failure.error = s!"script {Hex.word failure.id}: code is not valid hex"

/-- The corpus has an image of each entry whose code is hexadecimal text
and a failure for each other one, both in order. -/
structure Dealt (entries : List Json) (c : Corpus) : Prop where
  code : ∀ entry ∈ entries, ∃ code, entry.field? "code" = some (.text code)
    ∧ ∀ text, Trims code.toList text ↔ codeText entry = text
  images : List.Forall₂ Carries (entries.filter fun entry => Hex.IsText (codeText entry)) c.images
  rejected : List.Forall₂ Blames (entries.filter fun entry => ¬Hex.IsText (codeText entry))
    c.rejected

/-! ## One entry -/

section

variable {entry : Json} {s : ManifestScript}

theorem exists_image? (h : Describes entry s) (htext : Hex.IsText (codeText entry)) :
    ∃ image, s.image? = some image ∧ s.failure? = none ∧ Carries entry image := by
  rw [h.codeText_eq] at htext
  obtain ⟨bytes, hbytes⟩ := Hex.exists_decode?_iff.mpr htext
  refine ⟨⟨s.id, s.owner, s.argCount, s.localCount, s.instructionCount, bytes⟩, ?_, ?_,
    ⟨s.code, h⟩, ?_⟩
  · rw [ManifestScript.image?, ManifestScript.bytes?, hbytes, Option.map_some]
  · rw [ManifestScript.failure?, ManifestScript.bytes?, hbytes]
  · rw [h.codeText_eq]
    exact Hex.decode?_eq_some_iff.mp hbytes

theorem exists_failure? (h : Describes entry s) (htext : ¬Hex.IsText (codeText entry)) :
    ∃ failure, s.failure? = some failure ∧ s.image? = none ∧ Blames entry failure := by
  rw [h.codeText_eq, ← Hex.exists_decode?_iff] at htext
  have hnone : s.bytes? = none := Option.eq_none_iff_forall_ne_some.mpr (not_exists.mp htext)
  refine ⟨⟨s.id, s.owner, s!"script {Hex.word s.id}: code is not valid hex"⟩, ?_, ?_,
    h.id, h.owner, rfl⟩
  · rw [ManifestScript.failure?, hnone]
  · rw [ManifestScript.image?, hnone, Option.map_none]

end

/-! ## All entries -/

-- Over the pairs of entries and scripts: one more entry adds to one list
-- and leaves the other as it is.
theorem dealt_ofManifest {entries : List Json} {scripts : List ManifestScript}
    (h : List.Forall₂ Describes entries scripts) : Dealt entries (Corpus.ofManifest scripts) := by
  induction h with
  | nil => exact ⟨nofun, .nil, .nil⟩
  | @cons entry s entries scripts hentry _ ih =>
      have hcodes : ∀ e ∈ entry :: entries, ∃ code, e.field? "code" = some (.text code)
          ∧ ∀ text, Trims code.toList text ↔ codeText e = text := by
        intro e he
        rcases List.mem_cons.mp he with rfl | hmem
        · exact hentry.trims_code
        · exact ih.code e hmem
      by_cases htext : Hex.IsText (codeText entry)
      · obtain ⟨image, himage, hnone, hcarries⟩ := exists_image? hentry htext
        refine ⟨hcodes, ?_, ?_⟩
        · rw [List.filter_cons_of_pos (by simpa using htext), Corpus.ofManifest,
            List.filterMap_cons_some himage]
          exact .cons hcarries ih.images
        · rw [List.filter_cons_of_neg (by simpa using htext), Corpus.ofManifest,
            List.filterMap_cons_none hnone]
          exact ih.rejected
      · obtain ⟨failure, hfailure, hnone, hblames⟩ := exists_failure? hentry htext
        refine ⟨hcodes, ?_, ?_⟩
        · rw [List.filter_cons_of_neg (by simpa using htext), Corpus.ofManifest,
            List.filterMap_cons_none hnone]
          exact ih.images
        · rw [List.filter_cons_of_pos (by simpa using htext), Corpus.ofManifest,
            List.filterMap_cons_some hfailure]
          exact .cons hblames ih.rejected

/-- Every entry of a readable manifest is loaded or rejected on its own
account, and the manifest as a whole never fails. -/
theorem parse_deals_entries (source : String) {bytes : ByteArray} {j : Json}
    (hread : Json.ofBytes? bytes = some j) (hschema : Schema.violations schema j = [])
    (hscripts : (scripts? j).isSome = true) :
    ∃ entries c, j.field? "scripts" = some (.array entries) ∧ Corpus.parse source bytes = .ok c
      ∧ Dealt entries c := by
  obtain ⟨scripts, hsome⟩ := Option.isSome_iff_exists.mp hscripts
  obtain ⟨items, hitems, hmap⟩ := Option.bind_eq_some_iff.mp hsome
  obtain ⟨field, hfield, harray⟩ := Option.bind_eq_some_iff.mp hitems
  obtain rfl := Json.array?_eq_some_iff.mp harray
  have hparse : Corpus.parse source bytes = .ok (Corpus.ofManifest scripts) :=
    Corpus.parse_eq_ok_iff.mpr ⟨scripts, read?_eq_some_iff.mpr ⟨j, hread, hschema, hsome⟩, rfl⟩
  refine ⟨items, _, hfield, hparse, dealt_ofManifest ?_⟩
  exact (mapM_eq_some_iff.mp hmap).imp fun _ _ => describes_of_script?

/-- A manifest of two scripts. The code of the first is no hexadecimal
text, that of the second is in both cases and has blanks around it. -/
def oneGarbled : ByteArray :=
  ("\x7b\"scripts\":[\x7b\"id\":7,\"owner\":\"\",\"instruction_count\":1,\"code\":\"zz\"\x7d,"
    ++ "\x7b\"id\":8,\"owner\":\"\",\"instruction_count\":1,\"code\":\" aB \"\x7d]\x7d").toUTF8

theorem parse_deals_entries_oneGarbled :
    ∃ j entries c, Json.ofBytes? oneGarbled = some j ∧ Schema.violations schema j = []
      ∧ (scripts? j).isSome = true ∧ j.field? "scripts" = some (.array entries)
      ∧ Corpus.parse "hex.json" oneGarbled = .ok c ∧ Dealt entries c
      ∧ c.images.map Image.id = [8] ∧ c.rejected.map Failure.id = [7] := by
  have hread : read? oneGarbled = some [⟨7, "", 0, 0, 1, "zz"⟩, ⟨8, "", 0, 0, 1, " aB "⟩] := by
    decide +kernel
  obtain ⟨j, hj, hschema, hscripts⟩ := read?_eq_some_iff.mp hread
  have hsome : (scripts? j).isSome = true := by rw [hscripts]; rfl
  obtain ⟨entries, c, hentries, hparse, hdealt⟩ :=
    parse_deals_entries "hex.json" hj hschema hsome
  obtain ⟨scripts, hscripts', rfl⟩ := Corpus.parse_eq_ok_iff.mp hparse
  obtain rfl := Option.some.inj (hread.symm.trans hscripts')
  exact ⟨j, entries, _, hj, hschema, hsome, hentries, hparse, hdealt, by decide +kernel,
    by decide +kernel⟩

end Manifest

end BehaviorScript
