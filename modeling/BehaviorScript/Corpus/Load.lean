import BehaviorScript.Corpus.Document
import BehaviorScript.Corpus.FileTree

/-!
# Loading

A corpus is loaded from a manifest, an archive of manifests or a
directory tree of both. Documents are read in the order of their paths;
the first one that fails, fails the whole load. No id may occur twice.
The result is in ascending order of the ids, whatever the layout.
-/

namespace BehaviorScript

/-- A document to be read, or why it cannot be. -/
structure Document where
  source : String
  content : Except LoadError ByteArray

def Document.parse (d : Document) : Except LoadError Corpus :=
  match d.content with
  | .ok bytes => Corpus.parse d.source bytes
  | .error e => .error e

/-! ## Documents of a tree -/

/-- The manifests of an archive by name. -/
def archiveDocuments (path : String) (entries : List ArchiveEntry) : List Document :=
  let manifests := entries.filter fun e => !e.isDirectory && e.name.endsWith ".json"
  (manifests.mergeSort fun a b => a.name ≤ b.name).map fun e =>
    ⟨"zip:" ++ path ++ "!/" ++ e.name, .ok e.bytes⟩

/-- The documents of a file by its extension; `none` is a file that
cannot be opened. An archive is no manifest, and a file that is none is
no archive. -/
def fileDocuments (path : String) (opened : Option FileNode) : List Document :=
  match Path.extension? path, opened with
  | some "json", some (.file bytes) => [⟨path, .ok bytes⟩]
  | some "json", some _ => [⟨path, .error (.malformed path)⟩]
  | some "json", none => [⟨path, .error (.unreadableFile path)⟩]
  | some "zip", some (.archive entries) => archiveDocuments path entries
  | some "zip", some _ => [⟨path, .error (.unreadableFile path)⟩]
  | some "zip", none => [⟨path, .error (.missingArchive path)⟩]
  | _, _ => []

mutual

/-- The documents of a node in order; other files are skipped. What
stands at a path that is too long is taken for a file, since nobody can
see what it is. -/
def documents (path : String) : FileNode → List Document
  | .directory entries =>
    if Path.isTooLong path then fileDocuments path none
    else ((memberDocuments path entries).mergeSort fun a b => a.1 ≤ b.1).flatMap fun m => m.2
  | .file bytes =>
    fileDocuments path (if Path.isTooLong path then none else some (.file bytes))
  | .archive entries =>
    fileDocuments path (if Path.isTooLong path then none else some (.archive entries))

/-- The documents of each member of a directory, with its path. -/
def memberDocuments (path : String) : List (String × FileNode) → List (String × List Document)
  | [] => []
  | (name, node) :: rest =>
    (Path.join path name, documents (Path.join path name) node) :: memberDocuments path rest

end

/-- The documents of an input. A file that is given as such must be of a
known kind. -/
def inputDocuments (path : String) (found : Option FileNode) :
    Except LoadError (List Document) :=
  if found.any FileNode.isDirectory then .ok ((found.map (documents path)).getD [])
  else match Path.extension? path with
    | some "json" | some "zip" => .ok (fileDocuments path found)
    | _ => .error (.unsupportedFile path)

/-! ## Corpora -/

/-- Joins the scripts of all documents; the first failing one decides. -/
def parseAll : List Document → Except LoadError Corpus
  | [] => .ok .empty
  | d :: rest =>
    match d.parse with
    | .error e => .error e
    | .ok corpus =>
      match parseAll rest with
      | .error e => .error e
      | .ok others => .ok (corpus.append others)

namespace Corpus

/-- Ids and owners, the images first. -/
def owners (c : Corpus) : List (UInt16 × String) :=
  c.images.map (fun image => (image.id, image.owner))
    ++ c.rejected.map fun f => (f.id, f.owner)

/-- The first script whose id came before, with the owner of both. -/
def repeated? (seen : List (UInt16 × String)) :
    List (UInt16 × String) → Option (UInt16 × String × String)
  | [] => none
  | (id, owner) :: rest =>
    match seen.lookup id with
    | some first => some (id, first, owner)
    | none => repeated? ((id, owner) :: seen) rest

def sortById (c : Corpus) : Corpus :=
  ⟨c.images.mergeSort fun a b => a.id ≤ b.id, c.rejected.mergeSort fun a b => a.id ≤ b.id⟩

/-- The scripts of all documents, if no id occurs twice. -/
def ofDocuments (documents : List Document) : Except LoadError Corpus :=
  match parseAll documents with
  | .error e => .error e
  | .ok corpus =>
    match repeated? [] corpus.owners with
    | some (id, first, second) => .error (.duplicateScript id first second)
    | none => .ok corpus.sortById

/-- Loads the corpus that a path stands for. -/
def load (files : Files) (path : String) : Except LoadError Corpus :=
  match inputDocuments path (files path) with
  | .ok documents => ofDocuments documents
  | .error e => .error e

end Corpus

/-- Loads an evidence document. -/
def EvidenceTable.load (files : Files) (path : String) : Except LoadError EvidenceTable :=
  match files path with
  | some (.file bytes) => EvidenceTable.parse path bytes
  | some (.archive _) => .error (.malformed path)
  | _ => .error (.unreadableFile path)

end BehaviorScript
