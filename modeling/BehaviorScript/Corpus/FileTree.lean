/-!
# File trees

A directory with all that it holds, as a value. Paths are relative to its
root and are walked as written: a part that is not the last one must be a
directory, and so must what a trailing slash or point stands behind. A
path has a greatest length, so that not all that a directory lists can be
opened by its path.
-/

namespace BehaviorScript

structure ArchiveEntry where
  name : String
  isDirectory : Bool
  bytes : ByteArray

inductive FileNode where
  | file (bytes : ByteArray)
  /-- A file that is an archive of other files. -/
  | archive (entries : List ArchiveEntry)
  | directory (entries : List (String × FileNode))

/-- What stands at each path. -/
abbrev Files := String → Option FileNode

namespace Path

def parts (path : String) : List String := (path.toList.splitOn '/').map String.ofList

/-- The path of a member of a directory. -/
def join (directory name : String) : String :=
  if directory.toList.getLast? = some '/' then directory ++ name else directory ++ "/" ++ name

/-- The most bytes that a name can have. -/
def maxName : Nat := 255

/-- The most bytes that a path can have. -/
def maxLength : Nat := 4095

/-- Nothing can be opened by the path, whatever stands there. -/
def isTooLong (path : String) : Bool := maxLength < path.utf8ByteSize

/-- Names nothing but the directory it stands in. -/
def isIdle (part : String) : Bool := part = "" || part = "."

/-- The parts that name something. -/
def names (path : String) : List String := (parts path).filter fun part => !isIdle part

/-- The last part that names something. -/
def name? (path : String) : Option String := (names path).getLast?

/-- What follows the last point of a name, unless the name begins there. -/
def extension? (path : String) : Option String :=
  match name? path with
  | some name =>
    if name = ".." then none
    else
      let reversed := name.toList.reverse
      match reversed.dropWhile fun c => c ≠ '.' with
      | [] => none
      | [_] => none
      | _ => some (String.ofList (reversed.takeWhile fun c => c ≠ '.').reverse)
  | none => none

/-- A path with one part, named `name`. -/
def isJust (name path : String) : Bool :=
  match parts path with
  | first :: rest => first = name && rest.all isIdle
  | [] => false

end Path

namespace FileNode

def isDirectory : FileNode → Bool
  | .directory _ => true
  | _ => false

/-! ## Finding -/

/-- Walks down the parts of a path; `above` are the directories that
contain the node, the nearest first. -/
def walk? (above : List FileNode) : FileNode → List String → Option FileNode
  | node, [] => some node
  | .directory entries, part :: rest =>
    if Path.isIdle part then walk? above (.directory entries) rest
    else if part = ".." then
      match above with
      | parent :: others => walk? others parent rest
      | [] => none
    else
      match entries.lookup part with
      | some child => walk? (.directory entries :: above) child rest
      | none => none
  | _, _ :: _ => none

/-- A path that stands for nothing in any tree. -/
def isForeign (path : String) : Bool :=
  path.isEmpty || path.toList.head? = some '/' || Path.isTooLong path

def find? (root : FileNode) (path : String) : Option FileNode :=
  if isForeign path then none else walk? [] root (Path.parts path)

/-! ## Planting -/

def setEntry (name : String) (node : FileNode) :
    List (String × FileNode) → List (String × FileNode)
  | [] => [(name, node)]
  | (n, old) :: rest => if n = name then (n, node) :: rest else (n, old) :: setEntry name node rest

/-- Puts a node where the names lead and makes the directories on the
way. A file that stands in the way gives place. -/
def plant (node : FileNode) : List String → FileNode → FileNode
  | [], _ => node
  | name :: rest, .directory entries =>
    let child := plant node rest ((entries.lookup name).getD (.directory []))
    .directory (setEntry name child entries)
  | name :: rest, _ => .directory [(name, plant node rest (.directory []))]

/-! ## Writing -/

/-- The names that lead from the root to a directory; `names` lead to the
one that the parts start from. -/
def locate? (root : FileNode) (names : List String) : List String → Option (List String)
  | [] => some names
  | part :: rest =>
    if Path.isIdle part then locate? root names rest
    else if part = ".." then
      if names.isEmpty then none else locate? root names.dropLast rest
    else
      match walk? [] root (names ++ [part]) with
      | some (.directory _) => locate? root (names ++ [part]) rest
      | _ => none

/-- Puts a file where the names lead; all but the last must be
directories, and the last must not be one. -/
def put? (bytes : ByteArray) : List String → FileNode → Option FileNode
  | [name], .directory entries =>
    match entries.lookup name with
    | some (.directory _) => none
    | _ => some (.directory (setEntry name (.file bytes) entries))
  | name :: rest, .directory entries =>
    match entries.lookup name with
    | some child =>
      match put? bytes rest child with
      | some child => some (.directory (setEntry name child entries))
      | none => none
    | none => none
  | _, _ => none

/-- The tree after a file has been written, in place of an older one, or
`none` if it cannot be. -/
def write? (root : FileNode) (path : String) (bytes : ByteArray) : Option FileNode :=
  if isForeign path then none
  else
    let parts := Path.parts path
    match parts.getLast? with
    | some name =>
      if Path.isIdle name || name = ".." || Path.maxName < name.utf8ByteSize then none
      else
        match locate? root [] parts.dropLast with
        | some names => put? bytes (names ++ [name]) root
        | none => none
    | none => none

end FileNode

end BehaviorScript
