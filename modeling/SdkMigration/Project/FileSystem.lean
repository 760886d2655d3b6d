import SdkMigration.Project.Path
import SdkMigration.Text.Utf8

/-!
# File systems

A file system holds files, directories and links by the keys of their paths,
in the order of the keys.  Every access may fail, by the nature of what it
finds or because a fault is set for it; a fault comes before everything else.

What is written is recorded, so that a run can be told from its traces.
-/

namespace SdkMigration

/-- The kinds of failure that are told apart. -/
inductive FailureKind where
  | notFound
  | permissionDenied
  | invalidData
  | other
deriving DecidableEq, Repr

/-- The failure of an access. -/
structure Failure where
  kind : FailureKind
  message : String
deriving DecidableEq, Repr

/-- What a path names. -/
inductive Node where
  | text (content : Text)
  | bytes (content : List Nat)
  | directory
  | link
deriving DecidableEq, Repr

/-- The accesses that a fault can be set for. -/
inductive Access where
  | read
  | write
  | list
  /-- Meeting an entry while listing its directory. -/
  | entry
  /-- Asking an entry what it is. -/
  | entryType
deriving DecidableEq, Repr

/-- A fault for an access to a path as it is written. -/
structure Fault where
  path : Path
  access : Access
  failure : Failure
deriving DecidableEq, Repr

/-- A file system. -/
structure FileSystem where
  /-- What there is, in the order of the keys. -/
  nodes : List (PathKey × Node) := []
  faults : List Fault := []
  /-- What was written, in order. -/
  written : List (Path × Text) := []

/-- What a directory holds under a name. -/
structure DirectoryEntry where
  name : Text
  path : Path
  node : Node
deriving DecidableEq, Repr

namespace FileSystem

/-- The fault for an access. -/
def fault? (files : FileSystem) (path : Path) (access : Access) : Option Failure :=
  (files.faults.find? fun fault => fault.path == path && fault.access == access).map (·.failure)

/-- What is at a key. -/
def node? (files : FileSystem) (key : PathKey) : Option Node := files.nodes.lookup key

/-! ## Changing -/

/-- Puts a node at its place in the order of the keys. -/
def putNode (key : PathKey) (node : Node) : List (PathKey × Node) → List (PathKey × Node)
  | [] => [(key, node)]
  | (found, old) :: rest =>
    if found = key then (key, node) :: rest
    else if PathKey.before key found then (key, node) :: (found, old) :: rest
    else (found, old) :: putNode key node rest

/-- Makes the directories of a key that are not there yet, `parent` being the
part of the key above `rest`. -/
def makeParents (files : FileSystem) (parent : PathKey) : PathKey → FileSystem
  | [] => files
  | [_] => files
  | component :: rest =>
    let directory := parent ++ [component]
    let present := (files.node? directory).isSome
    let made :=
      if present then files
      else { files with nodes := putNode directory .directory files.nodes }
    makeParents made directory rest

/-- Puts a node at a path and makes the directories above it. -/
def put (files : FileSystem) (path : Path) (node : Node) : FileSystem :=
  let ready := files.makeParents [] path.key
  { ready with nodes := putNode path.key node ready.nodes }

/-- Takes away what is at a path. -/
def remove (files : FileSystem) (path : Path) : FileSystem :=
  { files with nodes := files.nodes.filter fun entry => entry.1 != path.key }

/-! ## Access -/

/-- Reads a file as text. -/
def readText (files : FileSystem) (path : Path) : Except Failure Text :=
  match files.fault? path .read with
  | some failure => .error failure
  | none =>
    match files.node? path.key with
    | some (.text content) => .ok content
    | some (.bytes content) =>
      match Utf8.decode content with
      | .ok text => .ok text
      | .error error => .error ⟨.invalidData, error.message⟩
    | some _ => .error ⟨.other, "not a file"⟩
    | none => .error ⟨.notFound, "not found"⟩

/-- Writes a file. -/
def writeText (files : FileSystem) (path : Path) (content : Text) :
    Except Failure FileSystem :=
  match files.fault? path .write with
  | some failure => .error failure
  | none =>
    .ok
      { files with
        nodes := putNode path.key (.text content) files.nodes
        written := files.written ++ [(path, content)] }

/-- The name under which a directory holds a key directly. -/
def childName? (directory key : PathKey) : Option Text :=
  if key.length = directory.length + 1 ∧ directory.isPrefixOf key then
    match key.getLast? with
    | some (.name text) => some text
    | _ => none
  else none

/-- Lists what a directory holds directly. -/
def list (files : FileSystem) (path : Path) : Except Failure (List DirectoryEntry) :=
  match files.fault? path .list with
  | some failure => .error failure
  | none =>
    match files.node? path.key with
    | some .directory =>
      .ok (files.nodes.filterMap fun (key, node) =>
        (childName? path.key key).map fun name => ⟨name, path.join name, node⟩)
    | some _ => .error ⟨.other, "not a directory"⟩
    | none => .error ⟨.notFound, "not found"⟩

end FileSystem

end SdkMigration
