import EntityModel.Disk.Basic
import EntityModel.Path.Basic
import EntityModel.Yaml.Record
import EntityModel.Yaml.Written

/-!
# Lock files

A lock file lists the outputs of a run, relative to the model root.  The next run deletes those that
it does not produce itself; an entry that is not written as this module writes entries is left
alone.
-/

namespace EntityModel

structure LockFile where
  version : String := ""
  files : List String := []
deriving Repr, DecidableEq

inductive LockError
  | unavailable (path : Path) (error : DiskError)
  | invalid (path : Path) (error : Yaml.RecordError)
deriving Repr

def LockError.message : LockError → String
  | unavailable path error => s!"cannot access lock file {path.text}: {error.message}"
  | invalid path error => s!"invalid lock file {path.text}: {error.message}"

namespace LockFile

/-- The version that writes lock files. -/
def currentVersion : String := "0.1.0"

/-- Without repetitions of neighbours. -/
def dropRepeated : List String → List String
  | a :: b :: rest => if a == b then dropRepeated (b :: rest) else a :: dropRepeated (b :: rest)
  | rest => rest

/-- The lock of a run that produced these paths. -/
def ofPaths (root : Path) (generated : List Path) : LockFile where
  version := currentVersion
  files := dropRepeated ((generated.map root.relativeName).mergeSort fun a b => (compare a b).isLE)

/-- The files of an earlier lock that this one has no more. -/
def staleFiles (lock previous : LockFile) : List String :=
  previous.files.filter fun f => !lock.files.contains f

/-! ### Text -/

def text (lock : LockFile) : String :=
  let files :=
    if lock.files.isEmpty then "generatedFiles: []\n"
    else "generatedFiles:\n" ++ String.join (lock.files.map fun f => "- " ++ Yaml.Written.line f)
  "version: " ++ Yaml.Written.line lock.version ++ files

def fields : List (Yaml.RecordField LockFile) := [
  { name := "version"
    decode := fun path lock => do
      return { lock with version := ← Yaml.Decode.string "a string" path } },
  { name := "generatedFiles"
    decode := fun path lock => do
      return { lock with files := ← Yaml.Decode.list (Yaml.Decode.string "a string") path } }]

def parse (text : String) : Except Yaml.RecordError LockFile :=
  Yaml.decodeText (Yaml.Decode.record "LockFile" fields ["version"] {}) text

/-! ### On a disk -/

/-- The lock at a path, if there is a file. -/
def read (d : Disk) (path : Path) : Except LockError (Option LockFile) :=
  match d.read path with
  | .error .noEntry => .ok none
  | .error e => .error (.unavailable path e)
  | .ok text =>
    match parse text with
    | .error e => .error (.invalid path e)
    | .ok lock => .ok (some lock)

def write (lock : LockFile) (d : Disk) (path : Path) : Except LockError Disk :=
  match d.write path (.text lock.text) with
  | .error e => .error (.unavailable path e)
  | .ok d => .ok d

/-- What pruning has come to: the disk, and the paths deleted. -/
structure Pruning where
  disk : Disk
  deleted : List Path := []
deriving Repr

/-- Deletes the file of one entry; there may be none. -/
def pruneEntry (root : Path) (p : Pruning) (entry : String) : Pruning × Except LockError Unit :=
  match root.resolveEntry entry with
  | none => (p, .ok ())
  | some path =>
    match p.disk.delete path with
    | .ok disk => ({ disk, deleted := p.deleted ++ [path] }, .ok ())
    | .error .noEntry => (p, .ok ())
    | .error e => (p, .error (.unavailable path e))

/-- Deletes the files of the entries in turn, up to the first that cannot be deleted. -/
def pruneEntries (root : Path) : Pruning → List String → Pruning × Except LockError Unit
  | p, [] => (p, .ok ())
  | p, entry :: rest =>
    match pruneEntry root p entry with
    | (p, .ok ()) => pruneEntries root p rest
    | (p, .error e) => (p, .error e)

/-- Deletes the files of an earlier lock that this one has no more. -/
def prune (lock previous : LockFile) (root : Path) (d : Disk) : Pruning × Except LockError Unit :=
  pruneEntries root { disk := d } (lock.staleFiles previous)

end LockFile

end EntityModel
