import EntityModel.Disk.Basic
import EntityModel.Store.Basic
import EntityModel.Workspace.FileName

/-!
# Loading model files from a disk

The model files are those below the model root, in the order of a walk.  A batch run stops at the
first file that does not load; a watch session notes it in the store and goes on.
-/

namespace EntityModel

/-- What a file that does not load means. -/
inductive LoadMode
  /-- Loading stops there. -/
  | failFast
  /-- The store keeps the error. -/
  | collect
deriving Repr, DecidableEq

/-- A model file that was found, and the name that it goes by. -/
structure FoundFile where
  name : String
  path : Path
deriving Repr, DecidableEq

namespace Workspace

/-- The model files below a root but for those ignored. -/
def collectFiles (d : Disk) (root : Path) (ignored : List String) : List FoundFile :=
  match d.locate root with
  | .error _ => []
  | .ok place =>
    (d.filesBelow place).filterMap fun names => do
      let path := names.foldl (fun p name => p.join ⟨name⟩) root
      let name ← root.modelFileName? path
      if ignored.contains name then none else return { name, path }

/-- The name of a model file that settings do not ignore. -/
def fileName? (s : Settings) (path : Path) : Option String := do
  let name ← s.modelRoot.modelFileName? path
  if s.isIgnored name then none else return name

/-- The model files of settings; the model root has to be there. -/
def collect (s : Settings) (d : Disk) : Except Source.LoadError (List FoundFile) :=
  if d.isDirectory s.modelRoot then .ok (collectFiles d s.modelRoot s.ignoredFiles)
  else .error ⟨.rootNotFound, s.modelRoot.text, none⟩

/-- What a file on a disk holds. -/
def readFile (s : Settings) (d : Disk) (id : FileId) (f : FoundFile) :
    Except Source.LoadError (Option ModelFile) :=
  match d.read f.path with
  | .error e => .error ⟨.unreadable e.message, f.name, none⟩
  | .ok source => do
    let file ← ModelFile.load id f.name source s.app s.naming
    return file.map fun file => { file with path := some f.path }

/-- Takes what reading a file gave into the store; tells whether there was something in it. -/
def take (mode : LoadMode) (s : Store) (id : FileId) :
    Except Source.LoadError (Option ModelFile) → Store × Except Source.LoadError Bool
  | .ok file => (s.putLoaded id file, .ok file.isSome)
  | .error e =>
    match mode with
    | .failFast => (s, .error e)
    | .collect => (s.setFailure id e, .ok false)

/-- The files with their ids, dealt out in order. -/
def internAll : Store → List FoundFile → Store × List (FileId × FoundFile)
  | s, [] => (s, [])
  | s, f :: rest =>
    let (s, id) := s.intern f.name
    let (s, jobs) := internAll s rest
    (s, (id, f) :: jobs)

/-- Takes the files in turn; counts those that hold something. -/
def takeAll (mode : LoadMode) (d : Disk) :
    Store → List (FileId × FoundFile) → Nat → Store × Except Source.LoadError Nat
  | s, [], count => (s, .ok count)
  | s, (id, f) :: rest, count =>
    match take mode s id (readFile s.settings d id f) with
    | (s, .error e) => (s, .error e)
    | (s, .ok held) => takeAll mode d s rest (if held then count + 1 else count)

/-- Loads all model files; ids are dealt out before any file is read. -/
def loadAll (mode : LoadMode) (s : Store) (d : Disk) : Store × Except Source.LoadError Nat :=
  match collect s.settings d with
  | .error e => (s, .error e)
  | .ok found =>
    let (s, jobs) := internAll s found
    takeAll mode d s jobs 0

/-- Loads one file again, if it is a model file. -/
def loadOne (mode : LoadMode) (s : Store) (d : Disk) (path : Path) :
    Store × Except Source.LoadError Unit :=
  match fileName? s.settings path with
  | none => (s, .ok ())
  | some name =>
    let (s, id) := s.intern name
    match take mode s id (readFile s.settings d id { name, path }) with
    | (s, .error e) => (s, .error e)
    | (s, .ok _) => (s, .ok ())

end Workspace

end EntityModel
