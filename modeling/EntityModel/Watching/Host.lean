import EntityModel.Generation.Generator
import EntityModel.Generation.LockFile
import EntityModel.Workspace.Loading

/-!
# Hosts

A host owns a store and its watchers.  A batch run loads everything, links, and hands a clean model
to the watchers, then brings the lock file up to date.  A watch session follows single files: it
links again on every change and tells the watchers once the model is clean, with all files that have
changed since they were last told, and those that depend on them.
-/

namespace EntityModel

/-! ### Watchers

A watcher is told what every link finds wrong, and which files changed once the model is clean.
What it keeps between the calls is a value that the host carries for it.
-/

structure Watcher (σ : Type) where
  name : String
  /-- Told after every link. -/
  onErrors : DiagnosticsByFile → σ → σ := fun _ kept => kept
  /-- Told after a link without errors; may change the disk, and may fail. -/
  onFilesChanged : Store → List FileId → σ → Disk → σ × Disk × Except GeneratorError Unit
  /-- All outputs that it has produced, for the lock file. -/
  generated : σ → PathSet := fun _ => []

namespace Watcher

/-- A watcher that keeps its value as a part of another one. -/
def within {σ τ : Type} (get : τ → σ) (set : σ → τ → τ) (w : Watcher σ) : Watcher τ where
  name := w.name
  onErrors errors kept := set (w.onErrors errors (get kept)) kept
  onFilesChanged store files kept disk :=
    let (part, disk, result) := w.onFilesChanged store files (get kept) disk
    (set part kept, disk, result)
  generated kept := w.generated (get kept)

end Watcher

/-- The watcher that runs a generator and writes its outputs; it keeps the paths of all of them. -/
def Generator.watcher (g : Generator) : Watcher PathSet where
  name := g.name
  onFilesChanged store files kept disk :=
    match g.run store files with
    | .error e => (kept, disk, .error e)
    | .ok outputs =>
      match Output.writeAll disk outputs with
      | (disk, .error e) => (kept, disk, .error e)
      | (disk, .ok _) => (PathSet.insertAll kept (outputs.map Output.path), disk, .ok ())
  generated kept := kept

/-- What a watcher can be told. -/
inductive Notice
  | errors (diagnostics : DiagnosticsByFile)
  | changed (store : Store) (files : List FileId)
deriving Repr

/-- The watcher that only keeps what it is told. -/
def recorder : Watcher (List Notice) where
  name := "Recorder"
  onErrors diagnostics kept := kept ++ [.errors diagnostics]
  onFilesChanged store files kept disk := (kept ++ [.changed store files], disk, .ok ())

/-! ### What a host keeps -/

inductive HostError
  | load (error : Source.LoadError)
  | link (count : Nat) (errors : DiagnosticsByFile)
  | generator (error : GeneratorError)
  | lockFile (error : LockError)
deriving Repr

def HostError.message : HostError → String
  | load e => e.display
  | link count _ => s!"the model has {count} errors"
  | generator e => e.message
  | lockFile e => e.message

/-- What a batch run has done. -/
structure RunSummary where
  files : Nat
  warnings : Nat
  generated : List Path
  pruned : List Path
deriving Repr, DecidableEq

structure Host (σ : Type) where
  disk : Disk
  store : Store
  mode : LoadMode := .failFast
  /-- The watchers, each with what it keeps. -/
  watchers : List (Watcher σ × σ) := []
  /-- The files changed since the watchers were last told. -/
  pending : List FileId := []

/-! ### Dependents -/

/-- Uses a file or aliases it. -/
def ModelFile.dependsOn (f : ModelFile) (id : FileId) : Bool :=
  f.uses.any (·.target == some id) || f.aliases.any (·.file.target == some id)

namespace Model

/-- Adds the dependents of the files from `index` on, each file once. -/
def addDependents (m : Model) : Nat → Nat → List FileId → List FileId
  | 0, _, found => found
  | fuel + 1, index, found =>
    match found[index]? with
    | none => found
    | some id =>
      let further := m.files.filter fun f => f.dependsOn id && !found.contains f.id
      addDependents m fuel (index + 1) (found ++ further.map (·.id))

/-- A file and all that depend on it, directly or not. -/
def withDependents (m : Model) (id : FileId) : List FileId :=
  m.addDependents (m.files.length + 2) 0 [id]

end Model

namespace Host

variable {σ : Type}

/-- A new host for settings, on a disk. -/
def new (settings : Settings) (disk : Disk) (watchers : List (Watcher σ × σ)) : Host σ :=
  { disk, store := { settings }, watchers }

def root (h : Host σ) : Path := h.store.settings.modelRoot

/-- Ids as a set in ascending order. -/
def idSet (ids : List FileId) : List FileId := firstOccurrences (FileId.sort ids)

/-! ### Telling the watchers -/

def publishErrors (h : Host σ) : Host σ :=
  { h with watchers := h.watchers.map fun (w, kept) => (w, w.onErrors h.store.diagnostics kept) }

/-- Tells the watchers in turn, up to the first that fails. -/
def tellAll (store : Store) (files : List FileId) :
    List (Watcher σ × σ) → Disk → List (Watcher σ × σ) × Disk × Except GeneratorError Unit
  | [], disk => ([], disk, .ok ())
  | (w, kept) :: rest, disk =>
    match w.onFilesChanged store files kept disk with
    | (kept, disk, .error e) => ((w, kept) :: rest, disk, .error e)
    | (kept, disk, .ok ()) =>
      let (rest, disk, result) := tellAll store files rest disk
      ((w, kept) :: rest, disk, result)

def tell (h : Host σ) (files : List FileId) : Host σ × Except HostError Unit :=
  let (watchers, disk, result) := tellAll h.store files h.watchers h.disk
  ({ h with watchers, disk }, result.mapError .generator)

/-- Links the store and publishes what is wrong. -/
def link (h : Host σ) : Host σ × LinkReport :=
  let (store, report) := h.store.link
  (publishErrors { h with store }, report)

/-! ### Batch runs -/

def generated (h : Host σ) : List Path := h.watchers.flatMap fun (w, kept) => w.generated kept

/-- Deletes what the last run produced and this one did not, and writes the new lock file. -/
def updateLock (h : Host σ) : Host σ × Except HostError (List Path) :=
  let path := h.store.settings.lockPath
  let lock := LockFile.ofPaths h.root h.generated
  match LockFile.read h.disk path with
  | .error e => (h, .error (.lockFile e))
  | .ok previous =>
    let (pruning, result) : LockFile.Pruning × Except LockError Unit :=
      match previous with
      | none => ({ disk := h.disk }, .ok ())
      | some previous => lock.prune previous h.root h.disk
    let h := { h with disk := pruning.disk }
    match result with
    | .error e => (h, .error (.lockFile e))
    | .ok () =>
      match lock.write h.disk path with
      | .error e => (h, .error (.lockFile e))
      | .ok disk => ({ h with disk }, .ok pruning.deleted)

/-- Generates from the linked model, whose link gave `report`. -/
def generate (h : Host σ) (files : Nat) (report : LinkReport) :
    Host σ × Except HostError RunSummary :=
  match h.tell (h.store.model.files.map (·.id)) with
  | (h, .error e) => (h, .error e)
  | (h, .ok ()) =>
    match h.updateLock with
    | (h, .error e) => (h, .error e)
    | (h, .ok pruned) =>
      (h, .ok { files, warnings := report.warnings, generated := h.generated, pruned })

/-- Loads every file, links, generates, and updates the lock file. -/
def run (h : Host σ) : Host σ × Except HostError RunSummary :=
  let (store, loaded) := Workspace.loadAll .failFast h.store h.disk
  let h := { h with mode := .failFast, store }
  match loaded with
  | .error e => (h, .error (.load e))
  | .ok files =>
    let (h, report) := h.link
    if report.isOk then h.generate files report
    else (h, .error (.link report.errors h.store.diagnostics))

/-! ### Watch sessions -/

/-- The linked files that the pending ones touch, in order. -/
def affected (h : Host σ) : List FileId :=
  idSet ((h.pending.flatMap h.store.model.withDependents).filter fun id =>
    (h.store.model.file? id).isSome)

/-- Links again, and tells the watchers if the model is clean and something is pending. -/
def relink (h : Host σ) (changed : List FileId) : Host σ × Except HostError Unit :=
  let (h, report) := link { h with pending := idSet (h.pending ++ changed) }
  if !report.isOk || h.pending.isEmpty then (h, .ok ())
  else
    match h.tell h.affected with
    | (h, .error e) => (h, .error e)
    | (h, .ok ()) => ({ h with pending := [] }, .ok ())

/-- Starts a watch session with the files that there are. -/
def startWatch (h : Host σ) : Host σ × Except HostError Unit :=
  let (store, loaded) := Workspace.loadAll .collect h.store h.disk
  let h := { h with mode := .collect, store }
  match loaded with
  | .error e => (h, .error (.load e))
  | .ok _ => h.relink store.loadedIds

/-- A file was written. -/
def fileChanged (h : Host σ) (path : Path) : Host σ × Except HostError Unit :=
  match Workspace.fileName? h.store.settings path with
  | none => (h, .ok ())
  | some name =>
    let (store, loaded) := Workspace.loadOne h.mode h.store h.disk path
    let h := { h with store }
    match loaded with
    | .error e => (h, .error (.load e))
    | .ok () =>
      let (store, id) := h.store.intern name
      relink { h with store } [id]

/-- A file was deleted.  Its dependents are known from the link before. -/
def fileRemoved (h : Host σ) (path : Path) : Host σ × Except HostError Unit :=
  match (Workspace.fileName? h.store.settings path).bind h.store.registry.get? with
  | none => (h, .ok ())
  | some id =>
    let dependents := (h.store.model.withDependents id).filter (· != id)
    relink { h with pending := h.pending.filter (· != id), store := h.store.removeFile id }
      dependents

end Host

end EntityModel
