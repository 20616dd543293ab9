import EntityModel.Linking.Link
import EntityModel.Loading.File
import EntityModel.Settings.Basic
import EntityModel.Source.Registry

/-!
# Stores

A store holds the files of a model as they were loaded, apart from the model last linked from them.
Changes show after the next link, which starts from the loaded files alone.  A file that failed to
load has no content; its error is reported by the link.
-/

namespace EntityModel

/-- What a link amounts to.  Suppressed warnings count. -/
structure LinkReport where
  files : Nat
  classes : Nat
  errors : Nat
  warnings : Nat
deriving Repr, DecidableEq

def LinkReport.isOk (r : LinkReport) : Bool := r.errors == 0

structure Store where
  settings : Settings := {}
  registry : FileRegistry := {}
  /-- The files as loaded. -/
  drafts : FileTable ModelFile := []
  /-- Why the files that did not load did not. -/
  failures : FileTable Source.LoadError := []
  /-- The model last linked. -/
  model : Model := ⟨[]⟩
  /-- What the last link found. -/
  diagnostics : DiagnosticsByFile := []
  /-- Something changed since the last link. -/
  dirty : Bool := false
deriving Repr

namespace Store

def naming (s : Store) : NamingRules := s.settings.naming

/-! ### Files -/

def intern (s : Store) (name : String) : Store × FileId :=
  let (registry, id) := s.registry.intern name
  ({ s with registry }, id)

/-- Puts a loaded file in place of what was there. -/
def insertFile (s : Store) (f : ModelFile) : Store :=
  { s with failures := s.failures.erase f.id, drafts := s.drafts.insert f.id f, dirty := true }

/-- There is a file or an error under the id. -/
def holds (s : Store) (id : FileId) : Bool := s.drafts.contains id || s.failures.contains id

def removeFile (s : Store) (id : FileId) : Store :=
  { s with
    drafts := s.drafts.erase id, failures := s.failures.erase id, dirty := s.dirty || s.holds id }

/-- Notes why a file does not load; what it held before is gone. -/
def setFailure (s : Store) (id : FileId) (error : Source.LoadError) : Store :=
  { s with drafts := s.drafts.erase id, failures := s.failures.insert id error, dirty := true }

/-- Puts what loading made of a file under its id: an empty file is no file. -/
def putLoaded (s : Store) (id : FileId) : Option ModelFile → Store
  | some f => s.insertFile f
  | none => s.removeFile id

/-- Loads a file from its text.  On an error the file stays as it was. -/
def loadFile (s : Store) (name source : String) : Store × Except Source.LoadError (Option FileId) :=
  let (s, id) := s.intern name
  match ModelFile.load id name source s.settings.app s.naming with
  | .error e => (s, .error e)
  | .ok file => (s.putLoaded id file, .ok (file.map fun _ => id))

/-- The files loaded or failed, by id. -/
def loadedIds (s : Store) : List FileId := FileId.sort (s.drafts.keys ++ s.failures.keys)

/-! ### Linking -/

/-- A file that failed to load, reported at its error or at its start. -/
def failureProblem (id : FileId) (error : Source.LoadError) : Diagnostic :=
  { problem := .invalidFile error, location := error.location.getD (.point id 0 0) }

/-- The linked model and all that is wrong, failures of loading first. -/
def linked (s : Store) : Linked :=
  let linked := Model.link ⟨s.drafts.values⟩ s.naming
  { linked with problems := s.failures.map (fun (id, e) => failureProblem id e) ++ linked.problems }

def link (s : Store) : Store × LinkReport :=
  let linked := s.linked
  let report : LinkReport :=
    { files := linked.model.files.length
      classes := linked.model.classes.length
      errors := Diagnostics.errorCount linked.problems
      warnings := Diagnostics.warningCount linked.problems }
  ({ s with
      model := linked.model
      diagnostics := Diagnostics.byFile s.settings.suppressed linked.problems
      dirty := false },
    report)

def problemsOf (s : Store) (id : FileId) : List Diagnostic := (s.diagnostics.get? id).getD []

def hasErrors (s : Store) : Bool := s.diagnostics.all.any Diagnostic.isError

/-- The linked file of a name. -/
def fileNamed? (s : Store) (name : String) : Option ModelFile := do
  s.model.file? (← s.registry.get? name)

end Store

end EntityModel
