import EntityModel.Disk.Basic
import EntityModel.Naming.Type
import EntityModel.Store.Basic

/-!
# Generators

A generator makes one output for each file and each of its tags that the file carries.  Where two of
them go to one path, only the first is made.  Outputs are made before any of them is written, so a
generator that fails has written nothing.
-/

namespace EntityModel

inductive GeneratorError
  | missingImplementations (generator language : String) (domains : List String)
  | render (generator file reason : String)
  | unwritable (path : Path) (error : DiskError)
deriving Repr

def GeneratorError.message : GeneratorError → String
  | missingImplementations generator language domains =>
    s!"generator '{generator}' needs a '{language}' implementation for domains: "
      ++ ", ".intercalate domains
  | render generator file reason => s!"generator '{generator}' failed on {file}: {reason}"
  | unwritable path error => s!"cannot write {path.text}: {error.message}"

structure Generator where
  name : String
  tags : List String
  /-- The language that the domains of all generated files have to be written in. -/
  language : Option String := none
  /-- Where the output for a file and a tag goes, if there is one. -/
  outputPath : Store → ModelFile → String → Option Path
  render : Store → ModelFile → String → Except GeneratorError String

structure Output where
  path : Path
  content : String
  file : FileId
  tag : String
deriving Repr, DecidableEq

/-- An output that is still to be made. -/
structure Job where
  path : Path
  file : ModelFile
  tag : String
deriving Repr, DecidableEq

namespace Generator

variable (g : Generator)

/-- The files with one of the tags, out of those with the given ids; no ids stand for all files. -/
def selected (s : Store) (ids : List FileId) : List ModelFile :=
  let files := if ids.isEmpty then s.model.files else ids.filterMap s.model.file?
  files.filter fun f => g.tags.any f.hasTag

/-- The domains that a property is made of: its own, and the one at the end of its chain. -/
def domainsOf (m : Model) (p : Property) : List Domain :=
  [m.effectiveDomain p.id, (m.leafProperty p.id).bind m.baseDomain].filterMap fun d =>
    d.bind m.domain?

/-- The names of the domains that the files need and the language lacks, in order. -/
def missingDomains (m : Model) (language : String) (files : List ModelFile) : List String :=
  let needed := files.flatMap fun f => f.properties.flatMap (domainsOf m)
  let missing := needed.filter fun d => (d.implementations.lookup language).isNone
  (firstOccurrences (missing.map (·.name.value))).mergeSort fun a b => (compare a b).isLE

def checkLanguage (m : Model) (files : List ModelFile) : Except GeneratorError Unit :=
  match g.language with
  | none => .ok ()
  | some language =>
    match missingDomains m language files with
    | [] => .ok ()
    | domains => .error (.missingImplementations g.name language domains)

/-- The jobs of a file, one for each tag. -/
def jobsOf (s : Store) (f : ModelFile) : List Job :=
  (g.tags.filter f.hasTag).filterMap fun tag => (g.outputPath s f tag).map fun path =>
    ⟨path, f, tag⟩

/-- The first job for each path. -/
def firstByPath : List Job → List Job
  | [] => []
  | j :: rest => j :: (firstByPath rest).filter fun k => !k.path.same j.path

def make (s : Store) (j : Job) : Except GeneratorError Output := do
  let content ← g.render s j.file j.tag
  return { path := j.path, content, file := j.file.id, tag := j.tag }

/-- The outputs for the files with the given ids, in the order of files and tags. -/
def run (s : Store) (ids : List FileId) : Except GeneratorError (List Output) := do
  let files := g.selected s ids
  g.checkLanguage s.model files
  (firstByPath (files.flatMap (g.jobsOf s))).mapM (g.make s)

end Generator

/-! ### Writing outputs -/

namespace Output

/-- Writes one output and the directories above it. -/
def writeFile (d : Disk) (o : Output) : Disk × Except GeneratorError Unit :=
  let fail (d : Disk) (e : DiskError) : Disk × Except GeneratorError Unit :=
    (d, .error (.unwritable o.path e))
  let (d, made) :=
    match o.path.parent? with
    | some parent => d.createAll parent
    | none => (d, .ok ())
  match made with
  | .error e => fail d e
  | .ok () =>
    match d.write o.path (.text o.content) with
    | .error e => fail d e
    | .ok d => (d, .ok ())

/-- The file has this content already. -/
def isCurrent (d : Disk) (o : Output) : Bool :=
  match d.read o.path with
  | .ok text => text == o.content
  | .error _ => false

/-- Writes the outputs that are not current, up to the first that cannot be written; answers the
paths written. -/
def writeAll (d : Disk) : List Output → Disk × Except GeneratorError (List Path)
  | [] => (d, .ok [])
  | o :: rest =>
    if o.isCurrent d then writeAll d rest
    else
      match o.writeFile d with
      | (d, .error e) => (d, .error e)
      | (d, .ok ()) =>
        match writeAll d rest with
        | (d, .error e) => (d, .error e)
        | (d, .ok paths) => (d, .ok (o.path :: paths))

end Output

end EntityModel
