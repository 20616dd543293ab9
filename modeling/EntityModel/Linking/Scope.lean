import EntityModel.Diagnostics.Diagnostic
import EntityModel.Linking.Uses
import EntityModel.Model.Basic

/-!
# Scopes

Domains are seen everywhere.  Classes and decorators are seen from a file: its own first, then the
classes that its aliases bring in, then those of the files it uses, in order of the uses.  A scope
is the list of what is seen, in this order, and the first of a name is the one that is meant.
-/

namespace EntityModel.Linking

/-! ### Aliases of files

An alias document brings in classes and endpoints of another file: those that it names, or all of
them if it names neither kind.
-/

def findClass (f : ModelFile) (name : String) : Option ClassId :=
  (f.classes.find? (·.name.value == name)).map (·.id)

def findEndpoint (f : ModelFile) (name : String) : Option EndpointId :=
  (f.endpoints.find? (·.name.value == name)).map (·.id)

/-- A reference with what a look-up by name finds for it. -/
def resolveBy {α : Type} (find : String → Option α) (r : Reference α) : Reference α :=
  match find r.text with
  | some target => r.resolve target
  | none => r

/-- The alias with its file, and what it names looked up in that file. -/
def resolveAlias (m : Model) (a : Alias) : Alias :=
  match m.fileNamed? a.file.text with
  | none => a
  | some f =>
    { a with
      file := a.file.resolve f.id
      classes := a.classes.map fun rs => rs.map (resolveBy (findClass f))
      endpoints := a.endpoints.map fun rs => rs.map (resolveBy (findEndpoint f)) }

/-- What a resolved alias brings in: classes before endpoints. -/
def aliasedEntities (m : Model) (a : Alias) : List AliasedEntity :=
  match a.file.target.bind m.file? with
  | none => []
  | some f =>
    let all :=
      if a.isWildcard then f.classes.map (.cls ·.id) ++ f.endpoints.map (.endpoint ·.id) else []
    all ++ (a.classes.getD []).filterMap (fun r => r.target.map .cls)
      ++ (a.endpoints.getD []).filterMap (fun r => r.target.map .endpoint)

def resolveFileAliases (m : Model) : Model :=
  m.mapFiles fun f =>
    let aliases := f.aliases.map (resolveAlias m)
    let found := aliases.flatMap fun a =>
      (aliasedEntities m a).map fun entity => { aliasId := a.id, entity, location := a.location }
    { f with aliases, resolvedAliases := f.resolvedAliases ++ found }

def aliasProblems (a : Alias) : List Diagnostic :=
  match a.file.target with
  | none => [{ problem := .fileNotFound a.file.text, location := a.file.location }]
  | some _ =>
    let classes := (a.classes.getD []).filter (·.target.isNone)
    let endpoints := (a.endpoints.getD []).filter (·.target.isNone)
    (classes.map fun r => { problem := .classNotInFile r.text a.file.text, location := r.location })
      ++ endpoints.map fun r =>
        { problem := .endpointNotInFile r.text a.file.text, location := r.location }

def fileAliasProblems (m : Model) : List Diagnostic :=
  m.files.flatMap fun f => f.aliases.flatMap aliasProblems

/-! ### What is seen from a file -/

/-- By which way a name is seen. -/
inductive Origin
  | own
  /-- Through one of the uses of the file. -/
  | use (index : Nat)
deriving Repr, DecidableEq

/-- Something seen under a name. -/
structure Visible (α : Type) where
  name : String
  target : α
  origin : Origin
deriving Repr, DecidableEq

structure Scope where
  classes : List (Visible ClassId)
  decorators : List (Visible DecoratorId)
deriving Repr, DecidableEq

/-- The first thing seen under a name. -/
def firstVisible {α : Type} (seen : List (Visible α)) (name : String) : Option (Visible α) :=
  seen.find? (·.name == name)

def visibleClass (origin : Origin) (c : Class) : Visible ClassId := ⟨c.name.value, c.id, origin⟩

def visibleDecorator (origin : Origin) (d : Decorator) : Visible DecoratorId :=
  ⟨d.name.value, d.id, origin⟩

/-- The files that a file uses, with the place of the use. -/
def usedFiles (m : Model) (f : ModelFile) : List (Nat × ModelFile) :=
  f.uses.zipIdx.filterMap fun (use, index) => (use.target.bind m.file?).map (index, ·)

def scopeOf (m : Model) (f : ModelFile) : Scope where
  classes :=
    f.classes.map (visibleClass .own)
      ++ (f.aliasedClasses.filterMap m.cls?).map (visibleClass .own)
      ++ (usedFiles m f).flatMap fun (index, used) => used.classes.map (visibleClass (.use index))
  decorators :=
    f.decorators.map (visibleDecorator .own)
      ++ (usedFiles m f).flatMap fun (index, used) =>
        used.decorators.map (visibleDecorator (.use index))

namespace Scope

def findClass (s : Scope) (name : String) : Option ClassId :=
  (firstVisible s.classes name).map (·.target)

def findDecorator (s : Scope) (name : String) : Option DecoratorId :=
  (firstVisible s.decorators name).map (·.target)

end Scope

end EntityModel.Linking
