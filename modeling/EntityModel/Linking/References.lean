import EntityModel.Linking.Scope
import EntityModel.Model.Query

/-!
# References to classes, decorators and domains

Every such reference is looked up by its name; those that find nothing are reported in the order in
which they stand in the model.
-/

namespace EntityModel.Linking

def findDomain (m : Model) (name : String) : Option DomainId := (m.domainNamed? name).map (·.id)

/-! ### Resolving -/

/-- A property with its references resolved by the two look-ups. -/
def resolveKind (cls : String → Option ClassId) (domain : String → Option DomainId) :
    PropertyKind → PropertyKind
  | .regular p => .regular { p with domain := resolveBy domain p.domain }
  | .association p => .association { p with association := resolveBy cls p.association }
  | .composition p =>
    .composition { p with
      composition := resolveBy cls p.composition
      domain := p.domain.map (resolveBy domain) }
  | .propertyAlias p => .propertyAlias { p with cls := resolveBy cls p.cls }

def resolveUsage (decorator : String → Option DecoratorId) (u : DecoratorUsage) : DecoratorUsage :=
  { u with decorator := resolveBy decorator u.decorator }

def resolveDomains (domain : String → Option DomainId) (f : ModelFile) : ModelFile :=
  { f with
    domains := f.domains.map fun d =>
      { d with asDomains := d.asDomains.map fun (word, r) => (word, resolveBy domain r) } }

def resolveClassHeads (s : Scope) (f : ModelFile) : ModelFile :=
  f.mapClasses fun c =>
    { c with
      parent := c.parent.map (resolveBy s.findClass)
      decorators := c.decorators.map (resolveUsage s.findDecorator) }

/-- Resolves the references of one file. -/
def resolveReferencesOf (m : Model) (f : ModelFile) : ModelFile :=
  let s := scopeOf m f
  let property (p : Property) : Property :=
    { p with kind := resolveKind s.findClass (findDomain m) p.kind }
  (resolveClassHeads s (resolveDomains (findDomain m) f)).mapProperties property

def resolveReferences (m : Model) : Model := m.mapFiles (resolveReferencesOf m)

/-! ### The references of a file -/

/-- A reference to a class, a decorator or a domain. -/
inductive EntityReference
  | cls (r : ClassReference)
  | decorator (r : DecoratorReference)
  | domain (r : DomainReference)
deriving Repr, DecidableEq

namespace EntityReference

def isResolved : EntityReference → Bool
  | cls r => r.target.isSome
  | decorator r => r.target.isSome
  | domain r => r.target.isSome

/-- What is reported where the reference finds nothing. -/
def problem : EntityReference → Diagnostic
  | cls r => { problem := .classNotFound r.text, location := r.location }
  | decorator r => { problem := .decoratorNotFound r.text, location := r.location }
  | domain r => { problem := .domainNotFound r.text, location := r.location }

end EntityReference

def propertyReferences (p : Property) : List EntityReference :=
  match p.kind with
  | .regular p => [.domain p.domain]
  | .association p => [.cls p.association]
  | .composition p => .cls p.composition :: (p.domain.toList.map .domain)
  | .propertyAlias p => [.cls p.cls]

def classReferences (c : Class) : List EntityReference :=
  c.parent.toList.map .cls ++ c.decorators.map (fun u => .decorator u.decorator)
    ++ c.properties.flatMap propertyReferences

/-- The references of a file in order: of domains, decorators, classes and endpoints. -/
def fileReferences (f : ModelFile) : List EntityReference :=
  f.domains.flatMap (fun d => d.asDomains.map fun (_, r) => .domain r)
    ++ f.decorators.flatMap (fun d => d.properties.flatMap propertyReferences)
    ++ f.classes.flatMap classReferences
    ++ f.endpoints.flatMap fun e => e.properties.flatMap propertyReferences

def referenceProblems (m : Model) : List Diagnostic :=
  m.files.flatMap fun f =>
    ((fileReferences f).filter fun r => !r.isResolved).map EntityReference.problem

/-! ### Inheritance -/

def inheritanceCycles (m : Model) : List Diagnostic :=
  m.classes.filterMap fun c => do
    let parent ← c.parent
    if m.inheritsFromItself c.id then
      return { problem := .inheritsFromItself c.name.value, location := parent.location }
    else none

/-! ### Uses that are not needed -/

/-- A use is needed if a reference of the file finds its target through it. -/
def isUseNeeded (s : Scope) (references : List EntityReference) (index : Nat) : Bool :=
  references.any fun
    | .cls r => (firstVisible s.classes r.text).any (·.origin == .use index)
    | .decorator r => (firstVisible s.decorators r.text).any (·.origin == .use index)
    | .domain _ => false

/-- The resolved uses of a file that no reference needs. -/
def uselessUses (m : Model) (f : ModelFile) : List FileReference :=
  let s := scopeOf m f
  let references := fileReferences f
  (f.uses.zipIdx.filter fun (use, index) => use.target.isSome
    && !isUseNeeded s references index).map Prod.fst

def noteUselessUses (m : Model) : Model :=
  m.mapFiles fun f => { f with uselessImports := uselessUses m f }

end EntityModel.Linking
