import EntityModel.Linking.References
import EntityModel.Proofs.Linking.ClassProperties
import EntityModel.Proofs.Model.Frame

/-!
# Everything that a file refers to

A file holds references of sixteen kinds (`ReferenceKind`), and `ModelFile.heldReferences` lists
them all: each with its place, what it points to, the reference that it is looked up through and the
property around it.  It is resolved in a model if it points to something that is there
(`HeldReference.Resolved`); if it is not, an error should be found at one of these places
(`HeldReference.Diagnosed`).
-/

namespace EntityModel

/-! ### What references point to

A reference points to a file, a declaration or a property (`Entity`), which is there in a model or
not (`Entity.Live`).  Files and declarations are there under the same ids at every stage of linking
(`Model.SameDeclared`), so that what was found at one of them is there at the end.
-/

/-- What a reference may point to. -/
inductive Entity
  | file (id : FileId)
  | domain (id : DomainId)
  | decorator (id : DecoratorId)
  | cls (id : ClassId)
  | endpoint (id : EndpointId)
  | property (id : PropertyId)
deriving Repr, DecidableEq

def Entity.Live (m : Model) : Entity → Prop
  | .file id => ∃ f ∈ m.files, f.id = id
  | .domain id => ∃ d ∈ m.domains, d.id = id
  | .decorator id => ∃ d ∈ m.decorators, d.id = id
  | .cls id => ∃ c ∈ m.classes, c.id = id
  | .endpoint id => ∃ e ∈ m.endpoints, e.id = id
  | .property id => ∃ p ∈ m.properties, p.id = id

def ModelFile.declared (f : ModelFile) :=
  (f.id, f.domains.map (·.id), f.decorators.map (·.id), f.classes.map (·.id),
    f.endpoints.map (·.id))

theorem ModelFile.declared_of_shape {f g : ModelFile} (h : g.shape = f.shape) :
    g.declared = f.declared := by
  simp only [shape, Prod.mk.injEq] at h
  obtain ⟨hid, hdomains, hdecorators, hclasses, hendpoints⟩ := h
  have hdec := congrArg (List.map Prod.fst) hdecorators
  have hcls := congrArg (List.map Prod.fst) hclasses
  have hend := congrArg (List.map Prod.fst) hendpoints
  simp only [List.map_map, Function.comp_def] at hdec hcls hend
  simp only [declared, hid, hdomains, hdec, hcls, hend]

theorem ModelFile.declared_of_frame {f g : ModelFile} (h : g.frame = f.frame) :
    g.declared = f.declared := by
  have hframe : ∀ f : ModelFile, f.frame.declared = f.declared := fun f => by
    simp [frame, declared, Function.comp_def, Decorator.frame, Class.frame, Endpoint.frame]
  rw [← hframe g, h, hframe]

namespace Model

def SameDeclared (m m' : Model) : Prop :=
  m'.files.map ModelFile.declared = m.files.map ModelFile.declared

variable {m m' : Model}

theorem SameDeclared.trans {m'' : Model} (h : SameDeclared m m') (h' : SameDeclared m' m'') :
    SameDeclared m m'' := Eq.trans h' h

theorem sameDeclared_mapFiles {g : ModelFile → ModelFile}
    (hg : ∀ f ∈ m.files, (g f).declared = f.declared) : SameDeclared m (m.mapFiles g) := by
  unfold SameDeclared Model.mapFiles
  rw [List.map_map]
  exact List.map_congr_left hg

theorem SameFrame.sameDeclared (h : SameFrame m m') : SameDeclared m m' := by
  refine List.ext_getElem? fun i => ?_
  have hi := congrArg (·[i]?) h
  simp only [List.getElem?_map] at hi ⊢
  cases hf : m'.files[i]? <;> cases hg : m.files[i]? <;> simp only [hf, hg] at hi <;> try simp at hi
  · rfl
  · exact congrArg some (ModelFile.declared_of_frame hi)

theorem sameDeclared_mapClasses {g : Class → Class} (hg : Surrounding g) (m : Model) :
    SameDeclared m (m.mapClasses g) :=
  sameDeclared_mapFiles fun f _ => by
    simp [ModelFile.declared, ModelFile.mapClasses, Function.comp_def, hg.id]

theorem exists_declared {α ι : Type} (decls : ModelFile → List α) (ident : α → ι)
    (m : Model) (id : ι) :
    (∃ a ∈ m.files.flatMap decls, ident a = id)
      ↔ id ∈ m.files.flatMap fun f => (decls f).map ident := by
  simp only [List.mem_flatMap, List.mem_map]
  constructor
  · rintro ⟨a, ⟨f, hf, ha⟩, he⟩
    exact ⟨f, hf, a, ha, he⟩
  · rintro ⟨f, hf, a, ha, he⟩
    exact ⟨a, ⟨f, hf, ha⟩, he⟩

/-- **A file or declaration of the one model is there in the other.** -/
theorem SameDeclared.live (h : SameDeclared m m') {e : Entity} (he : e.Live m)
    (hp : ∀ id, e ≠ .property id) : e.Live m' := by
  have hlist : ∀ {ι : Type} (ids : FileId × List DomainId × List DecoratorId × List ClassId ×
      List EndpointId → List ι), (m'.files.flatMap fun f => ids f.declared)
        = m.files.flatMap fun f => ids f.declared := by
    intro ι ids
    have := congrArg (List.flatMap ids) h
    rwa [List.flatMap_map, List.flatMap_map] at this
  cases e with
  | file id =>
    obtain ⟨f, hf, rfl⟩ := he
    have hmem := List.mem_map_of_mem (f := ModelFile.declared) hf
    rw [← h, List.mem_map] at hmem
    obtain ⟨f', hf', he⟩ := hmem
    exact ⟨f', hf', congrArg Prod.fst he⟩
  | domain id =>
    refine (exists_declared _ Domain.id m' id).mpr ?_
    exact hlist (·.2.1) ▸ (exists_declared _ Domain.id m id).mp he
  | decorator id =>
    refine (exists_declared _ Decorator.id m' id).mpr ?_
    exact hlist (·.2.2.1) ▸ (exists_declared _ Decorator.id m id).mp he
  | cls id =>
    refine (exists_declared _ Class.id m' id).mpr ?_
    exact hlist (·.2.2.2.1) ▸ (exists_declared _ Class.id m id).mp he
  | endpoint id =>
    refine (exists_declared _ Endpoint.id m' id).mpr ?_
    exact hlist (·.2.2.2.2) ▸ (exists_declared _ Endpoint.id m id).mp he
  | property id => exact absurd rfl (hp id)

end Model

/-! ### References of a file -/

/-- By what a file refers to something. -/
inductive ReferenceKind
  | use
  | aliasFile
  | aliasClass
  | aliasEndpoint
  | asDomain
  | parent
  | decorator
  /-- Of a property, or around a composition. -/
  | domain
  | association
  | composition
  | aliasedClass
  | associationProperty
  | aliasProperty
  | uniqueKey
  | valueField
  /-- The default, order or flag property. -/
  | special
deriving Repr, DecidableEq

/-- A reference of any kind as it stands in a file. -/
structure HeldReference where
  kind : ReferenceKind
  location : Location
  target : Option Entity
  /-- The reference to the file or class in which it is looked up. -/
  through : Option Location := none
  /-- The property that it is part of. -/
  enclosing : Option Location := none
deriving Repr, DecidableEq

def Reference.held {α : Type} (r : Reference α) (kind : ReferenceKind) (entity : α → Entity) :
    HeldReference :=
  { kind, location := r.location, target := r.target.map entity }

def Alias.heldReferences (a : Alias) : List HeldReference :=
  a.file.held .aliasFile .file ::
    ((a.classes.getD []).map fun r =>
      { r.held .aliasClass .cls with through := some a.file.location })
    ++ (a.endpoints.getD []).map fun r =>
      { r.held .aliasEndpoint .endpoint with through := some a.file.location }

def Domain.heldReferences (d : Domain) : List HeldReference :=
  d.asDomains.map fun (_, r) => r.held .asDomain .domain

def Property.heldReferences (p : Property) : List HeldReference :=
  let held : List HeldReference :=
    match p.kind with
    | .regular x => [x.domain.held .domain .domain]
    | .association x =>
      x.association.held .association .cls :: x.property.toList.map fun r =>
        { r.held .associationProperty .property with through := some x.association.location }
    | .composition x =>
      x.composition.held .composition .cls :: x.domain.toList.map (·.held .domain .domain)
    | .propertyAlias x =>
      x.cls.held .aliasedClass .cls :: x.property.toList.map fun r =>
        { r.held .aliasProperty .property with through := some x.cls.location }
  held.map fun x => { x with enclosing := some p.location }

def Class.heldReferences (c : Class) : List HeldReference :=
  c.parent.toList.map (·.held .parent .cls)
    ++ c.decorators.map (·.decorator.held .decorator .decorator)
    ++ c.uniqueKeys.flatten.map (·.held .uniqueKey .property)
    ++ (c.values.flatMap fun v => v.fields.map (·.property.held .valueField .property))
    ++ [c.defaultProperty, c.orderProperty, c.flagProperty].flatMap fun r =>
      r.toList.map (·.held .special .property)

def ModelFile.heldReferences (f : ModelFile) : List HeldReference :=
  f.uses.map (·.held .use .file)
    ++ f.aliases.flatMap Alias.heldReferences
    ++ f.domains.flatMap Domain.heldReferences
    ++ f.classes.flatMap Class.heldReferences
    ++ f.properties.flatMap Property.heldReferences

namespace HeldReference

def Resolved (x : HeldReference) (m : Model) : Prop := ∃ e, x.target = some e ∧ e.Live m

/-- The place is that of the reference, of the one it is looked up through, or of the property
around. -/
def IsAbout (x : HeldReference) (l : Location) : Prop :=
  l = x.location ∨ x.through = some l ∨ x.enclosing = some l

/-- Among the problems is an error of the file that is about the reference. -/
def Diagnosed (x : HeldReference) (file : FileId) (problems : List Diagnostic) : Prop :=
  ∃ d ∈ problems, d.isError = true ∧ d.file = file ∧ x.IsAbout d.location

end HeldReference

end EntityModel
