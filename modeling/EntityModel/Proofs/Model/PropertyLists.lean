import EntityModel.Proofs.Model.Numbering

/-!
# Changing property lists

Everything that linking does to properties goes through `ModelFile.mapLists`, which changes each
property list by its owner and leaves the rest of the file alone.  Here is what a look-up sees of
such a change: declarations are found under the same ids with their lists changed
(`cls?_mapLists`, `decorator?_mapLists`), and the lists of a class, its own and those of its
decorators (`classLists`), are changed one by one (`classLists_mapLists`).
-/

namespace EntityModel

def changedList (lists : PropertyOwner → List Property → List Property)
    (returns : Property → Property) :
    PropertyOwner → List Property → List Property
  | .returns _, ps => ps.map returns
  | o, ps => lists o ps

namespace Model

def mapLists (lists : PropertyOwner → List Property → List Property) (returns : Property → Property)
    (m : Model) : Model := m.mapFiles (·.mapLists lists returns)

/-- The lists that the properties of a class come from: its own, then those of its decorators. -/
def classLists (m : Model) (id : ClassId) : List (PropertyOwner × List Property) :=
  match m.cls? id with
  | some c =>
    (.cls c.id, c.properties) :: c.decorators.filterMap fun usage =>
      (usage.decorator.target.bind m.decorator?).map fun d => (.decorator d.id, d.properties)
  | none => []

theorem classProperties_eq_classLists (m : Model) (id : ClassId) :
    m.classProperties id = (m.classLists id).flatMap Prod.snd := by
  cases h : m.cls? id with
  | none => simp [classProperties, classLists, h]
  | some c =>
    simp only [classProperties, classLists, h, propertiesOf, List.flatMap_cons]
    congr 1
    induction c.decorators with
    | nil => rfl
    | cons u us ih =>
      rw [List.flatMap_cons, ih, List.filterMap_cons]
      cases u.decorator.target.bind m.decorator? <;> simp

theorem Numbered.owned_of_classLists {m : Model} (h : m.Numbered) {id : ClassId} {o : PropertyOwner}
    {ps : List Property} (hm : (o, ps) ∈ m.classLists id) : (o, ps) ∈ m.owned := by
  cases hc : m.cls? id with
  | none => simp [classLists, hc] at hm
  | some c =>
    simp only [classLists, hc, List.mem_cons, List.mem_filterMap] at hm
    rcases hm with he | ⟨u, _, hu⟩
    · obtain ⟨rfl, rfl⟩ := Prod.mk.inj he
      simp only [owned, List.mem_append, List.mem_map]
      exact Or.inl (Or.inl ⟨c, (h.cls?_iff.mp hc).1, rfl⟩)
    · obtain ⟨d, hd, he⟩ := Option.map_eq_some_iff.mp hu
      obtain ⟨id', -, hd⟩ := Option.bind_eq_some_iff.mp hd
      simp only [owned, List.mem_append, List.mem_map]
      exact Or.inl (Or.inr ⟨d, (h.decorator?_iff.mp hd).1, he⟩)

theorem Numbered.mem_of_classProperties {m : Model} (h : m.Numbered) {id : ClassId} {p : Property}
    (hp : p ∈ m.classProperties id) : p ∈ m.properties := by
  rw [classProperties_eq_classLists, List.mem_flatMap] at hp
  obtain ⟨⟨o, ps⟩, ho, hps⟩ := hp
  exact mem_properties_iff.mpr ⟨o, ps, h.owned_of_classLists ho, hps⟩

variable (m : Model)

/-! ### Look-ups -/

theorem file?_mapFiles {g : ModelFile → ModelFile} (hg : ∀ f, (g f).id = f.id) (id : FileId) :
    (m.mapFiles g).file? id = (m.file? id).map g := by
  simp only [file?, mapFiles, List.find?_map]
  congr 2
  funext f
  simp [hg]

variable (lists : PropertyOwner → List Property → List Property) (returns : Property → Property)

@[simp] theorem file?_mapLists (id : FileId) :
    (m.mapLists lists returns).file? id = (m.file? id).map (·.mapLists lists returns) :=
  m.file?_mapFiles (g := (·.mapLists lists returns)) (fun _ => rfl) id

/-- Declarations of one kind are found as before, changed by `g`. -/
theorem declared_mapLists {α : Type} {decls : ModelFile → List α} {g : α → α}
    (hd : ∀ f, decls (f.mapLists lists returns) = (decls f).map g) (file : FileId) (index : Nat) :
    (((m.mapLists lists returns).file? file).bind fun f => (decls f)[index]?)
      = (((m.file? file).bind fun f => (decls f)[index]?)).map g := by
  rw [file?_mapLists]
  cases m.file? file <;> simp [hd]

@[simp] theorem cls?_mapLists (id : ClassId) :
    (m.mapLists lists returns).cls? id
      = (m.cls? id).map fun c => { c with properties := lists (.cls c.id) c.properties } :=
  m.declared_mapLists lists returns (fun _ => rfl) id.file id.index

@[simp] theorem decorator?_mapLists (id : DecoratorId) :
    (m.mapLists lists returns).decorator? id
      = (m.decorator? id).map fun d =>
        { d with properties := lists (.decorator d.id) d.properties } :=
  m.declared_mapLists lists returns (fun _ => rfl) id.file id.index

@[simp] theorem endpoint?_mapLists (id : EndpointId) :
    (m.mapLists lists returns).endpoint? id
      = (m.endpoint? id).map fun e => e.mapParts (lists (.params e.id)) returns :=
  m.declared_mapLists lists returns (fun _ => rfl) id.file id.index

theorem classLists_mapLists (id : ClassId) :
    (m.mapLists lists returns).classLists id
      = (m.classLists id).map fun (o, ps) => (o, lists o ps) := by
  cases h : m.cls? id with
  | none => simp [classLists, h]
  | some c =>
    simp only [classLists, cls?_mapLists, h, Option.map_some, List.map_cons, List.map_filterMap]
    congr 2
    funext u
    cases ht : u.decorator.target with
    | none => simp
    | some d => cases hd : m.decorator? d <;> simp [hd]

theorem classes_mapLists :
    (m.mapLists lists returns).classes
      = m.classes.map fun c => { c with properties := lists (.cls c.id) c.properties } := by
  simp [classes, mapLists, mapFiles, ModelFile.mapLists, List.flatMap_map, List.map_flatMap]

theorem decorators_mapLists :
    (m.mapLists lists returns).decorators
      = m.decorators.map fun d =>
        { d with properties := lists (.decorator d.id) d.properties } := by
  simp [decorators, mapLists, mapFiles, ModelFile.mapLists, List.flatMap_map, List.map_flatMap]

theorem endpoints_mapLists :
    (m.mapLists lists returns).endpoints
      = m.endpoints.map fun e => e.mapParts (lists (.params e.id)) returns := by
  simp [endpoints, mapLists, mapFiles, ModelFile.mapLists, List.flatMap_map, List.map_flatMap]

theorem toList_map {α β : Type} (g : α → β) (o : Option α) : (o.map g).toList = o.toList.map g := by
  cases o <;> rfl

theorem owned_mapLists :
    (m.mapLists lists returns).owned
      = m.owned.map fun (o, ps) => (o, changedList lists returns o ps) := by
  simp [owned, classes_mapLists, decorators_mapLists, endpoints_mapLists, List.map_flatMap,
    List.flatMap_map, changedList, Endpoint.mapParts, toList_map, Function.comp_def]

/-- Changed lists that are numbered by their places make a numbered model. -/
theorem Numbered.mapLists {m : Model} {lists returns} (h : m.Numbered)
    (hp : ∀ o ps, (o, ps) ∈ m.owned → Positional o (changedList lists returns o ps)) :
    (m.mapLists lists returns).Numbered where
  files := by
    have : (m.mapLists lists returns).files.map (·.id) = m.files.map (·.id) := by
      simp [Model.mapLists, mapFiles, ModelFile.mapLists, Function.comp_def]
    rw [this]
    exact h.files
  domains := by
    simp only [Model.mapLists, mapFiles, List.mem_map]
    rintro _ ⟨f, hf, rfl⟩
    exact h.domains f hf
  decorators := by
    simp only [Model.mapLists, mapFiles, List.mem_map]
    rintro _ ⟨f, hf, rfl⟩ i d hd
    simp only [ModelFile.mapLists, List.getElem?_map, Option.map_eq_some_iff] at hd
    obtain ⟨d, hd, rfl⟩ := hd
    exact h.decorators f hf i d hd
  classes := by
    simp only [Model.mapLists, mapFiles, List.mem_map]
    rintro _ ⟨f, hf, rfl⟩ i c hc
    simp only [ModelFile.mapLists, List.getElem?_map, Option.map_eq_some_iff] at hc
    obtain ⟨c, hc, rfl⟩ := hc
    exact h.classes f hf i c hc
  endpoints := by
    simp only [Model.mapLists, mapFiles, List.mem_map]
    rintro _ ⟨f, hf, rfl⟩ i e he
    simp only [ModelFile.mapLists, List.getElem?_map, Option.map_eq_some_iff] at he
    obtain ⟨e, he, rfl⟩ := he
    exact h.endpoints f hf i e he
  properties := by
    intro o ps hm
    rw [owned_mapLists, List.mem_map] at hm
    obtain ⟨⟨o', ps'⟩, hm, he⟩ := hm
    obtain ⟨rfl, rfl⟩ := Prod.mk.inj he
    exact hp o' ps' hm

/-! ### Changing properties one for one -/

variable {m} {g : Property → Property}

theorem mapProperties_eq_mapLists : m.mapProperties g = m.mapLists (fun _ ps => ps.map g) g := rfl

theorem properties_mapProperties : (m.mapProperties g).properties = m.properties.map g := by
  have hc : changedList (fun _ ps => ps.map g) g = fun _ ps => ps.map g := by
    funext o ps
    cases o <;> rfl
  rw [properties_eq_owned, mapProperties_eq_mapLists, owned_mapLists, properties_eq_owned, hc,
    List.flatMap_map, List.map_flatMap]

theorem classProperties_mapProperties (id : ClassId) :
    (m.mapProperties g).classProperties id = (m.classProperties id).map g := by
  rw [classProperties_eq_classLists, mapProperties_eq_mapLists, classLists_mapLists,
    classProperties_eq_classLists, List.flatMap_map, List.map_flatMap]

theorem Numbered.mapProperties (h : m.Numbered) (hg : ∀ p, (g p).id = p.id) :
    (m.mapProperties g).Numbered := by
  refine Numbered.mapLists h fun o ps hm => ?_
  have := (h.properties o ps hm).map hg
  cases o <;> exact this

theorem property?_mapProperties (id : PropertyId) :
    (m.mapProperties g).property? id = (m.property? id).map g := by
  obtain ⟨o, i⟩ := id
  have howned : ∀ o, (m.mapProperties g).ownedBy? o = (m.ownedBy? o).map (·.map g) := by
    intro o
    cases o <;> simp [mapProperties_eq_mapLists, ownedBy?, Function.comp_def,
      Endpoint.mapParts, toList_map]
  cases o with
  | returns e =>
    simp only [property?_returns, howned, Option.bind_map, Option.map_bind]
    congr 1
    funext ps
    exact List.head?_map
  | _ =>
    rw [property?_eq _ (by simp), property?_eq _ (by simp), howned, Option.bind_map,
      Option.map_bind]
    congr 1
    funext ps
    exact List.getElem?_map

end Model

end EntityModel
