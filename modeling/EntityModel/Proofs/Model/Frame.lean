import EntityModel.Proofs.Model.PropertyLists
import EntityModel.Proofs.Model.Shape

/-!
# What surrounds property lists

The rounds of linking change property lists and nothing else.  `ModelFile.frame` is a file without
its property lists, and two models of one frame have the same files, declarations and aliases
(`SameFrame.files`, `SameFrame.classes`).  The other way round, changing classes without touching
their properties leaves every property where it is found (`Model.property?_mapClasses`).
-/

namespace EntityModel

def Class.frame (c : Class) : Class := { c with properties := [] }

def Decorator.frame (d : Decorator) : Decorator := { d with properties := [] }

def Endpoint.frame (e : Endpoint) : Endpoint := { e with params := [], returns := none }

def ModelFile.frame (f : ModelFile) : ModelFile :=
  { f with
    decorators := f.decorators.map Decorator.frame
    classes := f.classes.map Class.frame
    endpoints := f.endpoints.map Endpoint.frame }

theorem ModelFile.frame_mapLists (f : ModelFile)
    (lists : PropertyOwner → List Property → List Property) (returns : Property → Property) :
    (f.mapLists lists returns).frame = f.frame := by
  simp [frame, mapLists, Function.comp_def, Decorator.frame, Class.frame, Endpoint.frame,
    Endpoint.mapParts]

namespace Model

/-- The models differ in their property lists at most. -/
def SameFrame (m m' : Model) : Prop := m'.files.map ModelFile.frame = m.files.map ModelFile.frame

variable {m m' : Model}

theorem SameFrame.refl (m : Model) : SameFrame m m := rfl

theorem SameFrame.trans {m'' : Model} (h : SameFrame m m') (h' : SameFrame m' m'') :
    SameFrame m m'' :=
  Eq.trans h' h

theorem sameFrame_mapLists (m : Model) (lists : PropertyOwner → List Property → List Property)
    (returns : Property → Property) : SameFrame m (m.mapLists lists returns) := by
  simp [SameFrame, mapLists, mapFiles, Function.comp_def, ModelFile.frame_mapLists]

theorem SameFrame.files (h : SameFrame m m') {f' : ModelFile} (hf : f' ∈ m'.files) :
    ∃ f ∈ m.files, f'.frame = f.frame := by
  have hmem := List.mem_map_of_mem (f := ModelFile.frame) hf
  rw [h, List.mem_map] at hmem
  obtain ⟨f, hf, he⟩ := hmem
  exact ⟨f, hf, he.symm⟩

theorem exists_class_of_frame {f f' : ModelFile} (h : f'.frame = f.frame) {c' : Class}
    (hc : c' ∈ f'.classes) : ∃ c ∈ f.classes, c'.frame = c.frame := by
  have hmem := List.mem_map_of_mem (f := Class.frame) hc
  rw [show f'.classes.map Class.frame = f.classes.map Class.frame from congrArg ModelFile.classes h,
    List.mem_map] at hmem
  obtain ⟨c, hc, he⟩ := hmem
  exact ⟨c, hc, he.symm⟩

theorem SameFrame.classes (h : SameFrame m m') {c' : Class} (hc : c' ∈ m'.classes) :
    ∃ c ∈ m.classes, c'.frame = c.frame := by
  obtain ⟨f', hf', hc⟩ := List.mem_flatMap.mp hc
  obtain ⟨f, hf, he⟩ := h.files hf'
  obtain ⟨c, hc, he⟩ := exists_class_of_frame he hc
  exact ⟨c, List.mem_flatMap.mpr ⟨f, hf, hc⟩, he⟩

/-! ### Changing classes around their properties -/

/-- The change touches nothing that property look-ups read. -/
structure Surrounding (g : Class → Class) : Prop where
  id : ∀ c, (g c).id = c.id
  name : ∀ c, (g c).name = c.name
  decorators : ∀ c, (g c).decorators = c.decorators
  properties : ∀ c, (g c).properties = c.properties

variable {g : Class → Class}

theorem cls?_mapClasses (m : Model) (g : Class → Class) (id : ClassId) :
    (m.mapClasses g).cls? id = (m.cls? id).map g := by
  unfold cls? mapClasses
  rw [file?_mapFiles m (g := (·.mapClasses g)) (fun _ => rfl)]
  cases m.file? id.file <;> simp [ModelFile.mapClasses]

theorem decorator?_mapClasses (m : Model) (g : Class → Class) (id : DecoratorId) :
    (m.mapClasses g).decorator? id = m.decorator? id := by
  unfold decorator? mapClasses
  rw [file?_mapFiles m (g := (·.mapClasses g)) (fun _ => rfl)]
  cases m.file? id.file <;> simp [ModelFile.mapClasses]

theorem endpoint?_mapClasses (m : Model) (g : Class → Class) (id : EndpointId) :
    (m.mapClasses g).endpoint? id = m.endpoint? id := by
  unfold endpoint? mapClasses
  rw [file?_mapFiles m (g := (·.mapClasses g)) (fun _ => rfl)]
  cases m.file? id.file <;> simp [ModelFile.mapClasses]

theorem property?_mapClasses (hg : Surrounding g) (m : Model) (id : PropertyId) :
    (m.mapClasses g).property? id = m.property? id := by
  obtain ⟨o, i⟩ := id
  cases o <;>
    simp [property?, ownedBy?, cls?_mapClasses, decorator?_mapClasses, endpoint?_mapClasses,
      Function.comp_def, hg.properties]

theorem propertiesOf_mapClasses (hg : Surrounding g) (m : Model) (c : Class) :
    (m.mapClasses g).propertiesOf (g c) = m.propertiesOf c := by
  have hd : (m.mapClasses g).decorator? = m.decorator? := funext (decorator?_mapClasses m g)
  simp only [propertiesOf, hg.properties, hg.decorators, hd]

theorem classProperties_mapClasses (hg : Surrounding g) (m : Model) (id : ClassId) :
    (m.mapClasses g).classProperties id = m.classProperties id := by
  unfold classProperties
  rw [cls?_mapClasses]
  cases m.cls? id with
  | none => rfl
  | some c => exact propertiesOf_mapClasses hg m c

theorem className_mapClasses (hg : Surrounding g) (m : Model) (id : ClassId) :
    ((m.mapClasses g).cls? id).map (·.name.value) = (m.cls? id).map (·.name.value) := by
  simp [cls?_mapClasses, Function.comp_def, hg.name]

theorem keyOf_mapClasses (hg : Surrounding g) (m : Model) (a : AssociationProperty) :
    (m.mapClasses g).keyOf a = m.keyOf a := by
  have hkey : (m.mapClasses g).singlePrimaryKey = m.singlePrimaryKey := by
    funext id
    unfold singlePrimaryKey primaryKey
    rw [classProperties_mapClasses hg]
  unfold keyOf
  rw [hkey]

theorem properties_mapClasses (hg : Surrounding g) (m : Model) :
    (m.mapClasses g).properties = m.properties := by
  simp [properties, classes, decorators, endpoints, mapClasses, mapFiles, ModelFile.mapClasses,
    List.flatMap_map, List.flatMap_assoc, hg.properties]

theorem Numbered.mapClasses (h : m.Numbered) (hg : Surrounding g) : (m.mapClasses g).Numbered := by
  refine h.mapFiles fun f _ => ?_
  simp [ModelFile.shape, ModelFile.mapClasses, Function.comp_def, hg.id, hg.properties]

end Model

end EntityModel
