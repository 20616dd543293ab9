import EntityModel.Proofs.Linking.Stages

/-!
# What linking leaves of a file

Behind the references by name, linking changes property lists, what classes say of their own
properties, and which uses a file is found not to need.  `ModelFile.skeleton` is a file without
these, and the linked model has the skeleton of the model linked by name (`skeleton_link`).  So
which file uses which, and which class has which parent, can be read off either.

References by name are resolved too, and everything else that a file says of its declarations is as
it was loaded: `ModelFile.outline` is the file without its references and its property lists, and
the files of the linked model have the outlines of the drafts (`outlines_link`).  So whatever is
read off names, modules and trigrams can be read off the drafts.
-/

namespace EntityModel

/-! ## Without property lists -/

/-- The class without its properties and all that it says of them. -/
def Class.skeleton (c : Class) : Class :=
  { c with
    properties := []
    uniqueKeys := []
    values := []
    defaultProperty := none
    orderProperty := none
    flagProperty := none }

/-- The file without its property lists, what its classes say of them, and the uses that it does not
need. -/
def ModelFile.skeleton (f : ModelFile) : ModelFile :=
  { f with
    decorators := f.decorators.map Decorator.frame
    classes := f.classes.map Class.skeleton
    endpoints := f.endpoints.map Endpoint.frame
    uselessImports := [] }

theorem ModelFile.skeleton_frame (f : ModelFile) : f.frame.skeleton = f.skeleton := by
  simp [frame, skeleton, Function.comp_def, Decorator.frame, Class.frame, Class.skeleton,
    Endpoint.frame]

namespace Model

def skeleton (m : Model) : Model := m.mapFiles ModelFile.skeleton

variable {m m' : Model}

theorem skeleton_mapFiles {g : ModelFile → ModelFile}
    (hg : ∀ f, (g f).skeleton = f.skeleton) (m : Model) :
    (m.mapFiles g).skeleton = m.skeleton := by
  unfold skeleton mapFiles
  rw [List.map_map]
  exact congrArg Model.mk (List.map_congr_left fun f _ => hg f)

theorem SameFrame.skeleton (h : SameFrame m m') : m'.skeleton = m.skeleton := by
  have hframe : ∀ m : Model, m.skeleton = ⟨(m.files.map ModelFile.frame).map ModelFile.skeleton⟩ :=
    fun m => by
    rw [List.map_map]
    exact congrArg Model.mk (List.map_congr_left fun f _ => (ModelFile.skeleton_frame f).symm)
  rw [hframe, hframe, h]

/-! ### What is read off a skeleton -/

theorem file?_skeleton (m : Model) (id : FileId) :
    m.skeleton.file? id = (m.file? id).map ModelFile.skeleton :=
  m.file?_mapFiles (g := ModelFile.skeleton) (fun _ => rfl) id

theorem cls?_skeleton (m : Model) (id : ClassId) :
    m.skeleton.cls? id = (m.cls? id).map Class.skeleton := by
  unfold cls?
  rw [file?_skeleton]
  cases m.file? id.file with
  | none => rfl
  | some f => exact List.getElem?_map ..

theorem classes_skeleton (m : Model) : m.skeleton.classes = m.classes.map Class.skeleton := by
  simp [classes, skeleton, mapFiles, ModelFile.skeleton, List.flatMap_map, List.map_flatMap]

theorem parent?_skeleton (m : Model) : m.skeleton.parent? = m.parent? := by
  funext id
  unfold parent?
  rw [cls?_skeleton]
  cases m.cls? id <;> rfl

end Model

namespace Linking

variable {rules : NamingRules} {m : Model}

/-- **The linked model has the skeleton of the model linked by name.** -/
theorem skeleton_link (rules : NamingRules) (h : m.AsLoaded) :
    (m.link rules).model.skeleton = (namedModel m).skeleton := by
  calc (m.link rules).model.skeleton
      = (associated rules m).skeleton := by
        refine Model.skeleton_mapFiles (fun f => ?_) _
        simp [ModelFile.skeleton, ModelFile.mapClasses, Function.comp_def, resolveClassProperties,
          Class.skeleton]
    _ = (linkNames m).model.skeleton := (sameFrame_associated rules h).skeleton
    _ = (namedModel m).skeleton := by
        exact Model.skeleton_mapFiles
          (g := fun f => { f with uselessImports := uselessUses (namedModel m) f }) (fun _ => rfl) _

end Linking

/-! ## Without references as well -/

def Domain.outline (d : Domain) : Domain := { d with asDomains := [] }

/-- The class without anything that names another declaration or a property; its values keep their
names. -/
def Class.outline (c : Class) : Class :=
  { c with
    parent := none
    decorators := []
    properties := []
    uniqueKeys := []
    values := c.values.map fun v => { v with fields := [] }
    defaultProperty := none
    orderProperty := none
    flagProperty := none }

/-- The file without its references and its property lists. -/
def ModelFile.outline (f : ModelFile) : ModelFile :=
  { f with
    uses := []
    domains := f.domains.map Domain.outline
    decorators := f.decorators.map Decorator.frame
    classes := f.classes.map Class.outline
    endpoints := f.endpoints.map Endpoint.frame
    aliases := []
    resolvedAliases := []
    uselessImports := [] }

theorem ModelFile.outline_frame (f : ModelFile) : f.frame.outline = f.outline := by
  simp [frame, outline, Function.comp_def, Decorator.frame, Class.frame, Class.outline,
    Endpoint.frame]

namespace Model

def outlines (m : Model) : List ModelFile := m.files.map ModelFile.outline

variable {m m' : Model}

theorem outlines_mapFiles {g : ModelFile → ModelFile}
    (hg : ∀ f, (g f).outline = f.outline) (m : Model) :
    (m.mapFiles g).outlines = m.outlines := by
  unfold outlines mapFiles
  rw [List.map_map]
  exact List.map_congr_left fun f _ => hg f

theorem SameFrame.outlines (h : SameFrame m m') : m'.outlines = m.outlines := by
  have hframe : ∀ m : Model, m.outlines = (m.files.map ModelFile.frame).map ModelFile.outline :=
    fun m => by
    rw [List.map_map]
    exact List.map_congr_left fun f _ => (ModelFile.outline_frame f).symm
  rw [hframe, hframe, h]

/-- A declaration of the one model has the outline of one of the other, in a file of the same id. -/
theorem exists_of_outlines {α : Type} (decls : ModelFile → List α) (out : α → α)
    (hout : ∀ f, f.outline.id = f.id ∧ decls f.outline = (decls f).map out)
    (h : m'.outlines = m.outlines) {f' : ModelFile} (hf : f' ∈ m'.files) :
    ∃ f ∈ m.files, f.id = f'.id ∧ ∀ a' ∈ decls f', ∃ a ∈ decls f, out a = out a' := by
  have hmem : f'.outline ∈ m.outlines := h ▸ List.mem_map_of_mem hf
  obtain ⟨f, hf, he⟩ := List.mem_map.mp hmem
  refine ⟨f, hf, ?_, fun a' ha' => ?_⟩
  · rw [← (hout f).1, he, (hout f').1]
  · have hout' : out a' ∈ decls f.outline := by
      rw [he, (hout f').2]
      exact List.mem_map_of_mem ha'
    rw [(hout f).2] at hout'
    exact List.mem_map.mp hout'

/-- What is read off the declarations of a kind can be read off their outlines. -/
theorem declared_of_outlines {α β : Type} {decls : ModelFile → List α} {read : α → β} (out : α → α)
    (hread : ∀ a, read (out a) = read a) (hout : ∀ f, decls f.outline = (decls f).map out)
    (h : m'.outlines = m.outlines) :
    (m'.files.flatMap decls).map read = (m.files.flatMap decls).map read := by
  have hfiles : ∀ m : Model, (m.files.flatMap decls).map read
      = m.outlines.flatMap fun f => (decls f).map read := fun m => by
    unfold outlines
    rw [List.map_flatMap, List.flatMap_map]
    simp [hout, Function.comp_def, hread]
  rw [hfiles, hfiles, h]

end Model

namespace Linking

variable {rules : NamingRules} {m : Model}

theorem outlines_resolveReferences (m : Model) : (resolveReferences m).outlines = m.outlines := by
  refine Model.outlines_mapFiles (fun f => ?_) m
  simp [ModelFile.outline, resolveReferencesOf, ModelFile.mapProperties, ModelFile.mapLists,
    resolveClassHeads, ModelFile.mapClasses, resolveDomains, Endpoint.mapParts, Endpoint.frame,
    Decorator.frame, Class.outline, Domain.outline, Function.comp_def]

theorem outlines_linkNames (m : Model) : (linkNames m).model.outlines = m.outlines := by
  have hfrom : ∀ {g : ModelFile → ModelFile} {m : Model}, (∀ f, (g f).outline = f.outline) →
      (m.mapFiles g).outlines = m.outlines := fun hg => Model.outlines_mapFiles hg _
  calc (linkNames m).model.outlines
      = (namedModel m).outlines := by exact hfrom fun f => rfl
    _ = (aliasedModel m).outlines := outlines_resolveReferences _
    _ = (resolveUses m).outlines := by exact hfrom fun f => rfl
    _ = m.outlines := by exact hfrom fun f => rfl

/-- **The files of the linked model have the outlines of those loaded.** -/
theorem outlines_link (rules : NamingRules) (h : m.AsLoaded) :
    (m.link rules).model.outlines = m.outlines := by
  have hresolved : (m.link rules).model.outlines = (associated rules m).outlines := by
    rw [link_model]
    refine Model.outlines_mapFiles (fun f => ?_) _
    simp [ModelFile.outline, ModelFile.mapClasses, Function.comp_def, resolveClassProperties,
      Class.outline]
  rw [hresolved, (sameFrame_associated rules h).outlines, outlines_linkNames]

end Linking

end EntityModel
