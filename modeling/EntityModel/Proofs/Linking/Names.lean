import EntityModel.Linking.Link
import EntityModel.Proofs.Linking.Targets
import EntityModel.Proofs.Model.Shape

/-!
# Linking by name

The first stages of linking resolve what is looked up by name: uses, aliases of files, and
references to classes, decorators and domains.  Here is what they leave as it was, which is every id
and everything about references to properties (`numbered_linkNames`, `sound_linkNames`), and what
they do to the rest: each reference of a file is looked up on its own
(`fileReferences_resolveReferencesOf`).
-/

namespace EntityModel

theorem ModelFile.properties_mapProperties (f : ModelFile) (g : Property → Property) :
    (f.mapProperties g).properties = f.properties.map g := by
  have he : Endpoint.properties = fun e => e.params ++ e.returns.toList := rfl
  simp [properties, mapProperties, mapLists, List.flatMap_map, List.map_flatMap, he,
    Endpoint.mapParts, Model.toList_map]

theorem Model.properties_of_mem {m : Model} {f : ModelFile} (hf : f ∈ m.files) {p : Property}
    (hp : p ∈ f.properties) : p ∈ m.properties := by
  simp only [ModelFile.properties, List.mem_append, List.mem_flatMap] at hp
  simp only [properties, classes, decorators, endpoints, List.mem_append, List.mem_flatMap]
  rcases hp with (⟨c, hc, hp⟩ | ⟨d, hd, hp⟩) | ⟨e, he, hp⟩
  · exact Or.inl (Or.inl ⟨c, ⟨f, hf, hc⟩, hp⟩)
  · exact Or.inl (Or.inr ⟨d, ⟨f, hf, hd⟩, hp⟩)
  · exact Or.inr ⟨e, ⟨f, hf, he⟩, hp⟩

theorem Model.exists_file_of_mem {m : Model} {p : Property} (hp : p ∈ m.properties) :
    ∃ f ∈ m.files, p ∈ f.properties := by
  simp only [properties, classes, decorators, endpoints, List.mem_append, List.mem_flatMap] at hp
  simp only [ModelFile.properties, List.mem_append, List.mem_flatMap]
  rcases hp with (⟨c, ⟨f, hf, hc⟩, hp⟩ | ⟨d, ⟨f, hf, hd⟩, hp⟩) | ⟨e, ⟨f, hf, he⟩, hp⟩
  · exact ⟨f, hf, Or.inl (Or.inl ⟨c, hc, hp⟩)⟩
  · exact ⟨f, hf, Or.inl (Or.inr ⟨d, hd, hp⟩)⟩
  · exact ⟨f, hf, Or.inr ⟨e, he, hp⟩⟩

theorem ModelFile.Numbered.owner_file {f : ModelFile} (h : f.Numbered) {p : Property}
    (hp : p ∈ f.properties) : p.owner.file = f.id := by
  simp only [properties, List.mem_append, List.mem_flatMap] at hp
  rcases hp with (⟨c, hc, hp⟩ | ⟨d, hd, hp⟩) | ⟨e, he, hp⟩
  · rw [Property.owner, (h.ofClass c hc).owner_eq hp]
    exact h.classes.file hc
  · rw [Property.owner, (h.ofDecorator d hd).owner_eq hp]
    exact h.decorators.file hd
  · rcases List.mem_append.mp hp with hp | hp
    · rw [Property.owner, (h.ofParams e he).owner_eq hp]
      exact h.endpoints.file he
    · rw [Property.owner, (h.ofReturns e he).owner_eq hp]
      exact h.endpoints.file he

/-- The properties of a model are those of its files, in another order. -/
theorem Model.perm_properties (m : Model) :
    m.properties.Perm (m.files.flatMap ModelFile.properties) := by
  unfold properties classes decorators endpoints
  rw [List.flatMap_assoc, List.flatMap_assoc, List.flatMap_assoc]
  exact ((List.flatMap_append_perm m.files _ _).append_right _).trans
    (List.flatMap_append_perm m.files _ _)

/-- Of what files contribute in turn, the part of some of them is what these contribute. -/
theorem filter_flatMap_files {α : Type} (fileOf : α → FileId) {g : ModelFile → List α}
    {K : FileId → Bool} {files : List ModelFile} (h : ∀ f ∈ files, ∀ a ∈ g f, fileOf a = f.id) :
    (files.flatMap g).filter (fun a => K (fileOf a))
      = (files.filter fun f => K f.id).flatMap g := by
  induction files with
  | nil => rfl
  | cons f rest ih =>
    have hf := h f List.mem_cons_self
    rw [List.flatMap_cons, List.filter_append, ih fun g hg => h g (List.mem_cons_of_mem _ hg),
      List.filter_cons]
    cases hK : K f.id with
    | true =>
      rw [if_pos rfl, List.flatMap_cons, List.filter_eq_self.mpr fun a ha => by rw [hf a ha, hK]]
    | false =>
      rw [if_neg (by simp), List.filter_eq_nil_iff.mpr fun a ha => by rw [hf a ha, hK]; simp,
        List.nil_append]

namespace Model

variable {m : Model}

theorem filter_files (h : (m.files.map (·.id)).Nodup) {f : ModelFile} (hf : f ∈ m.files) :
    m.files.filter (fun g => g.id == f.id) = [f] := by
  obtain ⟨before, behind, he⟩ := List.append_of_mem hf
  rw [he, List.map_append, List.map_cons, List.nodup_middle, List.nodup_cons,
    ← List.map_append] at h
  have hother : ∀ g ∈ before ++ behind, ¬ (g.id == f.id) = true := fun g hg hid =>
    h.1 (List.mem_map.mpr ⟨g, hg, by simpa using hid⟩)
  rw [he, List.filter_append, List.filter_cons, if_pos (by simp),
    List.filter_eq_nil_iff.mpr fun g hg => hother g (List.mem_append_left _ hg),
    List.filter_eq_nil_iff.mpr fun g hg => hother g (List.mem_append_right _ hg), List.nil_append]

/-- Of what the files contribute in turn, the part of one file is what it contributes. -/
theorem filter_of_file {α : Type} (h : (m.files.map (·.id)).Nodup) (fileOf : α → FileId)
    {g : ModelFile → List α} (hg : ∀ f ∈ m.files, ∀ a ∈ g f, fileOf a = f.id) {f : ModelFile}
    (hf : f ∈ m.files) : (m.files.flatMap g).filter (fun a => fileOf a == f.id) = g f := by
  rw [filter_flatMap_files fileOf (K := (· == f.id)) hg, filter_files h hf, List.flatMap_singleton]

/-- The properties of the model that belong to a file are those of the file, in order. -/
theorem Numbered.properties_of_file (h : m.Numbered) {f : ModelFile} (hf : f ∈ m.files) :
    m.properties.filter (fun p => p.owner.file == f.id) = f.properties := by
  have howner : ∀ f ∈ m.files, ∀ p ∈ f.properties, p.owner.file = f.id := fun f hf p hp =>
    ((numbered_iff.mp h).2 f hf).owner_file hp
  have hids := (numbered_iff.mp h).1
  have hc := filter_of_file hids (fun p : Property => p.owner.file)
    (g := fun f => f.classes.flatMap Class.properties)
    (fun f hf p hp => howner f hf p (List.mem_append_left _ (List.mem_append_left _ hp))) hf
  have hd := filter_of_file hids (fun p : Property => p.owner.file)
    (g := fun f => f.decorators.flatMap Decorator.properties)
    (fun f hf p hp => howner f hf p (List.mem_append_left _ (List.mem_append_right _ hp))) hf
  have he := filter_of_file hids (fun p : Property => p.owner.file)
    (g := fun f => f.endpoints.flatMap Endpoint.properties)
    (fun f hf p hp => howner f hf p (List.mem_append_right _ hp)) hf
  simp only [Model.properties, Model.classes, Model.decorators, Model.endpoints, List.flatMap_assoc,
    List.filter_append, hc, hd, he]
  rfl

end Model

namespace Linking

variable {m : Model}

/-! ### What stays -/

def resolveProperty (m : Model) (f : ModelFile) (p : Property) : Property :=
  { p with kind := resolveKind (scopeOf m f).findClass (findDomain m) p.kind }

theorem properties_resolveReferencesOf (m : Model) (f : ModelFile) :
    (resolveReferencesOf m f).properties = f.properties.map (resolveProperty m f) := by
  unfold resolveReferencesOf
  simp only []
  rw [ModelFile.properties_mapProperties]
  refine congrArg (List.map (resolveProperty m f)) ?_
  simp [ModelFile.properties, resolveClassHeads, ModelFile.mapClasses, resolveDomains,
    List.flatMap_map]

theorem shape_resolveReferencesOf (m : Model) (f : ModelFile) :
    (resolveReferencesOf m f).shape = f.shape := by
  simp [ModelFile.shape, resolveReferencesOf, ModelFile.mapProperties, ModelFile.mapLists,
    resolveClassHeads, ModelFile.mapClasses, resolveDomains, Endpoint.mapParts, Model.toList_map,
    Function.comp_def]

/-- The model once uses and aliases of files are resolved. -/
def aliasedModel (m : Model) : Model := resolveFileAliases (resolveUses m)

/-- The model once all references by name are resolved. -/
def namedModel (m : Model) : Model := resolveReferences (aliasedModel m)

theorem linkNames_model (m : Model) : (linkNames m).model = noteUselessUses (namedModel m) := rfl

theorem numbered_aliasedModel (h : m.Numbered) : (aliasedModel m).Numbered := by
  have hused : (resolveUses m).Numbered := h.mapFiles fun _ _ => rfl
  exact hused.mapFiles fun _ _ => rfl

theorem numbered_namedModel (h : m.Numbered) : (namedModel m).Numbered :=
  (numbered_aliasedModel h).mapFiles fun f _ => shape_resolveReferencesOf _ f

/-- **Linking by name changes no id.** -/
theorem numbered_linkNames (h : m.Numbered) : (linkNames m).model.Numbered :=
  (numbered_namedModel h).mapFiles fun _ _ => rfl

/-- A file of the model linked by name comes from a draft; its properties are those of the draft,
with their references looked up. -/
theorem exists_draft_of_linkNames {f : ModelFile} (hf : f ∈ (linkNames m).model.files) :
    ∃ d ∈ m.files, d.id = f.id ∧ ∃ a ∈ (aliasedModel m).files, a.properties = d.properties ∧
      f.properties = d.properties.map (resolveProperty (aliasedModel m) a) := by
  obtain ⟨f₁, hf₁, rfl⟩ := List.mem_map.mp hf
  obtain ⟨a, ha, rfl⟩ := List.mem_map.mp hf₁
  obtain ⟨u, hu, rfl⟩ := List.mem_map.mp ha
  obtain ⟨d, hd, rfl⟩ := List.mem_map.mp hu
  exact ⟨d, hd, rfl, _, ha, rfl, properties_resolveReferencesOf _ _⟩

theorem exists_draft_property {p : Property} (hp : p ∈ (linkNames m).model.properties) :
    ∃ d ∈ m.properties, ∃ a ∈ (aliasedModel m).files, p = resolveProperty (aliasedModel m) a d := by
  obtain ⟨f, hf, hp⟩ := Model.exists_file_of_mem hp
  obtain ⟨d, hd, -, a, ha, -, he⟩ := exists_draft_of_linkNames hf
  rw [he, List.mem_map] at hp
  obtain ⟨x, hx, rfl⟩ := hp
  exact ⟨x, Model.properties_of_mem hd hx, a, ha, rfl⟩

/-- References to properties are not looked at. -/
theorem lookup?_resolveKind {cls : String → Option ClassId} {domain : String → Option DomainId}
    {k : PropertyKind} {c : ClassReference} {r : PropertyReference}
    (h : (resolveKind cls domain k).lookup? = some (c, r)) : ∃ c', k.lookup? = some (c', r) := by
  cases k with
  | association a =>
    obtain ⟨r', hr, he⟩ := Option.map_eq_some_iff.mp h
    obtain ⟨_, rfl⟩ := Prod.mk.inj he
    have hr : a.property = some r' := hr
    exact ⟨a.association, by simp [PropertyKind.lookup?, hr]⟩
  | propertyAlias a =>
    obtain ⟨r', hr, he⟩ := Option.map_eq_some_iff.mp h
    obtain ⟨_, rfl⟩ := Prod.mk.inj he
    have hr : a.property = some r' := hr
    exact ⟨a.cls, by simp [PropertyKind.lookup?, hr]⟩
  | _ => simp [resolveKind, PropertyKind.lookup?] at h

/-- **Linking by name leaves a model to which the rounds over aliases may be applied**, if no
reference to a property of the drafts points anywhere. -/
theorem sound_linkNames {rules : NamingRules} (hm : m.Numbered)
    (h : ∀ p ∈ m.properties, ∀ cls r, p.kind.lookup? = some (cls, r) → r.target = none) :
    Sound rules true (linkNames m).model := by
  refine sound_of_open (numbered_linkNames hm) fun p hp cls r hl => ?_
  obtain ⟨d, hd, a, _, rfl⟩ := exists_draft_property hp
  obtain ⟨c', hl⟩ := lookup?_resolveKind hl
  exact h d hd c' r hl

/-! ### What is looked up -/

def EntityReference.resolve (s : Scope) (find : String → Option DomainId) :
    EntityReference → EntityReference
  | .cls r => .cls (resolveBy s.findClass r)
  | .decorator r => .decorator (resolveBy s.findDecorator r)
  | .domain r => .domain (resolveBy find r)

theorem propertyReferences_resolveProperty (m : Model) (f : ModelFile) (p : Property) :
    propertyReferences (resolveProperty m f p)
      = (propertyReferences p).map (EntityReference.resolve (scopeOf m f) (findDomain m)) := by
  obtain ⟨id, l, k⟩ := p
  cases k with
  | composition c => cases hd : c.domain
    <;> simp [propertyReferences, resolveProperty, resolveKind, hd,
      EntityReference.resolve]
  | _ => rfl

/-- **Every reference of a file is looked up on its own.** -/
theorem fileReferences_resolveReferencesOf (m : Model) (f : ModelFile) :
    fileReferences (resolveReferencesOf m f)
      = (fileReferences f).map (EntityReference.resolve (scopeOf m f) (findDomain m)) := by
  have hp : (fun p : Property => propertyReferences
      { p with kind := resolveKind (scopeOf m f).findClass (findDomain m) p.kind })
      = fun p => (propertyReferences p).map
        (EntityReference.resolve (scopeOf m f) (findDomain m)) :=
    funext (propertyReferences_resolveProperty m f)
  have he : Endpoint.properties = fun e => e.params ++ e.returns.toList := rfl
  simp only [fileReferences, resolveReferencesOf, ModelFile.mapProperties, ModelFile.mapLists,
    resolveClassHeads, ModelFile.mapClasses, resolveDomains, List.flatMap_map, List.map_append,
    List.map_flatMap, classReferences, List.map_map, hp, he, Endpoint.mapParts, Model.toList_map,
    List.flatMap_append]
  simp only [Function.comp_def, resolveUsage, EntityReference.resolve,
    Model.toList_map, List.map_map, List.flatMap_map, hp]

end Linking

end EntityModel
