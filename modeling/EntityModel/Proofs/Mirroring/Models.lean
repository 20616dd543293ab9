import EntityModel.Proofs.Model.Frame
import EntityModel.Proofs.Model.Relabelling
import EntityModel.Proofs.Model.Numbering
import Mathlib.Logic.Relation

/-!
# Mirrored models

Two stores that load the same texts in different orders hold the same files under different ids and
in different orders.  `Model.Mirrors ρ m m'` says so of two models: the files of `m'` are those of
`m`, relabelled by `ρ`, in some order.  Since files are told apart by their ids and by their names,
whatever is looked up in `m` is found in `m'`, relabelled; so a change of files that only looks
things up takes mirrored models to mirrored models (`Mirrors.mapFiles`).
-/

namespace EntityModel

/-- References keep what they point to, and different files get different ids. -/
structure Relabelling.Renames (ρ : Relabelling) : Prop where
  keep : ρ.keep = true
  injective : Function.Injective ρ.file

/-- The files of `m'` are those of `m` under other ids and in another order. -/
structure Model.Mirrors (ρ : Relabelling) (m m' : Model) : Prop where
  renames : ρ.Renames
  files : m'.files.Perm (m.files.map (ModelFile.relabel ρ))
  ids : (m.files.map (·.id)).Nodup
  names : (m.files.map (·.name)).Nodup

variable {ρ : Relabelling}

namespace Relabelling.Renames

theorem target (h : ρ.Renames) {α : Type} [Relabelled α] (r : Reference α) :
    (r.relabel ρ).target = r.target.map (Relabelled.relabel ρ) := by
  rw [Reference.relabel_target, if_pos h.keep]

theorem id_injective (h : ρ.Renames) {k : Kind} : Function.Injective (Id.relabel ρ (k := k)) := by
  rintro ⟨f, i⟩ ⟨g, j⟩ he
  obtain ⟨hfile, hindex⟩ := Id.mk.inj he
  exact congrArg₂ Id.mk (h.injective hfile) hindex

theorem owner_injective (h : ρ.Renames) : Function.Injective (PropertyOwner.relabel ρ) := by
  intro o o' he
  cases o <;> cases o' <;> simp only [PropertyOwner.relabel, reduceCtorEq] at he
  all_goals
    injection he with he
    rw [h.id_injective he]

theorem propertyId_injective (h : ρ.Renames) : Function.Injective (PropertyId.relabel ρ) := by
  rintro ⟨o, i⟩ ⟨o', j⟩ he
  obtain ⟨howner, hindex⟩ := PropertyId.mk.inj he
  exact congrArg₂ PropertyId.mk (h.owner_injective howner) hindex

end Relabelling.Renames

/-- A look-up by key finds the same in lists that differ in order alone. -/
theorem find?_perm {α κ : Type} [BEq κ] [LawfulBEq κ] {key : α → κ} {l l' : List α} (h : l'.Perm l)
    (hnodup : (l.map key).Nodup) (k : κ) :
    l'.find? (fun x => key x == k) = l.find? (fun x => key x == k) := by
  cases hl : l.find? (fun x => key x == k) with
  | none =>
    rw [List.find?_eq_none] at hl ⊢
    exact fun x hx => hl x (h.subset hx)
  | some x =>
    have hx := List.mem_of_find?_eq_some hl
    have hk : key x = k := by simpa using List.find?_some hl
    cases hl' : l'.find? (fun x => key x == k) with
    | none => exact absurd (List.find?_eq_none.mp hl' x (h.symm.subset hx)) (by simp [hk])
    | some y =>
      have hy := h.subset (List.mem_of_find?_eq_some hl')
      have hk' : key y = k := by simpa using List.find?_some hl'
      rw [List.inj_on_of_nodup_map hnodup hy hx (hk'.trans hk.symm)]

theorem lookup_eq_find? {α κ : Type} [BEq κ] [LawfulBEq κ] (l : List (κ × α)) (k : κ) :
    l.lookup k = (l.find? (fun x => x.1 == k)).map Prod.snd := by
  induction l with
  | nil => rfl
  | cons x rest ih =>
    obtain ⟨key, a⟩ := x
    rw [List.lookup_cons, List.find?_cons, ih]
    by_cases he : k = key
    · simp [he]
    · rw [beq_false_of_ne he, beq_false_of_ne (Ne.symm he)]

theorem lookup_perm {α κ : Type} [BEq κ] [LawfulBEq κ] {f : κ → κ}
    (hf : Function.Injective f) {g : α → α}
    {l l' : List (κ × α)} (h : l'.Perm (l.map fun x => (f x.1, g x.2)))
    (hnodup : (l.map Prod.fst).Nodup) (k : κ) : l'.lookup (f k) = (l.lookup k).map g := by
  have hnodup' : ((l.map fun x => (f x.1, g x.2)).map Prod.fst).Nodup := by
    rw [List.map_map, show Prod.fst ∘ (fun x : κ × α => (f x.1, g x.2)) = f ∘ Prod.fst from rfl,
      ← List.map_map]
    exact hnodup.map hf
  have htest : (fun x : κ × α => x.1 == f k) ∘ (fun x : κ × α => (f x.1, g x.2)) = fun x =>
      x.1 == k := by
    funext x
    rw [Bool.eq_iff_iff]
    simp [hf.eq_iff]
  rw [lookup_eq_find?, lookup_eq_find?, find?_perm h hnodup', List.find?_map, htest, Option.map_map,
    Option.map_map]
  rfl

/-- What is read off the elements of a list, in lists that differ in order and labels. -/
theorem perm_flatMap {α β : Type} {φ : α → α} {ψ : β → β} {as as' : List α}
    (h : as'.Perm (as.map φ)) {g g' : α → List β} (hg : ∀ a, g' (φ a) = (g a).map ψ) :
    (as'.flatMap g').Perm ((as.flatMap g).map ψ) := by
  refine (h.flatMap_right g').trans (.of_eq ?_)
  rw [List.flatMap_map, List.map_flatMap]
  exact List.flatMap_congr fun a _ => hg a

theorem perm_filterMap {α β : Type} {φ : α → α} {ψ : β → β} {as as' : List α}
    (h : as'.Perm (as.map φ)) {g g' : α → Option β} (hg : ∀ a, g' (φ a) = (g a).map ψ) :
    (as'.filterMap g').Perm ((as.filterMap g).map ψ) := by
  refine (h.filterMap g').trans (.of_eq ?_)
  rw [List.filterMap_map, List.map_filterMap]
  exact List.filterMap_congr fun a _ => hg a

/-- A relation that another one follows step by step has no cycle if the other has none. -/
theorem acyclic_of_simulation {α β : Type} {r : α → α → Prop} {r' : β → β → Prop} {φ : α → β}
    (hφ : Function.Injective φ) (himage : ∀ {a b}, r' a b → ∃ y, φ y = b)
    (hstep : ∀ {x b}, r' (φ x) b → ∃ y, φ y = b ∧ r x y) (h : ∀ x, ¬ Relation.TransGen r x x) :
    ∀ a, ¬ Relation.TransGen r' a a := by
  have hpath : ∀ {x b}, Relation.TransGen r' (φ x) b → ∃ y, φ y = b ∧ Relation.TransGen r x y := by
    intro x b hb
    induction hb with
    | single hb =>
      obtain ⟨y, rfl, hy⟩ := hstep hb
      exact ⟨y, rfl, .single hy⟩
    | tail _ hb ih =>
      obtain ⟨y, rfl, hy⟩ := ih
      obtain ⟨z, rfl, hz⟩ := hstep hb
      exact ⟨z, rfl, hy.tail hz⟩
  intro a hcycle
  -- what the last step of the cycle leads to has a counterpart
  obtain ⟨b, -, hb⟩ := Relation.TransGen.tail'_iff.mp hcycle
  obtain ⟨x, rfl⟩ := himage hb
  obtain ⟨y, hy, hxy⟩ := hpath hcycle
  rw [hφ hy] at hxy
  exact h x hxy

namespace ModelFile

/-- Changing the lists of a relabelled file is relabelling the file with its lists changed. -/
theorem mapLists_relabel {lists lists' : PropertyOwner → List Property → List Property}
    {returns returns' : Property → Property}
    (hl : ∀ o ps, lists' (o.relabel ρ) (ps.map (Property.relabel ρ)) = (lists o ps).map
      (Property.relabel ρ))
    (hr : ∀ p, returns' (p.relabel ρ) = (returns p).relabel ρ) (f : ModelFile) :
    (f.relabel ρ).mapLists lists' returns' = (f.mapLists lists returns).relabel ρ := by
  simp only [mapLists, relabel, List.map_map, ModelFile.mk.injEq, true_and, and_true]
  refine ⟨List.map_congr_left fun d _ => ?_, List.map_congr_left fun c _ => ?_,
    List.map_congr_left fun e _ => ?_⟩
  · simp only [Function.comp, Decorator.relabel, Decorator.mk.injEq, true_and, and_true]
    exact hl (.decorator d.id) d.properties
  · simp only [Function.comp, Class.relabel, Class.mk.injEq, true_and, and_true]
    exact hl (.cls c.id) c.properties
  · simp only [Function.comp, Endpoint.relabel, Endpoint.mapParts, Option.map_map,
      Endpoint.mk.injEq, true_and, and_true]
    refine ⟨hl (.params e.id) e.params, ?_⟩
    congr 1
    funext p
    exact hr p

theorem mapProperties_relabel {g g' : Property → Property}
    (hg : ∀ p, g' (p.relabel ρ) = (g p).relabel ρ)
    (f : ModelFile) : (f.relabel ρ).mapProperties g' = (f.mapProperties g).relabel ρ := by
  refine mapLists_relabel (fun _ ps => ?_) hg f
  rw [List.map_map, List.map_map]
  exact List.map_congr_left fun p _ => hg p

end ModelFile

namespace Model.Mirrors

variable {m m' : Model}

/-! ### Looking up -/

theorem file? (h : m.Mirrors ρ m') (id : FileId) :
    m'.file? (ρ.file id) = (m.file? id).map (ModelFile.relabel ρ) := by
  have hnodup : ((m.files.map (ModelFile.relabel ρ)).map ModelFile.id).Nodup := by
    rw [List.map_map]
    exact List.map_map (g := ρ.file) ▸ h.ids.map h.renames.injective
  unfold Model.file?
  rw [find?_perm h.files hnodup, List.find?_map]
  congr 2
  funext f
  simp [h.renames.injective.eq_iff]

theorem fileNamed? (h : m.Mirrors ρ m') (name : String) :
    m'.fileNamed? name = (m.fileNamed? name).map (ModelFile.relabel ρ) := by
  have hnodup : ((m.files.map (ModelFile.relabel ρ)).map ModelFile.name).Nodup := by
    rw [List.map_map]
    exact h.names
  unfold Model.fileNamed?
  rw [find?_perm h.files hnodup, List.find?_map]
  rfl

theorem target_file? (h : m.Mirrors ρ m') (r : FileReference) :
    (r.relabel ρ).target.bind m'.file? = (r.target.bind m.file?).map (ModelFile.relabel ρ) := by
  rw [h.renames.target]
  cases r.target with
  | none => rfl
  | some id => exact h.file? id

theorem domain? (h : m.Mirrors ρ m') (id : DomainId) :
    m'.domain? (id.relabel ρ) = (m.domain? id).map (Domain.relabel ρ) := by
  simp only [Model.domain?, bind, Id.relabel_file, Id.relabel_index, h.file?]
  cases m.file? id.file <;> simp

theorem decorator? (h : m.Mirrors ρ m') (id : DecoratorId) :
    m'.decorator? (id.relabel ρ) = (m.decorator? id).map (Decorator.relabel ρ) := by
  simp only [Model.decorator?, bind, Id.relabel_file, Id.relabel_index, h.file?]
  cases m.file? id.file <;> simp

theorem cls? (h : m.Mirrors ρ m') (id : ClassId) :
    m'.cls? (id.relabel ρ) = (m.cls? id).map (Class.relabel ρ) := by
  simp only [Model.cls?, bind, Id.relabel_file, Id.relabel_index, h.file?]
  cases m.file? id.file <;> simp

theorem endpoint? (h : m.Mirrors ρ m') (id : EndpointId) :
    m'.endpoint? (id.relabel ρ) = (m.endpoint? id).map (Endpoint.relabel ρ) := by
  simp only [Model.endpoint?, bind, Id.relabel_file, Id.relabel_index, h.file?]
  cases m.file? id.file <;> simp

theorem property? (h : m.Mirrors ρ m') (id : PropertyId) :
    m'.property? (id.relabel ρ) = (m.property? id).map (Property.relabel ρ) := by
  obtain ⟨o, i⟩ := id
  cases o with
  | returns e =>
    simp only [Model.property?, PropertyId.relabel, PropertyOwner.relabel, h.endpoint?]
    cases m.endpoint? e <;> simp
  | cls id =>
    simp only [Model.property?, PropertyId.relabel, PropertyOwner.relabel, Model.ownedBy?, h.cls?]
    cases m.cls? id <;> simp
  | decorator id =>
    simp only [Model.property?, PropertyId.relabel, PropertyOwner.relabel,
      Model.ownedBy?, h.decorator?]
    cases m.decorator? id <;> simp
  | params id =>
    simp only [Model.property?, PropertyId.relabel, PropertyOwner.relabel,
      Model.ownedBy?, h.endpoint?]
    cases m.endpoint? id <;> simp

theorem target_cls? (h : m.Mirrors ρ m') (r : ClassReference) :
    (r.relabel ρ).target.bind m'.cls? = (r.target.bind m.cls?).map (Class.relabel ρ) := by
  rw [h.renames.target]
  cases r.target with
  | none => rfl
  | some id => exact h.cls? id

theorem propertiesOf (h : m.Mirrors ρ m') (c : Class) :
    m'.propertiesOf (c.relabel ρ) = (m.propertiesOf c).map (Property.relabel ρ) := by
  simp only [Model.propertiesOf, Class.relabel_properties, Class.relabel_decorators,
    List.map_append, List.flatMap_map, List.map_flatMap]
  congr 1
  refine List.flatMap_congr fun u _ => ?_
  rw [DecoratorUsage.relabel_decorator, h.renames.target]
  cases u.decorator.target with
  | none => rfl
  | some d =>
    simp only [Option.map_some, Option.bind_some]
    rw [show Relabelled.relabel ρ d = d.relabel ρ from rfl, h.decorator?]
    cases m.decorator? d <;> rfl

theorem classProperties (h : m.Mirrors ρ m') (id : ClassId) :
    m'.classProperties (id.relabel ρ) = (m.classProperties id).map (Property.relabel ρ) := by
  unfold Model.classProperties
  rw [h.cls?]
  cases m.cls? id with
  | none => rfl
  | some c => exact h.propertiesOf c

theorem parent? (h : m.Mirrors ρ m') (id : ClassId) :
    m'.parent? (id.relabel ρ) = (m.parent? id).map (Id.relabel ρ) := by
  simp only [Model.parent?, bind, h.cls?]
  cases m.cls? id with
  | none => rfl
  | some c =>
    cases hp : c.parent with
    | none => simp [hp]
    | some r =>
      simp only [Option.map_some, Option.bind_some, Class.relabel_parent, hp]
      exact h.renames.target r

/-! ### Keys -/

theorem isPrimaryKey_relabel (p : Property) : (p.relabel ρ).isPrimaryKey = p.isPrimaryKey := by
  cases hk : p.kind <;> simp [Property.isPrimaryKey, hk, PropertyKind.relabel]

theorem primaryKey (h : m.Mirrors ρ m') (id : ClassId) :
    m'.primaryKey (id.relabel ρ) = (m.primaryKey id).map (Property.relabel ρ) := by
  unfold Model.primaryKey
  rw [h.classProperties, List.filter_map]
  congr 2
  funext p
  exact isPrimaryKey_relabel p

theorem singlePrimaryKey (h : m.Mirrors ρ m') (id : ClassId) :
    m'.singlePrimaryKey (id.relabel ρ) = (m.singlePrimaryKey id).map (Property.relabel ρ) := by
  unfold Model.singlePrimaryKey
  rw [h.primaryKey]
  match m.primaryKey id with
  | [] => rfl
  | [p] => rfl
  | _ :: _ :: _ => rfl

theorem keyOf (h : m.Mirrors ρ m') (a : AssociationProperty) :
    m'.keyOf (a.relabel ρ) = (m.keyOf a).map (PropertyId.relabel ρ) := by
  unfold Model.keyOf
  rw [AssociationProperty.relabel_property]
  cases a.property with
  | some r => exact h.renames.target r
  | none =>
    simp only [Option.map_none, AssociationProperty.relabel_association, h.renames.target, bind]
    cases a.association.target with
    | none => rfl
    | some c =>
      simp only [Option.map_some, Option.bind_some]
      rw [show Relabelled.relabel ρ c = c.relabel ρ from rfl, h.singlePrimaryKey]
      cases m.singlePrimaryKey c <;> rfl

/-! ### Model order -/

theorem declared (h : m.Mirrors ρ m') {α : Type} {decls : ModelFile → List α} {g : α → α}
    (hg : ∀ f, decls (f.relabel ρ) = (decls f).map g) :
    (m'.files.flatMap decls).Perm ((m.files.flatMap decls).map g) :=
  perm_flatMap h.files hg

theorem classes (h : m.Mirrors ρ m') : m'.classes.Perm (m.classes.map (Class.relabel ρ)) :=
  h.declared fun _ => rfl

theorem decorators (h : m.Mirrors ρ m') :
    m'.decorators.Perm (m.decorators.map (Decorator.relabel ρ)) :=
  h.declared fun _ => rfl

theorem endpoints (h : m.Mirrors ρ m') : m'.endpoints.Perm (m.endpoints.map (Endpoint.relabel ρ)) :=
  h.declared fun _ => rfl

theorem domains (h : m.Mirrors ρ m') : m'.domains.Perm (m.domains.map (Domain.relabel ρ)) :=
  h.declared fun _ => rfl

theorem properties_endpoint_relabel (e : Endpoint) :
    (e.relabel ρ).properties = e.properties.map (Property.relabel ρ) := by
  cases hr : e.returns <;> simp [Endpoint.properties, hr]

theorem properties (h : m.Mirrors ρ m') :
    m'.properties.Perm (m.properties.map (Property.relabel ρ)) := by
  unfold Model.properties
  rw [List.map_append, List.map_append]
  exact .append (.append (perm_flatMap h.classes fun _ => rfl)
    (perm_flatMap h.decorators fun _ => rfl)) (perm_flatMap h.endpoints properties_endpoint_relabel)

/-! ### Changing files -/

/-- **Changing files in a way that relabelling does not touch takes mirrored models to mirrored
ones.** -/
theorem mapFiles (h : m.Mirrors ρ m') {g g' : ModelFile → ModelFile} (hid : ∀ f, (g f).id = f.id)
    (hname : ∀ f, (g f).name = f.name)
    (hg : ∀ f ∈ m.files, g' (f.relabel ρ) = (g f).relabel ρ) :
    (m.mapFiles g).Mirrors ρ (m'.mapFiles g') where
  renames := h.renames
  files := by
    refine (h.files.map g').trans ?_
    simp only [Model.mapFiles, List.map_map]
    exact .of_eq (List.map_congr_left hg)
  ids := by
    simp only [Model.mapFiles, List.map_map, Function.comp_def, hid]
    exact h.ids
  names := by
    simp only [Model.mapFiles, List.map_map, Function.comp_def, hname]
    exact h.names

theorem mapClasses (h : m.Mirrors ρ m') {g g' : Class → Class}
    (hg : ∀ c ∈ m.classes, g' (c.relabel ρ) = (g c).relabel ρ) :
    (m.mapClasses g).Mirrors ρ (m'.mapClasses g') := by
  refine h.mapFiles (fun _ => rfl) (fun _ => rfl) fun f hf => ?_
  simp only [ModelFile.mapClasses, ModelFile.relabel, List.map_map, ModelFile.mk.injEq,
    true_and, and_true]
  exact List.map_congr_left fun c hc => hg c (List.mem_flatMap.mpr ⟨f, hf, hc⟩)

theorem mapLists (h : m.Mirrors ρ m') {lists lists' : PropertyOwner → List Property → List Property}
    {returns returns' : Property → Property}
    (hl : ∀ o ps, lists' (o.relabel ρ) (ps.map (Property.relabel ρ)) = (lists o ps).map
      (Property.relabel ρ)) (hr : ∀ p, returns' (p.relabel ρ) = (returns p).relabel ρ) :
    (m.mapLists lists returns).Mirrors ρ (m'.mapLists lists' returns') :=
  h.mapFiles (fun _ => rfl) (fun _ => rfl) fun f _ => f.mapLists_relabel hl hr

theorem mapProperties (h : m.Mirrors ρ m') {g g' : Property → Property}
    (hg : ∀ p, g' (p.relabel ρ) = (g p).relabel ρ) :
    (m.mapProperties g).Mirrors ρ (m'.mapProperties g') :=
  h.mapFiles (fun _ => rfl) (fun _ => rfl) fun f _ => f.mapProperties_relabel hg

end Model.Mirrors

end EntityModel
