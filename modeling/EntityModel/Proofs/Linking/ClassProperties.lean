import EntityModel.Linking.PropertyReferences
import EntityModel.Proofs.Linking.Targets
import EntityModel.Proofs.Model.Frame

/-!
# References of classes to their own properties

Once all names are known, what classes name in keys, values and their default, order and flag
properties is looked up among their own properties.  This touches no property, so that every name
stays (`Model.propertyName?_mapClasses`), and what it resolves goes by the name in the reference in
the model that it leaves (`goesBy_of_mem_mentions`).
-/

namespace EntityModel

namespace Model

variable {m : Model} {rules : NamingRules} {g : Class → Class}

theorem classes_mapClasses (m : Model) (g : Class → Class) :
    (m.mapClasses g).classes = m.classes.map g := by
  simp [classes, mapClasses, mapFiles, ModelFile.mapClasses, List.flatMap_map, List.map_flatMap]

theorem nameWithin_mapClasses (hg : Surrounding g) (m : Model) (fuel : Nat) (id : PropertyId) :
    (m.mapClasses g).nameWithin rules fuel id = m.nameWithin rules fuel id := by
  induction fuel generalizing id with
  | zero => rfl
  | succ fuel ih =>
    have hbelow : (m.mapClasses g).nameWithin rules fuel = m.nameWithin rules fuel := funext ih
    rw [nameWithin_succ, nameWithin_succ, property?_mapClasses hg, hbelow]
    congr 1
    funext p
    have hcls : ∀ c : Option ClassId, (c.bind (m.mapClasses g).cls?).map (·.name.value)
        = (c.bind m.cls?).map (·.name.value) := by
      rintro (_ | c)
      · rfl
      · exact className_mapClasses hg m c
    unfold nameOf
    cases p.kind.declaredName? with
    | some name => rfl
    | none =>
      cases p.kind with
      | association a =>
        simp only [keyOf_mapClasses hg]
        have := hcls a.association.target
        cases hn : a.association.target.bind (m.mapClasses g).cls? <;>
          cases hn' : a.association.target.bind m.cls? <;> simp_all
      | propertyAlias a => simp only [hcls]
      | _ => rfl

theorem propertyName?_mapClasses (hg : Surrounding g) (m : Model) :
    (m.mapClasses g).propertyName? rules = m.propertyName? rules :=
  funext (nameWithin_mapClasses hg m _)

theorem GoesBy.mapClasses (hg : Surrounding g) {C : ClassId} {name : String} {t : PropertyId} :
    (m.mapClasses g).GoesBy rules C name t ↔ m.GoesBy rules C name t := by
  unfold GoesBy
  rw [classProperties_mapClasses hg, propertyName?_mapClasses hg]

end Model

/-- What a class names of its own properties: default, order and flag property, unique keys, and the
fields of its values. -/
def Class.mentions (c : Class) : List PropertyReference :=
  ([c.defaultProperty, c.orderProperty, c.flagProperty].filterMap fun r => r)
    ++ c.uniqueKeys.flatten
    ++ c.values.flatMap fun v => v.fields.map ValueField.property

/-- What a class names once every reference in it is changed by `g`. -/
theorem Class.mentions_map {g : PropertyReference → PropertyReference} {c c' : Class}
    (hdefault : c'.defaultProperty = c.defaultProperty.map g)
    (horder : c'.orderProperty = c.orderProperty.map g)
    (hflag : c'.flagProperty = c.flagProperty.map g)
    (hkeys : c'.uniqueKeys = c.uniqueKeys.map fun key => key.map g)
    (hfields : (c'.values.flatMap fun v => v.fields.map ValueField.property)
      = (c.values.flatMap fun v => v.fields.map ValueField.property).map g) :
    c'.mentions = c.mentions.map g := by
  have hspecial : ∀ a b d : Option PropertyReference,
      [a.map g, b.map g, d.map g].filterMap (fun r => r)
        = ([a, b, d].filterMap fun r => r).map g := by
    intro a b d
    cases a <;> cases b <;> cases d <;> rfl
  unfold mentions
  rw [hdefault, horder, hflag, hspecial, hkeys, hfields, List.map_append, List.map_append,
    List.map_flatten]

namespace Linking

variable {m : Model} {rules : NamingRules}

theorem surrounding_resolveClassProperties (find : ClassId → String → Option PropertyId) :
    Model.Surrounding fun c => resolveClassProperties (find c.id) c :=
  ⟨fun _ => rfl, fun _ => rfl, fun _ => rfl, fun _ => rfl⟩

/-- **Every property that a class names is looked up on its own.** -/
theorem mentions_resolveClassProperties (find : String → Option PropertyId) (c : Class) :
    (resolveClassProperties find c).mentions = c.mentions.map (resolveBy find) :=
  Class.mentions_map rfl rfl rfl rfl (by
    simp [resolveClassProperties, List.flatMap_map, List.map_flatMap, Function.comp_def])

theorem resolveBy_target {α : Type} {find : String → Option α} {r : Reference α} {t : α}
    (h : (resolveBy find r).target = some t) : find r.text = some t ∨ r.target = some t := by
  unfold resolveBy at h
  split at h
  next x hx => exact Or.inl (hx.trans h)
  · exact Or.inr h

theorem resolveBy_text {α : Type} (find : String → Option α) (r : Reference α) :
    (resolveBy find r).text = r.text := by
  unfold resolveBy
  split <;> rfl

theorem resolveBy_location {α : Type} (find : String → Option α) (r : Reference α) :
    (resolveBy find r).location = r.location := by
  unfold resolveBy
  split <;> rfl

theorem resolvePropertyReferences_eq (rules : NamingRules) (m : Model) :
    resolvePropertyReferences rules m
      = m.mapClasses fun c => resolveClassProperties (m.findProperty rules c.id) c := rfl

theorem Sound.resolvePropertyReferences (h : Sound rules false m) :
    Sound rules false (resolvePropertyReferences rules m) := by
  have hg := surrounding_resolveClassProperties (m.findProperty rules)
  rw [resolvePropertyReferences_eq]
  refine ⟨h.numbered.mapClasses hg, fun p hp cls r hl t ht => ?_, ?_⟩
  · rw [Model.properties_mapClasses hg] at hp
    obtain ⟨C, hC, _, hname⟩ := h.grounded p hp cls r hl t ht
    exact ⟨C, hC, by simp, (Model.GoesBy.mapClasses hg).mpr hname⟩
  · refine h.acyclic.of_agree fun _ b _ => ?_
    rw [aliasTarget_eq, aliasTarget_eq, Model.property?_mapClasses hg]

/-- **What a class names of its own goes by that name once it is resolved**, if nothing was resolved
before. -/
theorem goesBy_of_mem_mentions (hopen : ∀ c ∈ m.classes, ∀ r ∈ c.mentions, r.target = none)
    {c : Class}
    (hc : c ∈ (resolvePropertyReferences rules m).classes) {r : PropertyReference}
    (hr : r ∈ c.mentions) {t : PropertyId} (ht : r.target = some t) :
    (resolvePropertyReferences rules m).GoesBy rules c.id r.text t := by
  have hg := surrounding_resolveClassProperties (m.findProperty rules)
  rw [resolvePropertyReferences_eq] at hc ⊢
  rw [Model.classes_mapClasses, List.mem_map] at hc
  obtain ⟨c, hc, rfl⟩ := hc
  rw [mentions_resolveClassProperties, List.mem_map] at hr
  obtain ⟨r, hr, rfl⟩ := hr
  rw [Model.GoesBy.mapClasses hg, resolveBy_text]
  rcases resolveBy_target ht with hfound | hold
  · exact Model.goesBy_of_findProperty hfound
  · rw [hopen c hc r hr] at hold
    exact absurd hold (by simp)

end Linking

end EntityModel
