import EntityModel.Proofs.Linking.Fixpoints
import EntityModel.Proofs.Linking.ReportPlaces
import EntityModel.Proofs.Store.Diagnosed

/-!
# Names of properties in a linked store

Associations name a property of the class that they point to, and classes name their own in keys,
values and their default, order and flag properties.  Some of these names are only known after
rounds, in which classes that still have choices wait and nothing is reported.  In the end nothing
is missed: a name is resolved if and only if the class has a property of that name in the linked
store, and for each name that it has not there is one report in the file, and no other
(`Reachable.property_names_exact`).
-/

namespace EntityModel

def Model.hasProperty (m : Model) (rules : NamingRules) (C : ClassId) (name : String) : Bool :=
  (m.classProperties C).any fun q => m.propertyName? rules q.id == some name

/-- The property that an association names, with the class that it points to, if that is known. -/
def Property.namedTarget (p : Property) : Option (ClassId × PropertyReference) := do
  let a ← p.association?
  let reference ← a.property
  let cls ← a.association.target
  return (cls, reference)

namespace Linking

variable {rules : NamingRules} {m : Model}

/-! ### What is to be reported -/

/-- The names in the associations of a file that their classes do not have. -/
def unknownTargets (m : Model) (rules : NamingRules) (f : ModelFile) : List Diagnostic :=
  f.properties.filterMap fun p => do
    let (cls, reference) ← p.namedTarget
    if m.hasProperty rules cls reference.text then none
    else some { problem := .propertyNotFound reference.text (className m cls)
                location := reference.location }

/-- The names in the unique keys of a class that it does not have. -/
def unknownKeys (m : Model) (rules : NamingRules) (c : Class) : List Diagnostic :=
  (c.uniqueKeys.flatten.filter fun r => !m.hasProperty rules c.id r.text).map (uniqueKeyMissing c)

/-- The default, order and flag properties and the fields of values of a class that it does not
have. -/
def unknownNames (m : Model) (rules : NamingRules) (c : Class) : List Diagnostic :=
  ((([c.defaultProperty, c.orderProperty, c.flagProperty].filterMap id)
      ++ c.values.flatMap fun v => v.fields.map ValueField.property).filter fun r =>
    !m.hasProperty rules c.id r.text).map (propertyMissing c)

/-! ### Resolved if there is one -/

theorem hasProperty_iff {C : ClassId} {name : String} :
    m.hasProperty rules C name = true ↔
      ∃ q ∈ m.classProperties C, m.propertyName? rules q.id = some name := by
  simp [Model.hasProperty]

theorem isSome_findProperty (m : Model) (rules : NamingRules) (C : ClassId) (name : String) :
    (m.findProperty rules C name).isSome = m.hasProperty rules C name := by
  rw [Model.findProperty, Option.isSome_map, Model.hasProperty, Bool.eq_iff_iff, List.find?_isSome,
    List.any_eq_true]

theorem namedTarget_eq_some {p : Property} {C : ClassId} {r : PropertyReference} :
    p.namedTarget = some (C, r) ↔
      ∃ a, p.kind = .association a ∧ a.property = some r ∧ a.association.target = some C := by
  unfold Property.namedTarget Property.association?
  cases hk : p.kind with
  | association a => cases hr : a.property <;> cases hC : a.association.target
    <;> simp [hr, hC, and_comm]
  | _ => simp

theorem findProperty_link (m : Model) (rules : NamingRules) :
    (m.link rules).model.findProperty rules = (associated rules m).findProperty rules := by
  have hg := surrounding_resolveClassProperties ((associated rules m).findProperty rules)
  funext C name
  rw [link_model, resolvePropertyReferences_eq, Model.findProperty,
    Model.classProperties_mapClasses hg, Model.propertyName?_mapClasses hg]
  rfl

/-- **The property that an association names is resolved if and only if there is one of that name**
on the class that it points to. -/
theorem resolved_target_iff (h : m.AsLoaded) {p : Property}
    (hp : p ∈ (m.link rules).model.properties)
    {C : ClassId} {r : PropertyReference} (hnamed : p.namedTarget = some (C, r)) :
    r.target.isSome = (m.link rules).model.hasProperty rules C r.text := by
  obtain ⟨a, hk, hr, hC⟩ := namedTarget_eq_some.mp hnamed
  rw [Bool.eq_iff_iff]
  constructor
  · intro ht
    obtain ⟨t, ht⟩ := Option.isSome_iff_exists.mp ht
    obtain ⟨C', hC', -, q, hq, rfl, hname⟩ := (sound_link rules h).grounded p hp a.association r
      (by simp [hk, PropertyKind.lookup?, hr]) t ht
    obtain rfl := Option.some.inj (hC.symm.trans hC')
    exact hasProperty_iff.mpr ⟨q, hq, hname⟩
  · -- the last rounds would have found it
    intro hhas
    by_contra hopen
    rw [Bool.not_eq_true, Option.isSome_eq_false_iff, Option.isNone_iff_eq_none] at hopen
    rw [properties_link] at hp
    have hnone := associationTarget_resolveAssociations rules false (expanded rules m).model hp
    rw [← isSome_findProperty, findProperty_link, Option.isSome_iff_exists] at hhas
    obtain ⟨t, ht⟩ := hhas
    have hfound := associationTarget_eq_some.mpr
      ⟨C, r, openTarget_eq_some.mpr ⟨a, hk, hr, hC, hopen⟩,
        fun h => absurd h Bool.false_ne_true, ht⟩
    exact absurd (hnone.symm.trans hfound) (by simp)

/-- **What a class names of its own is what is found under the name in the linked model.** -/
theorem target_of_mention (h : m.AsLoaded) {c : Class} (hc : c ∈ (m.link rules).model.classes)
    {r : PropertyReference} (hr : r ∈ c.mentions) :
    r.target = (m.link rules).model.findProperty rules c.id r.text := by
  rw [findProperty_link]
  rw [link_model, resolvePropertyReferences_eq, Model.classes_mapClasses, List.mem_map] at hc
  obtain ⟨c₀, hc₀, rfl⟩ := hc
  rw [mentions_resolveClassProperties, List.mem_map] at hr
  obtain ⟨r₀, hr₀, rfl⟩ := hr
  rw [resolveBy_open _ (mentions_associated h hc₀ hr₀), resolveBy_text]
  rfl

theorem resolved_mention_iff (h : m.AsLoaded) {c : Class} (hc : c ∈ (m.link rules).model.classes)
    {r : PropertyReference} (hr : r ∈ c.mentions) :
    r.target.isSome = (m.link rules).model.hasProperty rules c.id r.text := by
  rw [target_of_mention h hc hr, isSome_findProperty]

/-! ### Reported if there is none -/

/-- What is found wrong with the elements of a list, those that pass a test alone. -/
theorem filter_filterMap_of {α β : Type} {g : α → Option β} {P : β → Bool}
    {Q : α → Bool} {l : List α}
    (h : ∀ a ∈ l, ∀ b, g a = some b → P b = Q a) :
    (l.filterMap g).filter P = (l.filter Q).filterMap g := by
  rw [List.filter_filterMap, List.filterMap_filter]
  refine List.filterMap_congr fun a ha => ?_
  cases hg : g a with
  | none => simp
  | some b => rw [Option.filter_some, h a ha b hg]

theorem openTarget_eq_filter (p : Property) :
    openTarget p = p.namedTarget.filter fun x => x.2.target.isNone := by
  cases hnamed : p.namedTarget with
  | none =>
    cases ho : openTarget p with
    | none => rfl
    | some x =>
      obtain ⟨a, hk, hr, hC, -⟩ := openTarget_eq_some.mp ho
      rw [namedTarget_eq_some.mpr ⟨a, hk, hr, hC⟩] at hnamed
      simp at hnamed
  | some x =>
    obtain ⟨a, hk, hr, hC⟩ := namedTarget_eq_some.mp hnamed
    rw [Option.filter_some]
    split
    next ht => exact openTarget_eq_some.mpr ⟨a, hk, hr, hC, Option.isNone_iff_eq_none.mp ht⟩
    next ht =>
      rw [Option.eq_none_iff_forall_ne_some]
      intro y hy
      obtain ⟨a', hk', hr', -, ht'⟩ := openTarget_eq_some.mp hy
      obtain rfl := PropertyKind.association.inj (hk.symm.trans hk')
      rw [Option.some.inj (hr.symm.trans hr'), ht'] at ht
      exact ht rfl

/-- Where names in associations are resolved if they can be, **those that their classes do not have
are reported**, each once and in order. -/
theorem filter_associationProblems (rules : NamingRules) (hm : m.Numbered) {f : ModelFile}
    (hf : f ∈ m.files) (hresolved : ∀ p ∈ m.properties, ∀ C r, p.namedTarget = some (C, r) →
      r.target.isSome = m.hasProperty rules C r.text)
    (hfile : ∀ p ∈ m.properties, ∀ C r, openTarget p = some (C, r) →
      r.location.file = p.owner.file) :
    (associationProblems m).filter (·.file == f.id) = unknownTargets m rules f := by
  unfold associationProblems unknownTargets
  rw [filter_filterMap_of (Q := fun p => p.owner.file == f.id), hm.properties_of_file hf]
  · refine List.filterMap_congr fun p hp => ?_
    rw [openTarget_eq_filter]
    cases hnamed : p.namedTarget with
    | none => rfl
    | some x =>
      have hopen := hresolved p (Model.properties_of_mem hf hp) x.1 x.2 hnamed
      rw [Option.filter_some, ← Option.not_isSome, hopen]
      cases hhas : m.hasProperty rules x.1 x.2.text <;> simp [hhas]
  · intro p hp d hd
    obtain ⟨x, ho, hd⟩ := Option.bind_eq_some_iff.mp hd
    obtain rfl := Option.some.inj hd
    rw [Diagnostic.file, hfile p hp x.1 x.2 ho]

/-- What is reported of a class whose names are open if it has no property of the name. -/
theorem filter_classPropertyProblems {c : Class}
    (hresolved : ∀ r ∈ c.mentions, r.target.isSome = m.hasProperty rules c.id r.text) :
    (classPropertyProblems c).filter (·.kind == .uniqueKeyPropertyNotFound)
      = unknownKeys m rules c ∧
      (classPropertyProblems c).filter (·.kind == .propertyNotFound) = unknownNames m rules c := by
  have hmissing : ∀ rs : List PropertyReference,
      OfKinds [.propertyNotFound] (rs.map (propertyMissing c)) :=
    fun _ => .map fun _ _ => rfl
  have hkeys : ∀ rs : List PropertyReference,
      OfKinds [.uniqueKeyPropertyNotFound] (rs.map (uniqueKeyMissing c)) :=
      fun _ => .map fun _ _ => rfl
  have hfilter : ∀ rs : List PropertyReference, rs ⊆ c.mentions →
      rs.filter isOpen = rs.filter fun r => !m.hasProperty rules c.id r.text :=
    fun rs hrs => List.filter_congr fun r hr => by
      rw [← hresolved r (hrs hr), Option.not_isSome, isOpen]
  unfold classPropertyProblems unknownKeys unknownNames
  simp only [List.filter_append]
  rw [(hkeys _).filter_eq_self, (hkeys _).filter_eq_nil (by decide), (hmissing _).filter_eq_self,
    (hmissing _).filter_eq_nil (by decide), (hmissing _).filter_eq_self,
    (hmissing _).filter_eq_nil (by decide), hfilter, hfilter, hfilter]
  · simp
  · exact fun r hr => List.mem_append_right _ hr
  · exact fun r hr => List.mem_append_left _ (List.mem_append_left _ hr)
  · exact fun r hr => List.mem_append_left _ (List.mem_append_right _ hr)

/-- Where what classes name is resolved if it can be, **what they do not have is reported**, each
once and in order. -/
theorem filter_propertyReferenceProblems (rules : NamingRules) (hm : m.Numbered)
    {f : ModelFile} (hf : f ∈ m.files)
    (hresolved : ∀ c ∈ m.classes, ∀ r ∈ c.mentions,
      r.target.isSome = m.hasProperty rules c.id r.text)
    (hfile : ∀ f ∈ m.files, ∀ c ∈ f.classes, ∀ r ∈ c.mentions, r.location.file = f.id) :
    ((propertyReferenceProblems m).filter (·.kind == .uniqueKeyPropertyNotFound)).filter
      (·.file == f.id)
        = f.classes.flatMap (unknownKeys m rules) ∧
      ((propertyReferenceProblems m).filter (·.kind == .propertyNotFound)).filter (·.file == f.id)
        = f.classes.flatMap (unknownNames m rules) := by
  have hids := (Model.numbered_iff.mp hm).1
  have hplace : ∀ f ∈ m.files, ∀ d ∈ f.classes.flatMap classPropertyProblems, d.file = f.id := by
    intro f hf d hd
    obtain ⟨c, hc, hd⟩ := List.mem_flatMap.mp hd
    obtain ⟨r, hr, hl⟩ := exists_mention_of_problem hd
    rw [Diagnostic.file, hl]
    exact hfile f hf c hc r hr
  have hkind : ∀ k, ((propertyReferenceProblems m).filter (·.kind == k)).filter (·.file == f.id)
      = f.classes.flatMap fun c => (classPropertyProblems c).filter (·.kind == k) := by
    intro k
    rw [propertyReferenceProblems, Model.classes, List.flatMap_assoc, List.filter_comm,
      Model.filter_of_file hids Diagnostic.file hplace hf, List.filter_flatMap]
  refine ⟨(hkind _).trans ?_, (hkind _).trans ?_⟩
  · exact List.flatMap_congr fun c hc =>
      (filter_classPropertyProblems (hresolved c (List.mem_flatMap.mpr ⟨f, hf, hc⟩))).1
  · exact List.flatMap_congr fun c hc =>
      (filter_classPropertyProblems (hresolved c (List.mem_flatMap.mpr ⟨f, hf, hc⟩))).2

theorem associationProblems_link (m : Model) (rules : NamingRules) :
    associationProblems (m.link rules).model = associationProblems (associated rules m) := by
  have hg := surrounding_resolveClassProperties ((associated rules m).findProperty rules)
  have hname : className (m.link rules).model = className (associated rules m) := by
    funext C
    rw [className, className, link_model, resolvePropertyReferences_eq,
      Model.className_mapClasses hg]
  rw [associationProblems, properties_link, hname]
  rfl

/-- A name that an association still looks for stands in the file of the association. -/
theorem location_of_openTarget (h : m.AsLoaded) {p : Property}
    (hp : p ∈ (m.link rules).model.properties)
    {C : ClassId} {r : PropertyReference} (ho : openTarget p = some (C, r)) :
    r.location.file = p.owner.file := by
  obtain ⟨g, hg, hpg⟩ := Model.exists_file_of_mem hp
  obtain ⟨a, hk, hr, -, ht⟩ := openTarget_eq_some.mp ho
  rw [((Model.numbered_iff.mp (sound_link rules h).numbered).2 g hg).owner_file hpg]
  exact (property_origin h hg hpg).2.1 a.association r (by simp [hk, PropertyKind.lookup?, hr]) ht

theorem filter_link_of_file (h : m.AsLoaded) {f : ModelFile} (hf : f ∈ (m.link rules).model.files) :
    ((m.link rules).problems.filter (·.kind == .uniqueKeyPropertyNotFound)).filter (·.file == f.id)
        = f.classes.flatMap (unknownKeys (m.link rules).model rules) ∧
      ((m.link rules).problems.filter (·.kind == .propertyNotFound)).filter (·.file == f.id)
        = ((expanded rules m).problems.filter (·.kind == .propertyNotFound)).filter (·.file == f.id)
          ++ unknownTargets (m.link rules).model rules f
          ++ f.classes.flatMap (unknownNames (m.link rules).model rules) := by
  have hnumbered := (sound_link rules h).numbered
  have htargets := filter_associationProblems rules hnumbered hf
    (fun p hp C r hnamed => resolved_target_iff h hp hnamed)
    (fun p hp C r ho => location_of_openTarget h hp ho)
  obtain ⟨hkeys, hnames⟩ := filter_propertyReferenceProblems rules hnumbered hf
    (fun c hc r hr => resolved_mention_iff h hc hr)
    (fun g hg c hc r hr => location_of_mention h hg hc hr)
  have hassociations := kinds_associationProblems (associated rules m)
  rw [associationProblems_link] at htargets
  have hkeyParts : (reportParts rules m).filter (·.1.contains .uniqueKeyPropertyNotFound)
      = [([.propertyNotFound, .uniqueKeyPropertyNotFound],
        propertyReferenceProblems (m.link rules).model)] := rfl
  have hnameParts : (reportParts rules m).filter (·.1.contains .propertyNotFound)
      = [([.propertyNotFound, .circularAlias], (expanded rules m).problems),
        ([.propertyNotFound], associationProblems (associated rules m)),
        ([.propertyNotFound, .uniqueKeyPropertyNotFound],
          propertyReferenceProblems (m.link rules).model)] := rfl
  constructor
  · rw [filter_link_kind rules h, hkeyParts, List.flatMap_singleton, hkeys]
  · rw [filter_link_kind rules h, hnameParts, List.flatMap_cons, List.flatMap_cons,
      List.flatMap_singleton, hassociations.filter_eq_self, ← List.append_assoc, List.filter_append,
      List.filter_append, htargets, hnames]

end Linking

namespace Store

open Linking

variable {s : Store}

/-- **In a linked store a name of a property is resolved if and only if there is a property of that
name**: one of the class that an association points to, or of the class whose keys, values, default,
order or flag property it is.  **Of the others each is reported once**, in its file and in order:
keys as keys, and the rest behind what is reported about aliases of the file. -/
theorem Reachable.property_names_exact (h : s.Reachable) :
    (∀ p ∈ s.link.1.model.properties, ∀ C r, p.namedTarget = some (C, r) →
      (r.target.isSome = true ↔ ∃ q ∈ s.link.1.model.classProperties C,
        s.link.1.model.propertyName? s.naming q.id = some r.text)) ∧
    (∀ c ∈ s.link.1.model.classes, ∀ r ∈ c.mentions,
      (r.target.isSome = true ↔ ∃ q ∈ s.link.1.model.classProperties c.id,
        s.link.1.model.propertyName? s.naming q.id = some r.text)) ∧
    ∀ f ∈ s.link.1.model.files,
      (s.link.1.problemsOf f.id).filter (·.kind == .uniqueKeyPropertyNotFound)
          = f.classes.flatMap (unknownKeys s.link.1.model s.naming) ∧
        ∃ others : List Diagnostic,
          (∀ d ∈ others, ∃ g ∈ s.draftModel.files, g.id = f.id ∧
            ∃ p ∈ g.properties, isOpenAlias p = true ∧ d.location ∈ reportPlaces p) ∧
          (s.link.1.problemsOf f.id).filter (·.kind == .propertyNotFound)
            = others ++ unknownTargets s.link.1.model s.naming f
              ++ f.classes.flatMap (unknownNames s.link.1.model s.naming) := by
  have hm := h.drafted.asLoaded
  rw [link_model]
  refine ⟨fun p hp C r hnamed => ?_, fun c hc r hr => ?_, fun f hf => ?_⟩
  · rw [resolved_target_iff hm hp hnamed, hasProperty_iff]
  · rw [resolved_mention_iff hm hc hr, hasProperty_iff]
  · obtain ⟨hkeys, hnames⟩ := filter_link_of_file hm hf
    rw [filter_problemsOf s rfl (by decide), filter_problemsOf s rfl (by decide)]
    refine ⟨hkeys, _, fun d hd => ?_, hnames⟩
    obtain ⟨hd, hfile⟩ := List.mem_filter.mp hd
    obtain ⟨g, hg, hid, p, hp, ho, hplace⟩ := exists_alias_of_problem hm (List.mem_of_mem_filter hd)
    exact ⟨g, hg, hid.symm.trans (beq_iff_eq.mp hfile), p, hp, ho, hplace⟩

/-- A store with a class that has one of the three properties that are named in it. -/
def halfKnown : Store :=
  loadAll {} [("A",
    "module: M\n---\nclass:\n name: A\n defaultProperty: X\n unique: [[Y]]\n properties:\n"
      ++ " - composition: A\n   name: X\n - association: A\n   property: Z")]

/-- There the one is resolved, and the others are reported once. -/
theorem property_names_exact_in_halfKnown :
    ∃ f ∈ halfKnown.link.1.model.files,
      ((halfKnown.link.1.problemsOf f.id).filter (·.kind == .uniqueKeyPropertyNotFound)).length
        = 1 ∧
      (unknownTargets halfKnown.link.1.model halfKnown.naming f).length = 1 ∧
      ∃ c ∈ f.classes, ∃ r ∈ c.mentions, r.target.isSome = true ∧
        ∃ q ∈ halfKnown.link.1.model.classProperties c.id,
          halfKnown.link.1.model.propertyName? halfKnown.naming q.id = some r.text := by
  have hfound : (halfKnown.link.1.model.files.any fun f =>
      (f.classes.flatMap (unknownKeys halfKnown.link.1.model halfKnown.naming)).length == 1 &&
        (unknownTargets halfKnown.link.1.model halfKnown.naming f).length == 1 &&
        f.classes.any fun c => c.mentions.any fun r => r.target.isSome) = true := by
    have hspelled : halfKnown = _ :=
      loadAll_eq_foldl (.cons (toList_append_eq String.toList_ofList String.toList_ofList) .nil)
    rw [hspelled]
    decide +kernel
  have hreach : halfKnown.Reachable := reachable_loadAll {} _
  obtain ⟨-, hmentions, hreports⟩ := Reachable.property_names_exact hreach
  obtain ⟨f, hf, hfound⟩ := List.any_eq_true.mp hfound
  simp only [Bool.and_eq_true, beq_iff_eq, List.any_eq_true] at hfound
  obtain ⟨⟨hkeys, htargets⟩, c, hc, r, hr, hresolved⟩ := hfound
  refine ⟨f, hf, by rw [(hreports f hf).1, hkeys], htargets, c, hc, r, hr, hresolved, ?_⟩
  exact (hmentions c (List.mem_flatMap.mpr ⟨f, hf, hc⟩) r hr).mp hresolved

end Store

end EntityModel
