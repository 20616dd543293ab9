import EntityModel.Proofs.Linking.Replacements
import EntityModel.Proofs.Mirroring.Linked
import EntityModel.Proofs.Store.Diagnosed

/-!
# Property lists of a linked store

Linking changes a property list in one way only: an alias that names no property gives way to
aliases of the properties that it selects, and whatever else there is stays, its references resolved
(`Reachable.lists_expanded`).  What is selected is said in terms of the linked model (`Selects`):
its classes with all their properties, those that come from decorators or stood for others included,
and the names that these go by in the end.
-/

namespace EntityModel

open ModelFile (only)

theorem Reference.ofName_of_fixed {α : Type} [Relabelled α] {id : FileId} {r : Reference α}
    (h : r.relabel (only id) = r) : Reference.ofName r.name = r := by
  have hopen := (Reference.of_fixed h).1
  cases r
  simp only [Reference.ofName, Reference.mk.injEq, true_and]
  exact hopen.symm

theorem Property.unlinked_of_fixed {id : FileId} {p : Property} (h : p.relabel (only id) = p) :
    p.kind.unlinked = p.kind := by
  have hkind := congrArg Property.kind h
  have homap : ∀ {α : Type} [Relabelled α] {o : Option (Reference α)},
      o.map (·.relabel (only id)) = o →
      o.map (fun r => Reference.ofName r.name) = o := by
    intro α _ o ho
    cases o with
    | none => rfl
    | some r => exact congrArg some (Reference.ofName_of_fixed (Option.some.inj ho))
  cases hk : p.kind with
  | regular x =>
    rw [Property.relabel, hk, PropertyKind.relabel] at hkind
    have hx := PropertyKind.regular.inj hkind
    rw [PropertyKind.unlinked, Reference.ofName_of_fixed (congrArg RegularProperty.domain hx)]
  | association x =>
    rw [Property.relabel, hk, PropertyKind.relabel] at hkind
    have hx := PropertyKind.association.inj hkind
    rw [PropertyKind.unlinked,
      Reference.ofName_of_fixed (congrArg AssociationProperty.association hx),
      homap (congrArg AssociationProperty.property hx)]
  | composition x =>
    rw [Property.relabel, hk, PropertyKind.relabel] at hkind
    have hx := PropertyKind.composition.inj hkind
    rw [PropertyKind.unlinked,
      Reference.ofName_of_fixed (congrArg CompositionProperty.composition hx),
      homap (congrArg CompositionProperty.domain hx)]
  | propertyAlias x =>
    rw [Property.relabel, hk, PropertyKind.relabel] at hkind
    have hx := PropertyKind.propertyAlias.inj hkind
    rw [PropertyKind.unlinked, Reference.ofName_of_fixed (congrArg AliasProperty.cls hx),
      homap (congrArg AliasProperty.property hx)]

namespace Linking

variable {rules : NamingRules} {m : Model}

/-! ### From drafts to names -/

/-- The class that a name stands for in a file of the drafts. -/
def classNamedIn (m : Model) (file : FileId) (name : String) : Option ClassId :=
  ((aliasedModel m).file? file).bind fun f => (scopeOf (aliasedModel m) f).findClass name

theorem ownedBy?_mapFiles {g : ModelFile → ModelFile} (hid : ∀ f, (g f).id = f.id)
    (hg : ∀ f, (g f).classes = f.classes ∧ (g f).decorators = f.decorators ∧
      (g f).endpoints = f.endpoints)
    (m : Model) (o : PropertyOwner) : (m.mapFiles g).ownedBy? o = m.ownedBy? o := by
  cases o <;>
    simp only [Model.ownedBy?, Model.cls?, Model.decorator?, Model.endpoint?, m.file?_mapFiles hid]
      <;>
    cases m.file? _ <;> simp [hg]

theorem ownedBy?_resolveReferences (m : Model) (o : PropertyOwner) :
    (resolveReferences m).ownedBy? o = (m.ownedBy? o).map (·.map fun p =>
      { p with
        kind := resolveKind
          (fun name => (m.file? o.file).bind fun f => (scopeOf m f).findClass name)
          (findDomain m) p.kind }) := by
  have hfile := m.file?_mapFiles (g := resolveReferencesOf m) fun _ => rfl
  cases o <;>
    simp only [Model.ownedBy?, Model.cls?, Model.decorator?, Model.endpoint?,
      resolveReferences, hfile, PropertyOwner.file] <;>
    cases m.file? _ <;>
    simp [resolveReferencesOf, ModelFile.mapProperties, ModelFile.mapLists, resolveClassHeads,
      ModelFile.mapClasses, resolveDomains, Endpoint.mapParts, Model.toList_map, Function.comp_def]

/-- **Linking by name resolves the references in a property list**, and does nothing else to it. -/
theorem ownedBy?_linkNames (m : Model) (o : PropertyOwner) :
    (linkNames m).model.ownedBy? o = (m.ownedBy? o).map (·.map fun p =>
      { p with kind := resolveKind (classNamedIn m o.file) (findDomain (aliasedModel m)) p.kind }) := by
  have hsame : ∀ {n n' : Model}, (∃ g, n' = n.mapFiles g ∧ (∀ f, (g f).id = f.id) ∧ ∀ f,
      (g f).classes = f.classes ∧ (g f).decorators = f.decorators ∧ (g f).endpoints = f.endpoints) →
      n'.ownedBy? o = n.ownedBy? o := by
    rintro n _ ⟨g, rfl, hid, hg⟩
    exact ownedBy?_mapFiles hid hg n o
  have hused : (resolveUses m).ownedBy? o = m.ownedBy? o :=
    hsame ⟨_, rfl, fun _ => rfl, fun _ => ⟨rfl, rfl, rfl⟩⟩
  have haliased : (aliasedModel m).ownedBy? o = (resolveUses m).ownedBy? o :=
    hsame ⟨_, rfl, fun _ => rfl, fun _ => ⟨rfl, rfl, rfl⟩⟩
  have hnoted : (linkNames m).model.ownedBy? o = (namedModel m).ownedBy? o :=
    hsame ⟨_, rfl, fun _ => rfl, fun _ => ⟨rfl, rfl, rfl⟩⟩
  rw [hnoted, namedModel, ownedBy?_resolveReferences, haliased, hused]
  rfl

/-! ### What an alias selects -/

/-- The properties that the alias `a` of the class `C`, which stands at `location`, selects in a
linked model, each with the name that it is selected by: those that it includes, in this order, or
else all properties of the class, in order, but for those whose names it excludes. -/
structure Selects (rules : NamingRules) (m : Model) (C : ClassId) (location : Location)
    (a : AliasProperty) (targets : List (Property × Located String)) : Prop where
  named : ∀ x ∈ targets, x.1 ∈ m.classProperties C ∧ m.propertyName? rules x.1.id = some x.2.value
  included : a.only ≠ [] → targets.map Prod.snd = a.only
  rest : a.only = [] →
    targets.map Prod.fst = ((m.classProperties C).filter fun q =>
      a.exclude.all fun name => m.propertyName? rules q.id != some name.value) ∧
    ∀ x ∈ targets, x.2.location = location

theorem findCandidate_eq (m : Model) (rules : NamingRules) (C : ClassId) (name : String) :
    findCandidate (namedCandidates m rules C) name
      = ((m.classProperties C).find? fun q => m.propertyName? rules q.id
        == some name).map (·.id) := by
  unfold findCandidate namedCandidates
  rw [List.find?_map, Option.map_map]
  rfl

/-- Where all names are found, each of them selects the property that it is found for. -/
theorem selects_included {C : ClassId} {location : Location} {a : AliasProperty} (hne : a.only ≠ [])
    (hknown : ∀ name ∈ a.only,
      (findCandidate (namedCandidates m rules C) name.value).isSome = true) :
    ∃ targets, Selects rules m C location a targets ∧
      (a.only.filterMap fun name =>
        (findCandidate (namedCandidates m rules C) name.value).map (·, name))
        = targets.map fun x => (x.1.id, x.2) := by
  let found (name : Located String) : Option (Property × Located String) :=
    ((m.classProperties C).find? fun q => m.propertyName? rules q.id
      == some name.value).map (·, name)
  have hfound : ∀ names : List (Located String),
      (∀ name ∈ names, (findCandidate (namedCandidates m rules C) name.value).isSome = true) →
      (names.filterMap found).map Prod.snd = names := by
    intro names
    induction names with
    | nil => exact fun _ => rfl
    | cons name rest ih =>
      intro h
      have hname := h name List.mem_cons_self
      rw [findCandidate_eq, Option.isSome_map] at hname
      obtain ⟨q, hq⟩ := Option.isSome_iff_exists.mp hname
      have hhead : found name = some (q, name) := by
        show Option.map _ _ = _
        rw [hq]
        rfl
      rw [List.filterMap_cons, hhead, List.map_cons, ih fun n hn => h n (List.mem_cons_of_mem _ hn)]
  refine ⟨a.only.filterMap found, ⟨?_, fun _ => hfound a.only hknown, fun h => absurd h hne⟩, ?_⟩
  · intro x hx
    obtain ⟨name, -, hname⟩ := List.mem_filterMap.mp hx
    obtain ⟨q, hq, rfl⟩ := Option.map_eq_some_iff.mp hname
    exact ⟨List.mem_of_find?_eq_some hq, by simpa using List.find?_some hq⟩
  · rw [List.map_filterMap]
    refine congrArg (fun f => a.only.filterMap f) (funext fun name => ?_)
    rw [findCandidate_eq, Option.map_map, Option.map_map]
    rfl

/-- Without names to include, all that is not excluded is selected. -/
theorem selects_rest {C : ClassId} {location : Location} {a : AliasProperty} (hnil : a.only = [])
    (hnamed : (namedCandidates m rules C).all (fun (_, name) => name.isSome) = true) :
    ∃ targets, Selects rules m C location a targets ∧
      ((namedCandidates m rules C).filterMap fun (id, name) =>
        if a.exclude.all (·.value != name.getD "")
          then some (id, (⟨name.getD "", location⟩ : Located String))
        else none) = targets.map fun x => (x.1.id, x.2) := by
  have hsome : ∀ q ∈ m.classProperties C,
      m.propertyName? rules q.id = some (m.propertyName rules q.id) := by
    intro q hq
    have h : (m.propertyName? rules q.id).isSome = true :=
      List.all_eq_true.mp hnamed _ (List.mem_map_of_mem hq)
    obtain ⟨name, hname⟩ := Option.isSome_iff_exists.mp h
    rw [Model.propertyName, hname, Option.getD_some]
  let kept (q : Property) : Bool :=
    a.exclude.all fun name => m.propertyName? rules q.id != some name.value
  refine ⟨((m.classProperties C).filter kept).map fun q =>
    (q, ⟨m.propertyName rules q.id, location⟩), ⟨?_, fun h => absurd hnil h, fun _ => ⟨?_, ?_⟩⟩, ?_⟩
  · intro x hx
    obtain ⟨q, hq, rfl⟩ := List.mem_map.mp hx
    have hmem := (List.mem_filter.mp hq).1
    exact ⟨hmem, hsome q hmem⟩
  · rw [List.map_map]
    exact List.map_id' _
  · intro x hx
    obtain ⟨q, -, rfl⟩ := List.mem_map.mp hx
    rfl
  · rw [List.map_map]
    unfold namedCandidates
    rw [List.filterMap_map, ← List.filterMap_eq_map, List.filterMap_filter]
    refine List.filterMap_congr fun q hq => ?_
    have hkept : (a.exclude.all (·.value != m.propertyName rules q.id)) = kept q := by
      show _ = a.exclude.all fun name => m.propertyName? rules q.id != some name.value
      rw [hsome q hq]
      exact congrArg (fun f => a.exclude.all f) (funext fun name => by simp [bne, Bool.beq_comm])
    show (if a.exclude.all (·.value != m.propertyName rules q.id) then _ else _) = _
    rw [hkept]
    rfl

theorem Chooses.selects {C : ClassId} {location : Location} {a : AliasProperty}
    {chosen : List (PropertyId × Located String)} (h : Chooses rules m C location a chosen) :
    ∃ targets, Selects rules m C location a targets ∧ chosen = targets.map fun x =>
      (x.1.id, x.2) := by
  obtain ⟨-, hnamed, hknown, rfl⟩ := h
  unfold chosenProperties
  by_cases hnil : a.only = []
  · rw [hnil, List.isEmpty_nil, if_pos rfl]
    exact selects_rest hnil hnamed
  · rw [if_neg (by simpa using hnil)]
    refine selects_included hnil fun name hname => ?_
    rw [unknownChoices, if_neg (by simpa using hnil), List.filter_eq_nil_iff] at hknown
    simpa [Option.isSome_iff_ne_none] using hknown name hname

/-! ### The last stage -/

/-- Classes looking up their own properties changes no property list. -/
theorem owned_resolvePropertyReferences (rules : NamingRules) (m : Model) :
    (resolvePropertyReferences rules m).owned = m.owned := by
  have hg := surrounding_resolveClassProperties (m.findProperty rules)
  rw [resolvePropertyReferences_eq]
  simp [Model.owned, Model.classes, Model.decorators, Model.endpoints, Model.mapClasses,
    Model.mapFiles, ModelFile.mapClasses, List.flatMap_map, List.map_flatMap, hg.id, hg.properties,
    Function.comp_def]

theorem keeps_resolvePropertyReferences (rules : NamingRules) (m : Model) :
    Keeps rules m (resolvePropertyReferences rules m) := by
  have hg := surrounding_resolveClassProperties (m.findProperty rules)
  exact Keeps.mapClasses hg (Model.propertyName?_mapClasses hg _)

/-- **A link without errors puts in place what the choices of the model linked by name come to.** -/
theorem replaces_link (h : m.AsLoaded) (hnone : ∀ d ∈ (m.link rules).problems, d.isError = false) :
    Replaces rules (linkNames m).model (m.link rules).model := by
  have hexpanded : ∀ d ∈ (expanded rules m).problems, d.isError = false := fun d hd =>
    hnone d (by rw [link_problems]; simp [hd])
  have hassociated :=
    replaces_associated h (referencesKnown_of_linkNames (nothing_reported hnone).1) hexpanded
  exact hassociated.of_owned (owned_resolvePropertyReferences rules (associated rules m))
    (keeps_resolvePropertyReferences rules (associated rules m))

end Linking

namespace Store

open Linking

variable {s : Store}

/-- What stands in the linked store in the place of the property `p` of a draft: `p` itself, with
nothing but its references resolved, and all of these; or, for an alias that names no property, one
alias for each property that it selects, which has everything else from it, its place in the source
included. -/
inductive StandsFor (s : Store) (o : PropertyOwner) (p : Property) : List Property → Prop
  | itself {q : Property} : p.standsForChoice = false → q.location = p.location →
      q.kind.unlinked = p.kind → (∀ x ∈ q.heldReferences, x.Resolved s.link.1.model) →
      StandsFor s o p [q]
  | aliases {a : AliasProperty} {C : ClassId} {targets : List (Property × Located String)}
      {block : List Property} : p.kind = .propertyAlias a → a.property = none →
      classNamedIn s.draftModel o.file a.cls.text = some C →
      Selects s.naming s.link.1.model C p.location a targets →
      block.map Property.content = targets.map (fun x => (p.location, .propertyAlias { a with
        cls := a.cls.resolve C
        property := some { name := x.2, target := some x.1.id }
        only := []
        exclude := [] })) →
      StandsFor s o p block

/-- What stands in the place of a property of the model linked by name stands for that of the
draft. -/
theorem standsFor_of_inPlace (hm : s.draftModel.AsLoaded)
    (hnone : ∀ d ∈ (s.draftModel.link s.naming).problems, d.isError = false) {o : PropertyOwner}
    {p : Property} (hp : p ∈ s.draftModel.properties) {block : List Property}
    (hb : ∀ q ∈ block, q ∈ (s.draftModel.link s.naming).model.properties)
    (h : InPlaceOf s.naming (s.draftModel.link s.naming).model
      { p with
        kind := resolveKind
          (classNamedIn s.draftModel o.file) (findDomain (aliasedModel s.draftModel)) p.kind }
      block) : s.StandsFor o p block := by
  obtain ⟨f, hf, hpf⟩ := Model.exists_file_of_mem hp
  have hunlinked := Property.unlinked_of_fixed ((hm.fresh f hf).properties p hpf)
  cases h with
  | itself hl hres =>
    rename_i q
    have hq := hb q (List.mem_singleton_self q)
    refine .itself ?_ hl ?_ fun x hx => ?_
    · -- a choice would be one still
      rw [Bool.eq_false_iff]
      intro hchoice
      obtain ⟨a, hk, ha⟩ := Property.standsForChoice_iff.mp hchoice
      have hsame := hres.eq_of_choice (Or.inl (congrArg (resolveKind _ _) hk)) ha
      have hclosed := closed_of_no_errors hm hnone hq
      rw [isOpenAlias_iff.mpr ⟨_, hsame.trans (congrArg (resolveKind _ _) hk), by rw [ha]; rfl⟩]
        at hclosed
      exact absurd hclosed (by simp)
    · rw [hres.unlinked, unlinked_resolveKind, hunlinked]
    · obtain ⟨g, hg, hqg⟩ := Model.exists_file_of_mem hq
      rw [link_model]
      exact resolved_of_no_errors hm hnone hg
        (List.mem_append_right _ (List.mem_flatMap.mpr ⟨q, hqg, hx⟩))
  | aliases hk ha hC hchooses hblock =>
    rename_i a' C chosen
    obtain ⟨targets, hselects, rfl⟩ := hchooses.selects
    cases hpk : p.kind with
    | propertyAlias a =>
      simp only [hpk, resolveKind] at hk
      obtain rfl := PropertyKind.propertyAlias.inj hk
      have hopen : a.cls.target = none := by
        rw [hpk, PropertyKind.unlinked] at hunlinked
        have hcls := congrArg AliasProperty.cls (PropertyKind.propertyAlias.inj hunlinked)
        rw [← hcls]
        rfl
      rw [resolveBy_open _ hopen] at hC
      have hcls : resolveBy (classNamedIn s.draftModel o.file) a.cls = a.cls.resolve C := by
        rw [resolveBy, hC]
      -- the choice is the same whether its class is resolved or not
      have hselected : Selects s.naming s.link.1.model C p.location a targets := by
        rw [link_model]
        exact ⟨hselects.named, hselects.included, hselects.rest⟩
      refine .aliases hpk ha hC hselected (hblock.trans ?_)
      rw [List.map_map]
      simp only [Function.comp_def, expandedAlias, hcls]
    | _ => simp [hpk, resolveKind] at hk

/-- **After a link without errors every property list is that of the draft, with each alias that
names no property replaced in its place** by aliases of the properties that it selects in the linked
model; what an endpoint returns is replaced by one. -/
theorem Reachable.lists_expanded (h : s.Reachable)
    (hnone : s.link.2.errors = 0) (o : PropertyOwner) :
    Option.Rel
      (fun ps qs => Positional o qs ∧ ∃ blocks, qs = List.flatten blocks ∧
        List.Forall₂ (s.StandsFor o) ps blocks ∧
        ∀ e, o = .returns e → ∀ block ∈ blocks, block.length = 1)
      (s.draftModel.ownedBy? o) (s.link.1.model.ownedBy? o) := by
  have hm := h.drafted.asLoaded
  have hclear := no_errors_of_link hnone
  have hreplaced := replaces_link hm hclear
  have hnamed := numbered_linkNames hm.numbered
  have hnumbered := (sound_link s.naming hm).numbered
  have hlinked := ownedBy?_linkNames s.draftModel o
  rw [link_model]
  cases hdraft : s.draftModel.ownedBy? o with
  | none =>
    rw [hdraft, Option.map_none] at hlinked
    cases hlist : (s.draftModel.link s.naming).model.ownedBy? o with
    | none => exact .none
    | some qs =>
      have howner := List.mem_map_of_mem (f := Prod.fst) (hnumbered.ownedBy?_iff.mp hlist)
      rw [hreplaced.owners, List.mem_map] at howner
      obtain ⟨⟨o', ns⟩, hns, rfl⟩ := howner
      rw [hnamed.ownedBy?_iff.mpr hns] at hlinked
      simp at hlinked
  | some ps =>
    rw [hdraft, Option.map_some] at hlinked
    obtain ⟨blocks, hmem, hplaces, hlength⟩ := hreplaced.lists o _ (hnamed.ownedBy?_iff.mp hlinked)
    rw [hnumbered.ownedBy?_iff.mpr hmem]
    refine .some ⟨hnumbered.properties o _ hmem, blocks, rfl, ?_, fun e he => ?_⟩
    · rw [List.forall₂_map_left_iff, List.forall₂_iff_zip] at hplaces
      refine List.forall₂_iff_zip.mpr ⟨hplaces.1, fun {p block} hz => ?_⟩
      obtain ⟨hp, hblock⟩ := List.of_mem_zip hz
      refine standsFor_of_inPlace hm hclear ?_ (fun q hq => ?_) (hplaces.2 hz)
      · exact Model.mem_properties_iff.mpr ⟨o, ps, hm.numbered.ownedBy?_iff.mp hdraft, hp⟩
      · exact Model.mem_properties_iff.mpr ⟨o, _, hmem, List.mem_flatten_of_mem hblock hq⟩
    · -- what an endpoint returns is a list of at most one
      have hlen := hlength e he
      subst he
      obtain ⟨d, -, rfl⟩ := Option.map_eq_some_iff.mp hdraft
      cases hret : d.returns with
      | none =>
        rw [hret] at hplaces
        rw [List.forall₂_nil_left_iff.mp hplaces]
        exact fun _ h => absurd h List.not_mem_nil
      | some p =>
        rw [hret] at hplaces hlen
        obtain ⟨block, rest, -, hrest, rfl⟩ := List.forall₂_cons_left_iff.mp hplaces
        rw [List.forall₂_nil_left_iff.mp hrest] at hlen ⊢
        intro b hb
        rw [List.mem_singleton.mp hb]
        simpa using hlen

/-- A store with a class that takes all of another but for one property. -/
def bothTaken : Store :=
  loadAll {} [("A", "module: M\n---\nclass:\n name: A\n properties:\n - composition: A\n   name: X\n"
    ++ " - composition: A\n   name: Y\n - composition: A\n   name: Z\n"
    ++ "---\nclass:\n name: B\n properties:\n - alias: {class: A, exclude: Y}")]

/-- There the one property of the class becomes two. -/
theorem lists_expanded_in_bothTaken :
    bothTaken.link.2.errors = 0 ∧
      ∃ ps qs, bothTaken.draftModel.ownedBy? (.cls ⟨⟨0⟩, 1⟩) = some ps ∧ ps.length = 1 ∧
        bothTaken.link.1.model.ownedBy? (.cls ⟨⟨0⟩, 1⟩) = some qs ∧ qs.length = 2 ∧
        ∃ blocks, qs = List.flatten blocks ∧
          List.Forall₂ (bothTaken.StandsFor (.cls ⟨⟨0⟩, 1⟩)) ps blocks := by
  have hlengths : bothTaken.link.2.errors = 0 ∧
      (bothTaken.draftModel.ownedBy? (.cls ⟨⟨0⟩, 1⟩)).map List.length = some 1 ∧
      (bothTaken.link.1.model.ownedBy? (.cls ⟨⟨0⟩, 1⟩)).map List.length = some 2 := by
    have hspelled : bothTaken = _ :=
      loadAll_eq_foldl
        (.cons (toList_append_eq (toList_append_eq String.toList_ofList String.toList_ofList)
          String.toList_ofList) .nil)
    rw [hspelled]
    decide +kernel
  obtain ⟨hclean, hdraft, hlinked⟩ := hlengths
  obtain ⟨ps, hps, hone⟩ := Option.map_eq_some_iff.mp hdraft
  obtain ⟨qs, hqs, htwo⟩ := Option.map_eq_some_iff.mp hlinked
  have hreach : bothTaken.Reachable := reachable_loadAll {} _
  have hlists := Reachable.lists_expanded hreach hclean (.cls ⟨⟨0⟩, 1⟩)
  rw [hps, hqs] at hlists
  cases hlists with
  | some h =>
    obtain ⟨-, blocks, hflat, hblocks, -⟩ := h
    exact ⟨hclean, ps, qs, hps, hone, hqs, htwo, blocks, hflat, hblocks⟩

end Store

end EntityModel
