import EntityModel.Proofs.Linking.NeededUses
import EntityModel.Proofs.Linking.WithoutUses

/-!
# Linking with fewer uses

Uses may be left away from files, by their names (`Model.keepUses`).  Uses and aliases of files are
then resolved as before, apart from the uses that are gone (`aliasedModel_keepUses`).  If the
references of a file need none of these, they stand for the same things as before
(`resolve_of_kept`); a reference that needs one that is gone stands for something else
(`resolve_of_dropped`).  So leaving away uses that nothing needs gives the same model, linked by
name, without these uses (`namedModel_keepUses`).
-/

namespace EntityModel

def ModelFile.keepUses (keep : String → Bool) (f : ModelFile) : ModelFile :=
  { f with uses := f.uses.filter fun use => keep use.text }

def Model.keepUses (keep : FileId → String → Bool) (m : Model) : Model :=
  m.mapFiles fun f => f.keepUses (keep f.id)

namespace Model

variable {keep : FileId → String → Bool} {m : Model}

theorem file?_keepUses (keep : FileId → String → Bool) (m : Model) (id : FileId) :
    (m.keepUses keep).file? id = (m.file? id).map fun f => f.keepUses (keep f.id) :=
  m.file?_mapFiles (g := fun f => f.keepUses (keep f.id)) (fun _ => rfl) id

theorem fileNamed?_keepUses (keep : FileId → String → Bool) (m : Model) (name : String) :
    (m.keepUses keep).fileNamed? name = (m.fileNamed? name).map fun f =>
      f.keepUses (keep f.id) := by
  unfold fileNamed? keepUses mapFiles
  rw [List.find?_map]
  rfl

theorem withoutUses_keepUses (keep : FileId → String → Bool) (m : Model) :
    (m.keepUses keep).withoutUses = m.withoutUses :=
  withoutUses_of_uses (g := fun f => f.keepUses (keep f.id)) (fun _ => rfl) m

theorem cls?_keepUses (keep : FileId → String → Bool) (m : Model) :
    (m.keepUses keep).cls? = m.cls? := by
  rw [← cls?_withoutUses, withoutUses_keepUses, cls?_withoutUses]

theorem domains_keepUses (keep : FileId → String → Bool) (m : Model) :
    (m.keepUses keep).domains = m.domains := by
  rw [← domains_withoutUses, withoutUses_keepUses, domains_withoutUses]

end Model

namespace Linking

variable {keep : FileId → String → Bool} {m : Model} {f : ModelFile}

/-! ### Uses and aliases of files -/

theorem resolveUsesFrom_filter (m : Model) (keep : FileId → String → Bool) (kept : String → Bool)
    (uses : List FileReference) : ∀ seen : List String,
      resolveUsesFrom (m.keepUses keep) (seen.filter kept) (uses.filter fun use => kept use.text)
        = (resolveUsesFrom m seen uses).filter fun use => kept use.text := by
  induction uses with
  | nil => exact fun _ => rfl
  | cons use rest ih =>
    intro seen
    have htext : (resolvedUse m seen use).text = use.text :=
      congrArg Located.value (resolvedUse_name m seen use)
    rw [resolveUsesFrom_cons, List.filter_cons, List.filter_cons, htext, ← ih, List.filter_cons]
    cases hkept : kept use.text with
    | false => rfl
    | true =>
      have hseen : (seen.filter kept).contains use.text = seen.contains use.text := by
        rw [Bool.eq_iff_iff, List.contains_iff_mem, List.contains_iff_mem, List.mem_filter]
        exact and_iff_left hkept
      have hsame : resolvedUse (m.keepUses keep) (seen.filter kept) use
          = resolvedUse m seen use := by
        unfold resolvedUse
        rw [hseen, Model.fileNamed?_keepUses]
        cases m.fileNamed? use.text <;> rfl
      rw [if_pos rfl, if_pos rfl, if_pos rfl, resolveUsesFrom_cons, hsame]

theorem resolveUses_keepUses (keep : FileId → String → Bool) (m : Model) :
    resolveUses (m.keepUses keep) = (resolveUses m).keepUses keep := by
  unfold resolveUses
  simp only [Model.keepUses, Model.mapFiles, List.map_map]
  refine congrArg Model.mk (List.map_congr_left fun f _ => ?_)
  exact congrArg (fun uses => { f with uses }) (resolveUsesFrom_filter m keep (keep f.id) f.uses [])

theorem resolveFileAliases_keepUses (keep : FileId → String → Bool) (m : Model) :
    resolveFileAliases (m.keepUses keep) = (resolveFileAliases m).keepUses keep := by
  have halias : resolveAlias (m.keepUses keep) = resolveAlias m := by
    funext a
    unfold resolveAlias
    rw [Model.fileNamed?_keepUses]
    cases m.fileNamed? a.file.text <;> rfl
  have hentities : aliasedEntities (m.keepUses keep) = aliasedEntities m := by
    funext a
    unfold aliasedEntities
    cases a.file.target with
    | none => rfl
    | some id =>
      simp only [Option.bind_some, Model.file?_keepUses]
      cases m.file? id <;> rfl
  unfold resolveFileAliases
  rw [halias, hentities]
  simp only [Model.keepUses, Model.mapFiles, List.map_map]
  rfl

/-- **Uses and aliases of files are resolved as before**, apart from the uses that are gone. -/
theorem aliasedModel_keepUses (keep : FileId → String → Bool) (m : Model) :
    aliasedModel (m.keepUses keep) = (aliasedModel m).keepUses keep := by
  unfold aliasedModel
  rw [resolveUses_keepUses, resolveFileAliases_keepUses]

/-! ### What a name stands for -/

theorem findDomain_keepUses (keep : FileId → String → Bool) (m : Model) :
    findDomain (m.keepUses keep) = findDomain m := by
  funext name
  rw [findDomain, findDomain, Model.domainNamed?, Model.domainNamed?, Model.domains_keepUses]

theorem broughtBy_keepUses {α : Type} {find : ModelFile → String → Option α}
    (hfind : ∀ (f : ModelFile) (kept : String → Bool), find (f.keepUses kept) = find f)
    (keep : FileId → String → Bool) (m : Model) :
    broughtBy (m.keepUses keep) find = broughtBy m find := by
  funext name use
  unfold broughtBy
  cases use.target with
  | none => rfl
  | some id =>
    simp only [Option.bind_some, Model.file?_keepUses]
    cases m.file? id with
    | none => rfl
    | some f => simp only [Option.map_some, Option.bind_some, hfind]

theorem seenThrough_keptClasses (keep : FileId → String → Bool) (m : Model) (f : ModelFile) :
    SeenThrough (ownClasses m f) (scopeOf (m.keepUses keep) (f.keepUses (keep f.id))).classes
      (f.uses.filter fun use => keep f.id use.text) (broughtBy m findClass) := by
  have hseen := seenThrough_classes (m.keepUses keep) (f.keepUses (keep f.id))
  rw [broughtBy_keepUses fun _ _ => rfl, ownClasses, Model.cls?_keepUses] at hseen
  exact hseen

theorem seenThrough_keptDecorators (keep : FileId → String → Bool) (m : Model) (f : ModelFile) :
    SeenThrough (ownDecorators f) (scopeOf (m.keepUses keep) (f.keepUses (keep f.id))).decorators
      (f.uses.filter fun use => keep f.id use.text) (broughtBy m findDecorator) := by
  have hseen := seenThrough_decorators (m.keepUses keep) (f.keepUses (keep f.id))
  rw [broughtBy_keepUses fun _ _ => rfl] at hseen
  exact hseen

def EntityReference.inFile (m : Model) (f : ModelFile) (x : EntityReference) : EntityReference :=
  x.resolve (scopeOf m f) (findDomain m)

theorem resolveBy_congr {α : Type} {find find' : String → Option α} {r : Reference α}
    (h : find' r.text = find r.text) : resolveBy find' r = resolveBy find r := by
  unfold resolveBy
  rw [h]

/-- **A reference that needs none of the uses that are gone stands for the same as before.** -/
theorem resolve_of_kept {x : EntityReference}
    (hkeep : ∀ use ∈ f.uses, x.needs m f use = true → keep f.id use.text = true) :
    x.inFile (m.keepUses keep) (f.keepUses (keep f.id)) = x.inFile m f := by
  cases x with
  | cls r =>
    have hsame : (scopeOf (m.keepUses keep) (f.keepUses (keep f.id))).findClass r.text
        = (scopeOf m f).findClass r.text := by
      refine (seenThrough_classes m f).same_of_kept (seenThrough_keptClasses keep m f) ?_
      intro use hown hfirst
      exact hkeep use (brings_of_bringer hfirst).1 (by simp [EntityReference.needs, hown, hfirst])
    exact congrArg EntityReference.cls (resolveBy_congr hsame)
  | decorator r =>
    have hsame : (scopeOf (m.keepUses keep) (f.keepUses (keep f.id))).findDecorator r.text
        = (scopeOf m f).findDecorator r.text := by
      refine (seenThrough_decorators m f).same_of_kept (seenThrough_keptDecorators keep m f) ?_
      intro use hown hfirst
      exact hkeep use (brings_of_bringer hfirst).1 (by simp [EntityReference.needs, hown, hfirst])
    exact congrArg EntityReference.decorator (resolveBy_congr hsame)
  | domain r =>
    have hsame : findDomain (m.keepUses keep) r.text = findDomain m r.text := by
      rw [findDomain_keepUses]
    exact congrArg EntityReference.domain (resolveBy_congr hsame)

/-- What a use brings in is declared in the file that is used. -/
theorem target_of_broughtBy {k : Kind} {β : Type} {decls : ModelFile → List β} {ident : β → Id k}
    {nameOf : β → String} (hn : ∀ f ∈ m.files, NumberedBy ident f.id (decls f)) {name : String}
    {use : FileReference} {target : Id k}
    (h : broughtBy m (fun f name => ((decls f).find? (nameOf · == name)).map ident) name
      use = some target) :
    use.target = some target.file := by
  obtain ⟨g, hg, hfound⟩ := Option.bind_eq_some_iff.mp h
  obtain ⟨id, hid, hfile⟩ := Option.bind_eq_some_iff.mp hg
  obtain ⟨b, hb, rfl⟩ := Option.map_eq_some_iff.mp hfound
  obtain ⟨hmem, rfl⟩ := Model.mem_of_file? hfile
  rw [hid, (hn g hmem).file (List.mem_of_find?_eq_some hb)]

/-- **A reference that needs a use that is gone stands for something else**, if it was open and the
uses that are kept are of other files. -/
theorem resolve_of_dropped (hm : m.Numbered) {x : EntityReference} (hopen : x.target = none)
    {use : FileReference} (hneeds : x.needs m f use = true)
    (hapart : ∀ other ∈ f.uses, keep f.id other.text = true → other.target ≠ use.target) :
    x.inFile (m.keepUses keep) (f.keepUses (keep f.id)) ≠ x.inFile m f := by
  intro hsame
  cases x with
  | cls r =>
    have ho : r.target = none := Option.map_eq_none_iff.mp hopen
    obtain ⟨hown, hfirst⟩ : firstVisible (ownClasses m f) r.text = none ∧
        bringer (broughtBy m findClass) f.uses r.text = some use := by
        simpa [EntityReference.needs] using hneeds
    have hdiffers :=
      (seenThrough_classes m f).differs_of_dropped (seenThrough_keptClasses keep m f)
          hown hfirst <| by
      intro other hother hkept target ht ht'
      exact hapart other hother hkept
        ((target_of_broughtBy hm.classes ht').trans (target_of_broughtBy hm.classes ht).symm)
    refine hdiffers ?_
    have htargets := congrArg Reference.target (EntityReference.cls.inj hsame)
    rwa [resolveBy_open _ ho, resolveBy_open _ ho] at htargets
  | decorator r =>
    have ho : r.target = none := Option.map_eq_none_iff.mp hopen
    obtain ⟨hown, hfirst⟩ : firstVisible (ownDecorators f) r.text = none ∧
        bringer (broughtBy m findDecorator) f.uses r.text = some use := by
      simpa [EntityReference.needs] using hneeds
    have hdiffers :=
      (seenThrough_decorators m f).differs_of_dropped (seenThrough_keptDecorators keep m f) hown
      hfirst <| by
      intro other hother hkept target ht ht'
      exact hapart other hother hkept
        ((target_of_broughtBy hm.decorators ht').trans (target_of_broughtBy hm.decorators ht).symm)
    refine hdiffers ?_
    have htargets := congrArg Reference.target (EntityReference.decorator.inj hsame)
    rwa [resolveBy_open _ ho, resolveBy_open _ ho] at htargets
  | domain r => simp [EntityReference.needs] at hneeds

/-! ### Files and models linked by name -/

/-- A property is resolved in the same way if its references are. -/
theorem resolveKind_congr {s s' : Scope} {find find' : String → Option DomainId} {p : Property}
    (h : ∀ x ∈ propertyReferences p, x.resolve s' find' = x.resolve s find) :
    resolveKind s'.findClass find' p.kind = resolveKind s.findClass find p.kind := by
  unfold propertyReferences at h
  cases hk : p.kind with
  | regular a =>
    have hdomain := h (.domain a.domain) (by simp [hk])
    simp only [resolveKind, EntityReference.domain.inj hdomain]
  | association a =>
    have hcls := h (.cls a.association) (by simp [hk])
    simp only [resolveKind, EntityReference.cls.inj hcls]
  | composition a =>
    have hcls := h (.cls a.composition) (by simp [hk])
    have hdomain : a.domain.map (resolveBy find') = a.domain.map (resolveBy find) :=
      Option.map_congr fun r hr =>
        EntityReference.domain.inj (h (.domain r) (by simp [hk, Option.mem_def.mp hr]))
    simp only [resolveKind, EntityReference.cls.inj hcls, hdomain]
  | propertyAlias a =>
    have hcls := h (.cls a.cls) (by simp [hk])
    simp only [resolveKind, EntityReference.cls.inj hcls]

/-- A file is resolved in the same way if its references are, with the uses that it keeps. -/
theorem resolveReferencesOf_keepUses
    (h : ∀ x ∈ fileReferences f,
      x.inFile (m.keepUses keep) (f.keepUses (keep f.id)) = x.inFile m f) :
    resolveReferencesOf (m.keepUses keep) (f.keepUses (keep f.id))
      = (resolveReferencesOf m f).keepUses (keep f.id) := by
  have hdomain : ∀ d ∈ f.domains, ∀ x ∈ d.asDomains,
      resolveBy (findDomain (m.keepUses keep)) x.2 = resolveBy (findDomain m) x.2 := by
    intro d hd x hx
    refine EntityReference.domain.inj (h (.domain x.2) ?_)
    simp only [fileReferences, List.mem_append, List.mem_flatMap, List.mem_map]
    exact Or.inl (Or.inl (Or.inl ⟨d, hd, x, hx, rfl⟩))
  have hclass : ∀ c ∈ f.classes, ∀ x ∈ classReferences c,
      x.inFile (m.keepUses keep) (f.keepUses (keep f.id)) = x.inFile m f := by
    intro c hc x hx
    refine h x ?_
    simp only [fileReferences, List.mem_append, List.mem_flatMap]
    exact Or.inl (Or.inr ⟨c, hc, hx⟩)
  have hproperty : ∀ p ∈ f.properties,
      resolveProperty (m.keepUses keep) (f.keepUses (keep f.id)) p = resolveProperty m f p := by
    intro p hp
    exact congrArg (fun kind => { p with kind })
      (resolveKind_congr fun x hx => h x (mem_fileReferences hp hx))
  simp only [resolveReferencesOf, ModelFile.mapProperties, ModelFile.mapLists, resolveClassHeads,
    ModelFile.mapClasses, resolveDomains, ModelFile.keepUses, List.map_map, ModelFile.mk.injEq,
    true_and, and_true]
  refine ⟨List.map_congr_left fun d hd => ?_, List.map_congr_left fun d hd => ?_,
    List.map_congr_left fun c hc => ?_, List.map_congr_left fun e he => ?_⟩
  · have hsame : d.asDomains.map (fun x => (x.1, resolveBy (findDomain (m.keepUses keep)) x.2))
        = d.asDomains.map fun x => (x.1, resolveBy (findDomain m) x.2) :=
      List.map_congr_left fun x hx => by rw [hdomain d hd x hx]
    exact congrArg (fun asDomains => { d with asDomains }) hsame
  · have hin : ∀ p ∈ d.properties, p ∈ f.properties := fun p hp =>
      List.mem_append_left _ (List.mem_append_right _ (List.mem_flatMap.mpr ⟨d, hd, hp⟩))
    have hsame := List.map_congr_left fun p hp => hproperty p (hin p hp)
    exact congrArg (fun properties => { d with properties }) hsame
  · have hin : ∀ p ∈ c.properties, p ∈ f.properties := fun p hp =>
      List.mem_append_left _ (List.mem_append_left _ (List.mem_flatMap.mpr ⟨c, hc, hp⟩))
    have hsame := List.map_congr_left fun p hp => hproperty p (hin p hp)
    have hparent : c.parent.map
          (resolveBy (scopeOf (m.keepUses keep) (f.keepUses (keep f.id))).findClass)
        = c.parent.map (resolveBy (scopeOf m f).findClass) := by
      refine Option.map_congr fun r hr => EntityReference.cls.inj (hclass c hc (.cls r) ?_)
      simp [classReferences, Option.mem_def.mp hr]
    have hdecorators : c.decorators.map
        (resolveUsage (scopeOf (m.keepUses keep) (f.keepUses (keep f.id))).findDecorator)
        = c.decorators.map (resolveUsage (scopeOf m f).findDecorator) := by
      refine List.map_congr_left fun u hu => congrArg (fun decorator => { u with decorator }) ?_
      refine EntityReference.decorator.inj (hclass c hc (.decorator u.decorator) ?_)
      simp only [classReferences, List.mem_append, List.mem_map]
      exact Or.inl (Or.inr ⟨u, hu, rfl⟩)
    simp only [Function.comp_apply, Class.mk.injEq, true_and, and_true]
    exact ⟨hparent, hdecorators, hsame⟩
  · have hin : ∀ p ∈ e.properties, p ∈ f.properties := fun p hp =>
      List.mem_append_right _ (List.mem_flatMap.mpr ⟨e, he, hp⟩)
    have hparams := List.map_congr_left fun p hp => hproperty p (hin p (List.mem_append_left _ hp))
    have hreturns := Option.map_congr fun p hp =>
      hproperty p (hin p (List.mem_append_right _ (Option.mem_toList.mpr hp)))
    simp only [Endpoint.mapParts, Endpoint.mk.injEq, true_and, and_true]
    exact ⟨hparams, hreturns⟩

/-- The uses that the references of the model need are kept. -/
def KeepsNeeded (m : Model) (keep : FileId → String → Bool) : Prop :=
  ∀ f ∈ (aliasedModel m).files, ∀ x ∈ fileReferences f, ∀ use ∈ f.uses,
    x.needs (aliasedModel m) f use = true → keep f.id use.text = true

/-- **Without uses that nothing needs, the model linked by name is the same but for these.** -/
theorem namedModel_keepUses (h : KeepsNeeded m keep) :
    namedModel (m.keepUses keep) = (namedModel m).keepUses keep := by
  unfold namedModel resolveReferences
  rw [aliasedModel_keepUses]
  simp only [Model.keepUses, Model.mapFiles, List.map_map]
  refine congrArg Model.mk (List.map_congr_left fun f hf => ?_)
  exact resolveReferencesOf_keepUses fun x hx => resolve_of_kept (h f hf x hx)

end Linking

end EntityModel
