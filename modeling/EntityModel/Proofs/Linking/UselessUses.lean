import EntityModel.Proofs.Linking.FewerUses
import EntityModel.Proofs.Linking.ReportKinds

/-!
# Useless uses

Linking notes which uses of a file no reference of the file needs.  They are looked for in the model
whose references are resolved, where scopes are what they were before (`scopeOf_resolveReferences`).
That a use is useless means just this: leaving it away changes what no class or decorator reference
of the model stands for (`mem_uselessUses_iff`).  And leaving away useless uses of a file together
changes nothing that is linked or reported, but for reports about uses themselves (`link_keepUses`).
-/

namespace EntityModel.Linking

variable {rules : NamingRules} {keep : FileId → String → Bool} {kept : String →
  Bool} {m : Model} {f : ModelFile}

/-! ### Scoped references -/

def EntityReference.isScoped : EntityReference → Bool
  | .cls _ => true
  | .decorator _ => true
  | .domain _ => false

/-- The references of a file that are looked up in what it sees. -/
def scopedReferences (f : ModelFile) : List EntityReference :=
  (fileReferences f).filter (·.isScoped)

theorem scopedReferences_resolveReferencesOf (m : Model) (f : ModelFile) :
    scopedReferences (resolveReferencesOf m f) = (scopedReferences f).map (·.inFile m f) := by
  have hscoped : ∀ x : EntityReference, (x.inFile m f).isScoped = x.isScoped :=
    fun x => by cases x <;> rfl
  have hfilter := List.filter_map (p := EntityReference.isScoped) (f := EntityReference.inFile m f)
    (l := fileReferences f)
  rw [Function.comp_def, funext hscoped] at hfilter
  rw [scopedReferences, fileReferences_resolveReferencesOf]
  exact hfilter

theorem scopedReferences_linkNames (m : Model) : (linkNames m).model.files.map scopedReferences
    = (aliasedModel m).files.map fun f =>
      (scopedReferences f).map (·.inFile (aliasedModel m) f) := by
  have hnoted : (linkNames m).model.files.map scopedReferences
      = (namedModel m).files.map scopedReferences :=
    (List.map_map ..).trans (List.map_congr_left fun _ _ => rfl)
  rw [hnoted, namedModel, resolveReferences, Model.mapFiles, List.map_map]
  exact List.map_congr_left fun f _ => scopedReferences_resolveReferencesOf _ f

/-! ### Uses after the look-up of names -/

theorem usedFiles_resolveReferences (m : Model) (f : ModelFile) :
    usedFiles (resolveReferences m) (resolveReferencesOf m f)
      = (usedFiles m f).map fun (index, used) => (index, resolveReferencesOf m used) := by
  have hfile : ∀ target : Option FileId, target.bind (resolveReferences m).file?
      = (target.bind m.file?).map (resolveReferencesOf m) := by
    intro target
    cases target with
    | none => rfl
    | some id => exact m.file?_mapFiles (g := resolveReferencesOf m) (fun _ => rfl) id
  unfold usedFiles
  rw [List.map_filterMap]
  refine List.filterMap_congr fun x _ => ?_
  dsimp only
  rw [hfile, Option.map_map, Option.map_map]
  rfl

/-- **What a file sees is the same once references are resolved.** -/
theorem scopeOf_resolveReferences (m : Model) (f : ModelFile) :
    scopeOf (resolveReferences m) (resolveReferencesOf m f) = scopeOf m f := by
  have hclasses : ∀ (origin : Origin) (f : ModelFile),
      (resolveReferencesOf m f).classes.map (visibleClass origin)
        = f.classes.map (visibleClass origin) := by
    intro origin f
    simp only [resolveReferencesOf, ModelFile.mapProperties, ModelFile.mapLists, resolveClassHeads,
      ModelFile.mapClasses, resolveDomains, List.map_map]
    rfl
  have hdecorators : ∀ (origin : Origin) (f : ModelFile),
      (resolveReferencesOf m f).decorators.map (visibleDecorator origin)
        = f.decorators.map (visibleDecorator origin) := by
    intro origin f
    simp only [resolveReferencesOf, ModelFile.mapProperties, ModelFile.mapLists, resolveClassHeads,
      ModelFile.mapClasses, resolveDomains, List.map_map]
    rfl
  have haliased : ((resolveReferencesOf m f).aliasedClasses.filterMap
      (resolveReferences m).cls?).map
      (visibleClass .own) = (f.aliasedClasses.filterMap m.cls?).map (visibleClass .own) := by
    rw [List.map_filterMap, List.map_filterMap]
    refine List.filterMap_congr fun id _ => ?_
    have hfile : (resolveReferences m).file? id.file
        = (m.file? id.file).map (resolveReferencesOf m) :=
      m.file?_mapFiles (g := resolveReferencesOf m) (fun _ => rfl) id.file
    rw [Model.cls?, Model.cls?, hfile]
    cases m.file? id.file with
    | none => rfl
    | some g =>
      have hget := congrArg (·[id.index]?) (hclasses .own g)
      simp only [List.getElem?_map] at hget
      exact hget
  simp only [scopeOf, usedFiles_resolveReferences, List.flatMap_map, hclasses,
    hdecorators, haliased]

/-- Uses that nothing needs are the same before names are looked up. -/
theorem uselessUses_resolveReferences (m : Model) (f : ModelFile) :
    uselessUses (resolveReferences m) (resolveReferencesOf m f) = uselessUses m f := by
  have hneeded : isUseNeeded (scopeOf m f) ((fileReferences f).map (EntityReference.inFile m f))
      = isUseNeeded (scopeOf m f) (fileReferences f) := by
    funext index
    unfold isUseNeeded
    rw [List.any_map]
    congr 1
    funext x
    cases x with
    | cls r | decorator r =>
      simp only [Function.comp_apply, EntityReference.inFile, EntityReference.resolve,
        resolveBy_text]
    | domain r => rfl
  have hrefs : fileReferences (resolveReferencesOf m f)
      = (fileReferences f).map (EntityReference.inFile m f) :=
    fileReferences_resolveReferencesOf m f
  unfold uselessUses
  simp only [scopeOf_resolveReferences, hrefs, hneeded]
  rfl

theorem exists_linked_uses (rules : NamingRules) (h : m.AsLoaded) (hf : f ∈ m.files) :
    ∃ g ∈ (m.link rules).model.files, g.id = f.id ∧ g.uses = resolveUsesFrom m [] f.uses ∧
      g.uselessImports = uselessUses (aliasedModel m) (aliasedFile m f) := by
  obtain ⟨g, hg, hid⟩ := exists_file_of_draft rules h hf
  obtain ⟨n, hn, hhead⟩ := exists_named_file h hg
  rw [linkNames_model, namedModel, aliasedModel_eq] at hn
  obtain ⟨r, hr, rfl⟩ := List.mem_map.mp hn
  obtain ⟨a, ha, rfl⟩ := List.mem_map.mp hr
  obtain ⟨d, hd, rfl⟩ := List.mem_map.mp ha
  obtain rfl : d = f := List.inj_on_of_nodup_map h.numbered.files hd hf (hhead.id.symm.trans hid)
  rw [← aliasedModel_eq] at hhead
  exact ⟨g, hg, hid, hhead.uses, hhead.uselessImports.trans (uselessUses_resolveReferences _ _)⟩

/-! ### One use that is left away -/

def keepIn (id : FileId) (kept : String → Bool) (file : FileId) (name : String) : Bool :=
  file != id || kept name

theorem keepIn_self (id : FileId) (kept : String → Bool) : keepIn id kept id = kept := by
  funext name
  simp [keepIn]

/-- Without some uses, references stand for the same if each does on its own. -/
theorem sameReferences_iff (keep : FileId → String → Bool) (m : Model) :
    (linkNames (m.keepUses keep)).model.files.map scopedReferences
      = (linkNames m).model.files.map scopedReferences
      ↔ ∀ f ∈ (aliasedModel m).files, ∀ x ∈ scopedReferences f,
          x.inFile ((aliasedModel m).keepUses keep) (f.keepUses (keep f.id))
            = x.inFile (aliasedModel m) f := by
  have hkept : (linkNames (m.keepUses keep)).model.files.map scopedReferences
      = (aliasedModel m).files.map fun f => (scopedReferences f).map
          (·.inFile ((aliasedModel m).keepUses keep) (f.keepUses (keep f.id))) := by
    rw [scopedReferences_linkNames, aliasedModel_keepUses, Model.keepUses,
      Model.mapFiles, List.map_map]
    rfl
  rw [hkept, scopedReferences_linkNames, List.map_inj_left]
  exact forall₂_congr fun f _ => List.map_inj_left

theorem aliasedFile_mem (hf : f ∈ m.files) : aliasedFile m f ∈ (aliasedModel m).files := by
  rw [aliasedModel_eq]
  exact List.mem_map_of_mem hf

theorem text_inj_resolveUses (hnodup : (f.uses.map (·.text)).Nodup) {u v : FileReference}
    (hu : u ∈ resolveUsesFrom m [] f.uses) (hv : v ∈ resolveUsesFrom m [] f.uses)
    (he : u.text = v.text) : u = v := by
  rw [← texts_resolveUsesFrom m] at hnodup
  exact List.inj_on_of_nodup_map hnodup hu hv he

theorem mem_uselessUses (hnodup : (f.uses.map (·.text)).Nodup) {u : FileReference} :
    u ∈ uselessUses (aliasedModel m) (aliasedFile m f)
      ↔ u ∈ resolveUsesFrom m [] f.uses ∧ u.target.isSome = true ∧
          ∀ x ∈ fileReferences f, x.needs (aliasedModel m) (aliasedFile m f) u = false := by
  have huses : (aliasedFile m f).uses.Nodup := by
    rw [← texts_resolveUsesFrom m] at hnodup
    exact List.Nodup.of_map _ hnodup
  rw [uselessUses_eq _ huses, fileReferences_aliasedFile, List.mem_filter]
  simp [aliasedFile]

/-- Where the uses that are gone are useless, all that are needed are kept. -/
theorem keepsNeeded_keepIn (h : m.AsLoaded) (hf : f ∈ m.files)
    (hnodup : (f.uses.map (·.text)).Nodup)
    (hgone : ∀ u ∈ resolveUsesFrom m [] f.uses, kept u.text = false →
      u ∈ uselessUses (aliasedModel m) (aliasedFile m f)) : KeepsNeeded m (keepIn f.id kept) := by
  intro g hg x hx u hu hneeds
  by_cases hid : g.id = f.id
  · obtain rfl : g = aliasedFile m f :=
      List.inj_on_of_nodup_map (numbered_aliasedModel h.numbered).files hg (aliasedFile_mem hf) hid
    rw [hid, keepIn_self]
    by_contra hk
    obtain ⟨-, -, hnone⟩ := (mem_uselessUses hnodup).mp (hgone u hu (Bool.eq_false_iff.mpr hk))
    rw [hnone x (fileReferences_aliasedFile m f ▸ hx)] at hneeds
    cases hneeds
  · simp [keepIn, hid]

/-- **A resolved use is useless if and only if without it all class and decorator references of the
model stand for the same.** -/
theorem mem_uselessUses_iff (h : m.AsLoaded) (hf : f ∈ m.files)
    (hnodup : (f.uses.map (·.text)).Nodup)
    {u : FileReference}
    (hu : u ∈ resolveUsesFrom m [] f.uses) (hresolved : u.target.isSome = true) :
    u ∈ uselessUses (aliasedModel m) (aliasedFile m f)
      ↔ (linkNames (m.keepUses (keepIn f.id (· != u.text)))).model.files.map scopedReferences
          = (linkNames m).model.files.map scopedReferences := by
  rw [sameReferences_iff]
  constructor
  · intro huseless g hg x hx
    refine resolve_of_kept (keepsNeeded_keepIn h hf hnodup ?_ g hg x (List.mem_filter.mp hx).1)
    intro v hv hname
    rw [bne_eq_false_iff_eq] at hname
    exact text_inj_resolveUses hnodup hv hu hname ▸ huseless
  · intro hsame
    rw [mem_uselessUses hnodup]
    refine ⟨hu, hresolved, fun x hx => Bool.eq_false_iff.mpr fun hneeds => ?_⟩
    have hscoped : x ∈ scopedReferences (aliasedFile m f) := by
      refine List.mem_filter.mpr ⟨(fileReferences_aliasedFile m f).symm ▸ hx, ?_⟩
      cases x with
      | cls r | decorator r => rfl
      | domain r => cases hneeds
    have ho := open_of_draft (h.fresh f hf) hx
    refine resolve_of_dropped (numbered_aliasedModel h.numbered) ho hneeds ?_
      (hsame _ (aliasedFile_mem hf) x hscoped)
    -- uses of other names are of other files
    intro v hv hkept htargets
    have hopen : ∀ r ∈ f.uses, r.target = none := fun r hr =>
      (Reference.of_fixed ((h.fresh f hf).uses r hr)).1
    obtain ⟨id, hid⟩ := Option.isSome_iff_exists.mp hresolved
    obtain ⟨g, hg, hgid, hname⟩ :=
      (followsName_resolveUsesFrom m f.uses [] hopen u hu).exists_file hid
    obtain ⟨g', hg', hgid', hname'⟩ :=
      (followsName_resolveUsesFrom m f.uses [] hopen v hv).exists_file (htargets.trans hid)
    obtain rfl := List.inj_on_of_nodup_map h.numbered.files hg hg' (hgid.trans hgid'.symm)
    have hid' : (aliasedFile m f).id = f.id := rfl
    rw [hid', keepIn_self, bne_iff_ne] at hkept
    exact hkept (hname'.symm.trans hname)

/-! ### Useless uses that are left away together -/

/-- What is neither a use that is not needed nor a circle of uses. -/
def apartFromUses (d : Diagnostic) : Bool :=
  d.kind != .unusedImport && d.kind != .circularDependency

/-- Of uses that all have other names, those are reported that find no file. -/
theorem useProblemsFrom_of_nodup (uses : List FileReference) : ∀ seen : List String,
    (uses.map (·.text)).Nodup → (∀ u ∈ uses, u.text ∉ seen) → useProblemsFrom seen uses
      = (uses.filter (·.target.isNone)).map fun u =>
        { problem := .fileNotFound u.text, location := u.location } := by
  induction uses with
  | nil => exact fun _ _ _ => rfl
  | cons u rest ih =>
    intro seen hnodup hseen
    obtain ⟨hnot, hrest⟩ := List.nodup_cons.mp (List.map_cons .. ▸ hnodup)
    have hnext := ih (u.text :: seen) hrest fun v hv hmem => by
      rcases List.mem_cons.mp hmem with he | hmem
      · exact hnot (he ▸ List.mem_map_of_mem hv)
      · exact hseen v (List.mem_cons_of_mem _ hv) hmem
    have hfirst : seen.contains u.text = false := by
      simpa using hseen u List.mem_cons_self
    rw [useProblemsFrom, hnext, hfirst, List.filter_cons]
    cases u.target.isNone <;> rfl

theorem useProblems_keepIn (h : m.AsLoaded) (hf : f ∈ m.files)
    (hnodup : (f.uses.map (·.text)).Nodup)
    (hgone : ∀ u ∈ resolveUsesFrom m [] f.uses, kept u.text = false → u.target.isSome = true) :
    useProblems (resolveUses (m.keepUses (keepIn f.id kept))) = useProblems (resolveUses m) := by
  rw [resolveUses_keepUses]
  unfold useProblems resolveUses
  simp only [Model.keepUses, Model.mapFiles, List.map_map, List.flatMap_map]
  refine List.flatMap_congr fun g hg => ?_
  show useProblemsFrom [] ((resolveUsesFrom m [] g.uses).filter fun u =>
    keepIn f.id kept g.id u.text)
    = useProblemsFrom [] (resolveUsesFrom m [] g.uses)
  by_cases hid : g.id = f.id
  · obtain rfl := List.inj_on_of_nodup_map h.numbered.files hg hf hid
    rw [← texts_resolveUsesFrom m] at hnodup
    have hkept : (((resolveUsesFrom m [] g.uses).filter fun u => kept u.text).map (·.text)).Nodup :=
      hnodup.sublist (List.filter_sublist.map _)
    rw [keepIn_self, useProblemsFrom_of_nodup _ _ hnodup fun _ _ => List.not_mem_nil,
      useProblemsFrom_of_nodup _ _ hkept fun _ _ => List.not_mem_nil, List.filter_filter]
    refine congrArg _ (List.filter_congr fun u hu => ?_)
    cases hk : kept u.text with
    | true => rw [Bool.and_true]
    | false => rw [Bool.and_false, ← Option.not_isSome, hgone u hu hk, Bool.not_true]
  · rw [List.filter_eq_self.mpr fun u _ => by simp [keepIn, hid]]

/-- Of what is not used, domains are left. -/
theorem unusedProblems_withoutUses (m : Model) :
    unusedProblems m.withoutUses = (unusedProblems m).filter apartFromUses := by
  unfold unusedProblems
  rw [isDomainUsed_withoutUses, List.filter_flatMap]
  refine (List.flatMap_map ..).trans (List.flatMap_congr fun f _ => ?_)
  have huses : (f.uselessImports.map fun use =>
      ({ problem := .unusedImport use.text, location := use.location } : Diagnostic)).filter
          apartFromUses = [] :=
    List.filter_eq_nil_iff.mpr fun d hd => by
      obtain ⟨use, -, rfl⟩ := List.mem_map.mp hd
      exact Bool.false_ne_true
  have hdomains : ∀ ds : List Domain, (ds.map fun d =>
      ({ problem := .unusedDomain d.name.value, location := d.name.location } : Diagnostic)).filter
        apartFromUses
        = ds.map fun d => { problem := .unusedDomain d.name.value, location := d.name.location } :=
        fun ds =>
    List.filter_eq_self.mpr fun d hd => by
      obtain ⟨x, -, rfl⟩ := List.mem_map.mp hd
      rfl
  rw [List.filter_append, huses, hdomains]
  rfl

theorem linkNames_keepIn (h : m.AsLoaded) (hf : f ∈ m.files) (hnodup : (f.uses.map (·.text)).Nodup)
    (hgone : ∀ u ∈ resolveUsesFrom m [] f.uses, kept u.text = false →
      u ∈ uselessUses (aliasedModel m) (aliasedFile m f)) :
    (linkNames (m.keepUses (keepIn f.id kept))).model.withoutUses
      = (linkNames m).model.withoutUses ∧
      (linkNames (m.keepUses (keepIn f.id kept))).problems.filter apartFromUses
        = (linkNames m).problems.filter apartFromUses := by
  have hnamed := namedModel_keepUses (keepsNeeded_keepIn h hf hnodup hgone)
  have hnoted : ∀ m : Model, (linkNames m).model.withoutUses = (namedModel m).withoutUses :=
    fun m =>
    Model.withoutUses_of_uses
      (g := fun f => { f with uselessImports := uselessUses (namedModel m) f }) (fun _ => rfl) _
  have huses :=
    useProblems_keepIn h hf hnodup fun u hu hk => ((mem_uselessUses hnodup).mp (hgone u hu hk)).2.1
  have hcircles : ∀ m : Model, (circularUses m).filter apartFromUses = [] := fun m =>
    List.filter_eq_nil_iff.mpr fun d hd => by
      obtain ⟨c, -, rfl⟩ := List.mem_map.mp hd
      exact Bool.false_ne_true
  have haliases : fileAliasProblems (aliasedModel (m.keepUses (keepIn f.id kept)))
      = fileAliasProblems (aliasedModel m) := by
    rw [aliasedModel_keepUses]
    exact List.flatMap_map ..
  have hreferences : referenceProblems (namedModel (m.keepUses (keepIn f.id kept)))
      = referenceProblems (namedModel m) := by
    rw [hnamed]
    exact List.flatMap_map ..
  have hcycles : inheritanceCycles (namedModel (m.keepUses (keepIn f.id kept)))
      = inheritanceCycles (namedModel m) := by
    rw [← inheritanceCycles_withoutUses, hnamed, Model.withoutUses_keepUses,
      inheritanceCycles_withoutUses]
  have hparts : ∀ m : Model, (linkNames m).problems
      = useProblems (resolveUses m) ++ circularUses (resolveUses m)
        ++ fileAliasProblems (aliasedModel m)
          ++ referenceProblems (namedModel m) ++ inheritanceCycles (namedModel m) := fun _ => rfl
  constructor
  · rw [hnoted, hnoted, hnamed, Model.withoutUses_keepUses]
  · rw [hparts, hparts, huses, haliases, hreferences, hcycles]
    simp only [List.filter_append, hcircles]

/-- **Without uses that nothing needs, the model linked is the same but for uses, and what is
reported is the same but for unused imports and circles of uses.** -/
theorem link_keepUses (rules : NamingRules) (h : m.AsLoaded) (hf : f ∈ m.files)
    (hnodup : (f.uses.map (·.text)).Nodup)
    (hgone : ∀ u ∈ resolveUsesFrom m [] f.uses, kept u.text = false →
      u ∈ uselessUses (aliasedModel m) (aliasedFile m f)) :
    ((m.keepUses (keepIn f.id kept)).link rules).model.withoutUses
      = (m.link rules).model.withoutUses ∧
      ((m.keepUses (keepIn f.id kept)).link rules).problems.filter apartFromUses
        = (m.link rules).problems.filter apartFromUses := by
  obtain ⟨hstart, hnames⟩ := linkNames_keepIn h hf hnodup hgone
  obtain ⟨hmodel, hproblems⟩ := withoutUses_linkProperties (linkNames m).model rules
  obtain ⟨hmodel', hproblems'⟩ :=
    withoutUses_linkProperties (linkNames (m.keepUses (keepIn f.id kept))).model rules
  rw [hstart] at hmodel' hproblems'
  have hlinked : ((m.keepUses (keepIn f.id kept)).link rules).model.withoutUses
      = (m.link rules).model.withoutUses :=
    hmodel'.trans hmodel.symm
  have hparts : ∀ m : Model, (m.link rules).problems
      = (linkNames m).problems ++ (linkProperties rules (linkNames m).model).problems
        ++ Validation.problems (m.link rules).model rules ++ unusedProblems (m.link rules).model :=
        fun _ => rfl
  refine ⟨hlinked, ?_⟩
  rw [hparts, hparts, hproblems, hproblems', ← Validation.problems_withoutUses, hlinked,
    Validation.problems_withoutUses]
  simp only [List.filter_append, hnames, ← unusedProblems_withoutUses, hlinked]

end EntityModel.Linking
