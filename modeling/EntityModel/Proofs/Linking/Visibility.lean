import EntityModel.Proofs.Locality.Domains
import EntityModel.Proofs.Source.Tables
import EntityModel.Proofs.Watching.FileLinks

/-!
# What a file sees

The scope of a file is read off a model in which uses and aliases of files are resolved.  Here it is
told of the drafts alone: a file sees its own classes, then those that its alias blocks bring in,
then those of the files that it uses (`classesSeen`), and likewise its decorators
(`decoratorsSeen`).  Neither the files that a used file uses in turn nor what the aliases of another
file bring in is seen.  The scope holds just that, in this order (`findClass_aliasedFile`,
`findDecorator_aliasedFile`), so that the first of a name is the one that a reference of the file is
resolved to (`fileReferences_named`).
-/

namespace EntityModel

def AliasedEntity.cls? : AliasedEntity → Option ClassId
  | cls id => some id
  | endpoint _ => none

namespace Linking

variable {m : Model}

/-! ### In the drafts -/

/-- The classes that an alias block brings in: all of the file that it names, or those that it
lists, if the file itself declares them. -/
def broughtIn (m : Model) (a : Alias) : List Class :=
  match m.fileNamed? a.file.text with
  | none => []
  | some f =>
    if a.isWildcard then f.classes
    else (a.classes.getD []).filterMap fun r => f.classes.find? (·.name.value == r.text)

/-- The files that a file uses, in order; only the first use of a name counts. -/
def filesUsed (m : Model) (f : ModelFile) : List ModelFile :=
  (firstOccurrences (f.uses.map (·.text))).filterMap m.fileNamed?

def classesSeen (m : Model) (f : ModelFile) : List Class :=
  f.classes ++ f.aliases.flatMap (broughtIn m) ++ (filesUsed m f).flatMap (·.classes)

def decoratorsSeen (m : Model) (f : ModelFile) : List Decorator :=
  f.decorators ++ (filesUsed m f).flatMap (·.decorators)

/-- The first class of the name that the file sees. -/
def classSeen (m : Model) (f : ModelFile) (name : String) : Option ClassId :=
  ((classesSeen m f).find? (·.name.value == name)).map (·.id)

def decoratorSeen (m : Model) (f : ModelFile) (name : String) : Option DecoratorId :=
  ((decoratorsSeen m f).find? (·.name.value == name)).map (·.id)

/-- A reference that a file makes, with what its name stands for there. -/
def EntityReference.lookedUp (m : Model) (f : ModelFile) : EntityReference → EntityReference
  | .cls r => .cls { r with target := classSeen m f r.text }
  | .decorator r => .decorator { r with target := decoratorSeen m f r.text }
  | .domain r => .domain { r with target := findDomain m r.text }

/-! ### In the model with uses and aliases resolved -/

def aliasedFile (m : Model) (f : ModelFile) : ModelFile :=
  let aliases := f.aliases.map (resolveAlias (resolveUses m))
  let found := aliases.flatMap fun a =>
    (aliasedEntities (resolveUses m) a).map fun entity =>
      { aliasId := a.id, entity, location := a.location }
  { f with
    uses := resolveUsesFrom m [] f.uses
    aliases
    resolvedAliases := f.resolvedAliases ++ found }

theorem aliasedModel_eq (m : Model) : aliasedModel m = m.mapFiles (aliasedFile m) := by
  simp only [aliasedModel, resolveFileAliases, resolveUses, Model.mapFiles, List.map_map]
  rfl

theorem file?_aliasedModel (m : Model) (id : FileId) :
    (aliasedModel m).file? id = (m.file? id).map (aliasedFile m) := by
  rw [aliasedModel_eq]
  exact m.file?_mapFiles (g := aliasedFile m) (fun _ => rfl) id

/-- Each file is used once, at the first use of its name. -/
theorem targets_resolveUsesFrom (m : Model) (uses : List FileReference)
    (h : ∀ u ∈ uses, u.target = none) :
    ∀ seen, (resolveUsesFrom m seen uses).filterMap (·.target)
      = (((firstOccurrences (uses.map (·.text))).filter fun name => !seen.contains name).filterMap
          m.fileNamed?).map (·.id) := by
  induction uses with
  | nil => exact fun _ => rfl
  | cons use rest ih =>
    intro seen
    have hopen := h use List.mem_cons_self
    -- behind the first use, its name is among those seen
    have hrest : ((firstOccurrences (rest.map (·.text))).filter (· != use.text)).filter
          (fun name => !seen.contains name)
        = (firstOccurrences (rest.map (·.text))).filter fun name =>
          !(use.text :: seen).contains name := by
      rw [List.filter_filter]
      refine List.filter_congr fun name _ => ?_
      rw [List.contains_cons, Bool.not_or, Bool.and_comm]
      rfl
    rw [resolveUsesFrom_cons, List.filterMap_cons, ih (fun u hu => h u (List.mem_cons_of_mem _ hu)),
      List.map_cons, firstOccurrences, List.filter_cons, hrest]
    unfold resolvedUse
    cases hseen : seen.contains use.text with
    | true => simp [hopen]
    | false =>
      cases hfile : m.fileNamed? use.text with
      | none => simp [hfile, hopen]
      | some f => simp [hfile, Reference.resolve]

theorem mem_filesUsed {f g : ModelFile} (h : g ∈ filesUsed m f) : g ∈ m.files := by
  obtain ⟨name, -, hg⟩ := List.mem_filterMap.mp h
  exact (exists_of_fileNamed? hg).1

theorem targets_uses (m : Model) {f : ModelFile} (h : ∀ u ∈ f.uses, u.target = none) :
    (resolveUsesFrom m [] f.uses).filterMap (·.target) = (filesUsed m f).map (·.id) := by
  have hnone : ∀ names : List String,
      (names.filter fun name => !([] : List String).contains name) = names :=
    fun names => List.filter_eq_self.mpr fun _ _ => rfl
  rw [targets_resolveUsesFrom m f.uses h, hnone, filesUsed]

theorem map_snd_usedFiles (m : Model) (f : ModelFile) :
    (usedFiles m f).map (·.2) = f.uses.filterMap fun u => u.target.bind m.file? := by
  have huses : f.uses.filterMap (fun u => u.target.bind m.file?)
      = f.uses.zipIdx.filterMap fun x => x.1.target.bind m.file? := by
    conv_lhs => rw [← List.zipIdx_map_fst 0 f.uses]
    rw [List.filterMap_map]
    rfl
  rw [huses, usedFiles, List.map_filterMap]
  refine List.filterMap_congr fun x _ => ?_
  rw [Option.map_map]
  exact Option.map_id'

theorem usedFiles_aliasedFile (hm : m.Numbered) {f : ModelFile}
    (h : ∀ u ∈ f.uses, u.target = none) :
    (usedFiles (aliasedModel m) (aliasedFile m f)).map (·.2)
      = (filesUsed m f).map (aliasedFile m) := by
  have hfiles : ((filesUsed m f).map (·.id)).filterMap m.file? = filesUsed m f := by
    rw [List.filterMap_map]
    refine (List.filterMap_congr fun g hg => ?_).trans List.filterMap_some
    exact Model.file?_of_mem hm.files (mem_filesUsed hg)
  calc (usedFiles (aliasedModel m) (aliasedFile m f)).map (·.2)
      = (((resolveUsesFrom m [] f.uses).filterMap (·.target)).filterMap m.file?).map
        (aliasedFile m) := by
        rw [map_snd_usedFiles, List.filterMap_filterMap, List.map_filterMap]
        refine List.filterMap_congr fun u _ => ?_
        cases u.target with
        | none => rfl
        | some id => exact file?_aliasedModel m id
    _ = (filesUsed m f).map (aliasedFile m) := by rw [targets_uses m h, hfiles]

theorem flatMap_usedFiles {α : Type} (hm : m.Numbered) {f : ModelFile}
    (h : ∀ u ∈ f.uses, u.target = none)
    (g : ModelFile → List α) :
    (usedFiles (aliasedModel m) (aliasedFile m f)).flatMap (fun x => g x.2)
      = (filesUsed m f).flatMap fun used => g (aliasedFile m used) := by
  have hsame := congrArg (List.flatMap g) (usedFiles_aliasedFile hm h)
  rwa [List.flatMap_map, List.flatMap_map] at hsame

theorem cls?_of_mem (hm : m.Numbered) {f : ModelFile} (hf : f ∈ m.files) {c : Class}
    (hc : c ∈ f.classes) :
    (aliasedModel m).cls? c.id = some c := by
  refine (numbered_aliasedModel hm).cls?_iff.mpr ⟨?_, rfl⟩
  rw [aliasedModel_eq]
  exact List.mem_flatMap.mpr ⟨aliasedFile m f, List.mem_map_of_mem hf, hc⟩

theorem filterMap_aliasedEntities (m : Model) (a : Alias) :
    (aliasedEntities m a).filterMap (·.cls?)
      = (a.file.target.bind m.file?).elim [] fun f =>
          if a.isWildcard then f.classes.map (·.id)
          else (a.classes.getD []).filterMap (·.target) := by
  have hclasses : ∀ rs : List ClassReference,
      (rs.filterMap fun r => r.target.map AliasedEntity.cls).filterMap (·.cls?)
        = rs.filterMap (·.target) := by
    intro rs
    rw [List.filterMap_filterMap]
    refine List.filterMap_congr fun r _ => ?_
    cases r.target <;> rfl
  have hendpoints : ∀ rs : List EndpointReference,
      (rs.filterMap fun r => r.target.map AliasedEntity.endpoint).filterMap (·.cls?) = [] := by
    intro rs
    rw [List.filterMap_filterMap, List.filterMap_eq_nil_iff]
    intro r _
    cases r.target <;> rfl
  have hall : ∀ f : ModelFile, (f.classes.map (AliasedEntity.cls ·.id)
      ++ f.endpoints.map (AliasedEntity.endpoint ·.id)).filterMap (·.cls?)
        = f.classes.map (·.id) := by
    intro f
    have hnone : (f.endpoints.map (AliasedEntity.endpoint ·.id)).filterMap (·.cls?) = [] := by
      rw [List.filterMap_map, List.filterMap_eq_nil_iff]
      exact fun _ _ => rfl
    rw [List.filterMap_append, hnone, List.append_nil, List.filterMap_map]
    exact congrFun (List.filterMap_eq_map' (f := fun c : Class => c.id)) f.classes
  unfold aliasedEntities
  cases a.file.target.bind m.file? with
  | none => rfl
  | some f =>
    simp only [List.filterMap_append, hclasses, hendpoints, List.append_nil, Option.elim_some]
    split
    next hwild =>
      have hnone : a.classes = none := by simpa using (Bool.and_eq_true_iff.mp hwild).1
      rw [hall, hnone]
      exact List.append_nil _
    · rfl

theorem isWildcard_resolveAlias (m : Model) (a : Alias) :
    (resolveAlias m a).isWildcard = a.isWildcard := by
  unfold resolveAlias
  split
  · rfl
  · simp [Alias.isWildcard]

/-- **An alias block brings in what it asks for.** -/
theorem classes_aliasedEntities (hm : m.Numbered) {a : Alias} (ho : AliasOpen a) :
    ((aliasedEntities (resolveUses m) (resolveAlias (resolveUses m) a)).filterMap
      (·.cls?)).filterMap
      (aliasedModel m).cls? = broughtIn m a := by
  rw [filterMap_aliasedEntities, isWildcard_resolveAlias]
  unfold broughtIn resolveAlias
  rw [fileNamed?_resolveUses]
  cases hname : m.fileNamed? a.file.text with
  | none => simp [ho.file]
  | some f =>
    have hf := (exists_of_fileNamed? hname).1
    have hfile : (resolveUses m).file? f.id
        = some { f with uses := resolveUsesFrom m [] f.uses } := by
      have hmap :=
        m.file?_mapFiles (g := fun f => { f with uses := resolveUsesFrom m [] f.uses })
          (fun _ => rfl) f.id
      rw [Model.file?_of_mem hm.files hf] at hmap
      exact hmap
    have hall : (f.classes.map (·.id)).filterMap (aliasedModel m).cls? = f.classes := by
      rw [List.filterMap_map]
      exact (List.filterMap_congr fun c hc => cls?_of_mem hm hf hc).trans List.filterMap_some
    have hlisted : (((a.classes.getD []).map (resolveBy (findClass f))).filterMap
          (·.target)).filterMap
          (aliasedModel m).cls?
        = (a.classes.getD []).filterMap fun r => f.classes.find? (·.name.value == r.text) := by
      rw [List.filterMap_map, List.filterMap_filterMap]
      refine List.filterMap_congr fun r hr => ?_
      have htarget : (resolveBy (findClass f) r).target = findClass f r.text :=
        resolveBy_open _ (ho.classes r hr)
      show ((resolveBy (findClass f) r).target).bind (aliasedModel m).cls? = _
      rw [htarget, findClass]
      cases hc : f.classes.find? (·.name.value == r.text) with
      | none => rfl
      | some c => exact cls?_of_mem hm hf (List.mem_of_find?_eq_some hc)
    simp only [Option.map_some, Reference.resolve, Option.bind_some, hfile,
      Option.elim_some, getD_map]
    split
    · exact hall
    · exact hlisted

theorem firstVisible_eq {α β : Type} {seen : List (Visible α)} {l : List β} {g : β → String}
    {target : β → α}
    (h : seen.map (fun v => (v.name, v.target)) = l.map fun b => (g b, target b)) (name : String) :
    (firstVisible seen name).map (·.target) = (l.find? (g · == name)).map target := by
  have hpairs : ((seen.map fun v => (v.name, v.target)).find? (·.1 == name)).map (·.2)
      = (firstVisible seen name).map (·.target) := by
    rw [List.find?_map, Option.map_map]
    rfl
  rw [← hpairs, h, List.find?_map, Option.map_map]
  rfl

theorem aliasedClasses_aliasedFile (hm : m.Numbered) {f : ModelFile}
    (hnone : f.resolvedAliases = []) (ho : ∀ a ∈ f.aliases, AliasOpen a) :
    (aliasedFile m f).aliasedClasses.filterMap (aliasedModel m).cls?
      = f.aliases.flatMap (broughtIn m) := by
  have hfound : (aliasedFile m f).aliasedClasses
      = f.aliases.flatMap fun a =>
          (aliasedEntities (resolveUses m) (resolveAlias (resolveUses m) a)).filterMap
              (·.cls?) := by
    show (aliasedFile m f).resolvedAliases.filterMap (·.entity.cls?) = _
    simp only [aliasedFile, hnone, List.nil_append, List.flatMap_map, List.filterMap_flatMap,
      List.filterMap_map]
    rfl
  rw [hfound, List.filterMap_flatMap]
  exact List.flatMap_congr fun a ha => classes_aliasedEntities hm (ho a ha)

/-- **The scope of a file finds the first class of a name that the file sees.** -/
theorem findClass_aliasedFile (hm : m.Numbered) {f : ModelFile}
    (huses : ∀ u ∈ f.uses, u.target = none)
    (hnone : f.resolvedAliases = []) (ho : ∀ a ∈ f.aliases, AliasOpen a) :
    (scopeOf (aliasedModel m) (aliasedFile m f)).findClass = classSeen m f := by
  funext name
  refine firstVisible_eq (g := fun c : Class => c.name.value) ?_ name
  have hused :=
    flatMap_usedFiles hm huses fun used => used.classes.map fun c => (c.name.value, c.id)
  simp only [scopeOf, aliasedClasses_aliasedFile hm hnone ho, classesSeen,
    List.map_append, List.map_map, List.map_flatMap, Function.comp_def, visibleClass, hused]
  rfl

/-- **The scope of a file finds the first decorator of a name that the file sees.** -/
theorem findDecorator_aliasedFile (hm : m.Numbered) {f : ModelFile}
    (huses : ∀ u ∈ f.uses, u.target = none) :
    (scopeOf (aliasedModel m) (aliasedFile m f)).findDecorator = decoratorSeen m f := by
  funext name
  refine firstVisible_eq (g := fun d : Decorator => d.name.value) ?_ name
  have hused :=
    flatMap_usedFiles hm huses fun used => used.decorators.map fun d => (d.name.value, d.id)
  simp only [scopeOf, decoratorsSeen, List.map_append, List.map_map, List.map_flatMap,
    Function.comp_def, visibleDecorator, hused]
  rfl

/-! ### References -/

theorem resolveBy_eq_of_open {α : Type} (find : String → Option α) {r : Reference α}
    (ho : r.target = none) :
    resolveBy find r = { r with target := find r.text } := by
  have hname := resolveBy_name find r
  have htarget := resolveBy_open find ho
  generalize resolveBy find r = r' at hname htarget
  cases r'
  subst hname htarget
  rfl

/-- Uses and aliases are no references of this kind. -/
theorem fileReferences_aliasedFile (m : Model) (f : ModelFile) :
    fileReferences (aliasedFile m f) = fileReferences f := fileReferences_congr rfl rfl rfl rfl

/-- **Linking by name resolves every reference of a file to the first thing of its name that the
file sees.** -/
theorem fileReferences_named (h : m.AsLoaded) {f : ModelFile} (hf : f ∈ m.files)
    (hnone : f.resolvedAliases = []) :
    fileReferences (resolveReferencesOf (aliasedModel m) (aliasedFile m f))
      = (fileReferences f).map (EntityReference.lookedUp m f) := by
  have hfresh := h.fresh f hf
  have huses : ∀ u ∈ f.uses, u.target = none :=
    fun u hu => (Reference.of_fixed (hfresh.uses u hu)).1
  have haliases : ∀ a ∈ f.aliases, AliasOpen a :=
    fun a ha => aliasOpen_of_fixed (hfresh.aliases a ha)
  rw [fileReferences_resolveReferencesOf, fileReferences_aliasedFile]
  refine List.map_congr_left fun x hx => ?_
  have hopen := open_of_draft hfresh hx
  cases x with
  | cls r =>
    have ho : r.target = none := Option.map_eq_none_iff.mp hopen
    rw [EntityReference.resolve, EntityReference.lookedUp, resolveBy_eq_of_open _ ho,
      findClass_aliasedFile h.numbered huses hnone haliases]
  | decorator r =>
    have ho : r.target = none := Option.map_eq_none_iff.mp hopen
    rw [EntityReference.resolve, EntityReference.lookedUp, resolveBy_eq_of_open _ ho,
      findDecorator_aliasedFile h.numbered huses]
  | domain r =>
    have ho : r.target = none := Option.map_eq_none_iff.mp hopen
    rw [EntityReference.resolve, EntityReference.lookedUp, resolveBy_eq_of_open _ ho,
      findDomain_aliasedModel]

theorem exists_named_of_draft (h : m.AsLoaded) {f : ModelFile} (hf : f ∈ m.files)
    (hnone : f.resolvedAliases = []) :
    ∃ n ∈ (linkNames m).model.files, n.id = f.id ∧ n.uses = resolveUsesFrom m [] f.uses ∧
      fileReferences n = (fileReferences f).map (EntityReference.lookedUp m f) ∧
      n.properties = f.properties.map (resolveProperty (aliasedModel m) (aliasedFile m f)) := by
  have ha : aliasedFile m f ∈ (aliasedModel m).files := by
    rw [aliasedModel_eq]
    exact List.mem_map_of_mem hf
  refine ⟨_, List.mem_map_of_mem (List.mem_map_of_mem ha), rfl, rfl, ?_,
    properties_resolveReferencesOf _ _⟩
  rw [← fileReferences_named h hf hnone]
  exact fileReferences_congr rfl rfl rfl rfl

/-- The references of a file are those around its properties and those of its properties. -/
theorem mem_fileReferences_iff {f : ModelFile} {x : EntityReference} :
    x ∈ fileReferences f ↔ x ∈ fileReferences f.frame ∨
    ∃ p ∈ f.properties, x ∈ propertyReferences p := by
  have hclass : ∀ c : Class, x ∈ classReferences c
      ↔ x ∈ classReferences c.frame ∨ ∃ p ∈ c.properties, x ∈ propertyReferences p := fun c => by
    simp [classReferences, Class.frame, or_assoc]
  have hframe : x ∈ fileReferences f.frame ↔ (∃ d ∈ f.domains, ∃ y ∈ d.asDomains, .domain y.2 = x)
      ∨ ∃ c ∈ f.classes, x ∈ classReferences c.frame := by
    have hdecorators : ∀ d : Decorator, d.frame.properties = [] := fun _ => rfl
    have hendpoints : ∀ e : Endpoint, e.frame.properties = [] := fun _ => rfl
    simp [fileReferences, ModelFile.frame, List.flatMap_map, hdecorators, hendpoints]
  rw [hframe]
  constructor
  · intro hx
    simp only [fileReferences, List.mem_append, List.mem_flatMap, List.mem_map] at hx
    rcases hx with ((hx | ⟨d, hd, p, hp, hx⟩) | ⟨c, hc, hx⟩) | ⟨e, he, p, hp, hx⟩
    · exact Or.inl (Or.inl hx)
    · exact Or.inr ⟨p,
        List.mem_append_left _ (List.mem_append_right _ (List.mem_flatMap.mpr ⟨d, hd, hp⟩)), hx⟩
    · rcases (hclass c).mp hx with hx | ⟨p, hp, hx⟩
      · exact Or.inl (Or.inr ⟨c, hc, hx⟩)
      · exact Or.inr ⟨p,
          List.mem_append_left _ (List.mem_append_left _ (List.mem_flatMap.mpr ⟨c, hc, hp⟩)), hx⟩
    · exact Or.inr ⟨p, List.mem_append_right _ (List.mem_flatMap.mpr ⟨e, he, hp⟩), hx⟩
  · rintro ((hx | ⟨c, hc, hx⟩) | ⟨p, hp, hx⟩)
    · simp only [fileReferences, List.mem_append, List.mem_flatMap, List.mem_map]
      exact Or.inl (Or.inl (Or.inl hx))
    · simp only [fileReferences, List.mem_append, List.mem_flatMap]
      exact Or.inl (Or.inr ⟨c, hc, (hclass c).mpr (Or.inl hx)⟩)
    · exact mem_fileReferences hp hx

/-- A choice that was looked up was written as one, of a class of the same name. -/
theorem exists_choice_of_resolveProperty {f : ModelFile} {p : Property} {a : AliasProperty}
    (hk : (resolveProperty m f p).kind = .propertyAlias a) (hnone : a.property = none) :
    ∃ a', p.kind = .propertyAlias a' ∧ a'.property = none ∧ a'.cls.name = a.cls.name := by
  unfold resolveProperty at hk
  cases hp : p.kind with
  | propertyAlias a' =>
    rw [hp] at hk
    obtain rfl := PropertyKind.propertyAlias.inj hk
    exact ⟨a', rfl, hnone, (resolveBy_name _ _).symm⟩
  | _ =>
    rw [hp] at hk
    exact absurd hk (by simp [resolveKind])

theorem eq_of_open {α : Type} {r r' : Reference α} (hname : r.name = r'.name) (h : r.target = none)
    (h' : r'.target = none) : r = r' := by
  cases r
  cases r'
  simp_all

/-! ### From names to the end -/

theorem mem_file_of_owner (hm : m.Numbered) {f : ModelFile} (hf : f ∈ m.files) {p : Property}
    (hp : p ∈ m.properties) (ho : p.owner.file = f.id) : p ∈ f.properties := by
  rw [← hm.properties_of_file hf]
  exact List.mem_filter.mpr ⟨hp, beq_iff_eq.mpr ho⟩

/-- Where only property lists change, and every property stems from an old one, the references of a
file stay as they are: none is added, and none is lost but those to classes of which properties are
chosen. -/
theorem exists_file_of_sameFrame {m' : Model} (hm : m.Numbered) (hm' : m'.Numbered)
    (hsame : Model.SameFrame m m') (hstems : Stems m m') (hlasting : Lasting m m') {n : ModelFile}
    (hn : n ∈ m.files) :
    ∃ s ∈ m'.files, s.id = n.id ∧ s.uses = n.uses ∧ fileReferences s ⊆ fileReferences n ∧
      ∀ x ∈ fileReferences n, x ∈ fileReferences s ∨
        ∃ d ∈ n.properties, ∃ a, d.kind = .propertyAlias a ∧ a.property = none ∧
          a.cls.target.isSome = true ∧ x = .cls a.cls := by
  have hback : Model.SameFrame m' m := hsame.symm
  obtain ⟨s, hs, hframe⟩ := hback.files hn
  have hid : s.id = n.id := show s.frame.id = n.frame.id from congrArg ModelFile.id hframe.symm
  have huses : s.uses = n.uses :=
    show s.frame.uses = n.frame.uses from congrArg ModelFile.uses hframe.symm
  refine ⟨s, hs, hid, huses, fun x hx => ?_, fun x hx => ?_⟩
  · rcases mem_fileReferences_iff.mp hx with hx | ⟨p, hp, hx⟩
    · exact mem_fileReferences_iff.mpr (Or.inl (hframe ▸ hx))
    · obtain ⟨d, hd, hstem⟩ := hstems p (Model.properties_of_mem hs hp)
      have howner : p.owner.file = s.id := ((Model.numbered_iff.mp hm').2 s hs).owner_file hp
      rw [hstem.owner, hid] at howner
      exact mem_fileReferences (mem_file_of_owner hm hn hd howner) (hstem.references ▸ hx)
  · rcases mem_fileReferences_iff.mp hx with hx | ⟨d, hd, hx⟩
    · exact Or.inl (mem_fileReferences_iff.mpr (Or.inl (hframe ▸ hx)))
    · rcases hlasting d (Model.properties_of_mem hn hd) with ⟨p, hp, hstem⟩ | ⟨a, hk, hnone, hknown⟩
      · have howner : d.owner.file = n.id := ((Model.numbered_iff.mp hm).2 n hn).owner_file hd
        rw [← hstem.owner, ← hid] at howner
        exact Or.inl (mem_fileReferences (mem_file_of_owner hm' hs hp howner)
          (hstem.references ▸ hx))
      · refine Or.inr ⟨d, hd, a, hk, hnone, hknown, ?_⟩
        rw [propertyReferences, hk] at hx
        exact List.mem_singleton.mp hx

/-- Classes that know their own properties refer to what they did before. -/
theorem fileReferences_resolveClassProperties (find : ClassId → String → Option PropertyId)
    (f : ModelFile) :
    fileReferences (f.mapClasses fun c => resolveClassProperties (find c.id) c)
      = fileReferences f := by
  simp only [fileReferences, ModelFile.mapClasses, List.flatMap_map]
  rfl

theorem lasting_associated (rules : NamingRules) (h : m.AsLoaded) :
    Lasting (linkNames m).model (associated rules m) :=
  (Run.lasting (run_resolveAliases (sound_named rules h)) (sound_named rules h)).trans
    (lasting_associationRounds _ _ _ _)

/-- **What becomes of the references of a draft**: each is resolved to the first thing of its name
that the file sees, and in the end it is there, choices of properties of a class apart that is
found. -/
theorem exists_linked_of_draft (rules : NamingRules) (h : m.AsLoaded) {f : ModelFile}
    (hf : f ∈ m.files) (hnone : f.resolvedAliases = []) :
    ∃ g ∈ (m.link rules).model.files, g.id = f.id ∧ g.uses = resolveUsesFrom m [] f.uses ∧
      (∀ x ∈ fileReferences g, ∃ y ∈ fileReferences f, x = y.lookedUp m f) ∧
      ∀ y ∈ fileReferences f, y.lookedUp m f ∈ fileReferences g ∨
        ∃ p ∈ f.properties, ∃ a, p.kind = .propertyAlias a ∧ a.property = none ∧ y = .cls a.cls ∧
          (classSeen m f a.cls.text).isSome = true := by
  obtain ⟨n, hn, hid, huses, hrefs, hproperties⟩ := exists_named_of_draft h hf hnone
  have hsound : Sound rules false (associated rules m) := sound_associated h
  obtain ⟨s, hs, hsid, hsuses, hsub, hlost⟩ :=
    exists_file_of_sameFrame (numbered_linkNames h.numbered) hsound.numbered
      (sameFrame_associated rules h) (stems_associated h) (lasting_associated rules h) hn
  have hlinked : ∀ m' : Model, s ∈ m'.files →
      (s.mapClasses fun c => resolveClassProperties (m'.findProperty rules c.id) c)
        ∈ (resolvePropertyReferences rules m').files := fun _ hs => List.mem_map_of_mem hs
  refine ⟨_, hlinked _ hs, hsid.trans hid, hsuses.trans huses, fun x hx => ?_, fun y hy => ?_⟩
  · rw [fileReferences_resolveClassProperties] at hx
    have hx := hsub hx
    rw [hrefs, List.mem_map] at hx
    obtain ⟨y, hy, rfl⟩ := hx
    exact ⟨y, hy, rfl⟩
  · rw [fileReferences_resolveClassProperties]
    refine (hlost _ (hrefs ▸ List.mem_map_of_mem hy)).imp_right ?_
    rintro ⟨d, hd, a, hk, hchoice, hknown, he⟩
    rw [hproperties, List.mem_map] at hd
    obtain ⟨p, hp, rfl⟩ := hd
    obtain ⟨a', hk', hchoice', hname⟩ := exists_choice_of_resolveProperty hk hchoice
    have hopen : ∀ {r}, EntityReference.cls r ∈ fileReferences f → r.target = none := fun hr =>
      Option.map_eq_none_iff.mp (open_of_draft (h.fresh f hf) hr)
    cases y with
    | cls r =>
      have hcls : { r with target := classSeen m f r.text } = a.cls := EntityReference.cls.inj he
      have hmem : EntityReference.cls a'.cls ∈ fileReferences f :=
        mem_fileReferences hp (by rw [propertyReferences, hk']; exact List.mem_singleton_self _)
      have hsame : r = a'.cls :=
        eq_of_open ((congrArg Reference.name hcls).trans hname.symm) (hopen hy) (hopen hmem)
      rw [← hcls] at hknown
      exact ⟨p, hp, a', hk', hchoice', by rw [hsame], hsame ▸ hknown⟩
    | decorator r | domain r => exact absurd he (by simp [EntityReference.lookedUp])

end Linking

end EntityModel
