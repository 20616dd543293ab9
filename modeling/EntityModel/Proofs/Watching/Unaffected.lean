import EntityModel.Proofs.Locality.Domains
import EntityModel.Proofs.Watching.Dependents
import EntityModel.Proofs.Watching.FileLinks

/-!
# Files that a change leaves alone

When the content of a file changes, only the files that depend on it are told of.  For all others
names and columns are the same as before (`Reachable.unaffected`), since everything that these are
made of is reached through files that are used or aliased.  Types are not: domains are found by name
in every file, used or not.  So a type stays the same if the domains of the changed file that it is
made of are still declared alike, and without that a file may be left with a type that is out of
date.
-/

namespace EntityModel

open Linking Relation

namespace Linking

variable {rules : NamingRules} {D D' m : Model} {f : FileId}

/-! ### Files that do not depend on the changed one -/

def independentOf (m : Model) (f id : FileId) : Bool := !(m.withDependents f).contains id

theorem independentOf_iff {id : FileId} :
    independentOf m f id = true ↔ id ∉ m.withDependents f := by
  simp [independentOf]

theorem ne_of_independentOf (hm : m.Numbered) {id : FileId} (h : independentOf m f id = true) :
    id ≠ f := by
  rintro rfl
  exact independentOf_iff.mp h ((Model.mem_withDependents hm.files).mpr .refl)

theorem independentOf_of_dependsOn (hm : m.Numbered) {a b : FileId} (h : independentOf m f a = true)
    (hab : m.DependsOn a b) : independentOf m f b = true := by
  rw [independentOf_iff] at h ⊢
  exact fun hb => h ((Model.mem_withDependents hm.files).mpr
    (.head hab ((Model.mem_withDependents hm.files).mp hb)))

def NamesApart (m : Model) : Prop := ∀ g ∈ m.files, ∀ g' ∈ m.files, g.name = g'.name → g = g'

/-- The models have the same files but for one. -/
def ChangedAt (f : FileId) (m m' : Model) : Prop :=
  m'.files.filter (fun g => g.id != f) = m.files.filter fun g => g.id != f

theorem ChangedAt.mem_iff (h : ChangedAt f D D') {g : ModelFile} (hg : g.id ≠ f) :
    g ∈ D'.files ↔ g ∈ D.files := by
  have hmem : g ∈ D'.files.filter (fun g => g.id != f) ↔ g ∈ D.files.filter fun g =>
      g.id != f := by rw [h]
  simpa [hg] using hmem

theorem ChangedAt.part {K : FileId → Bool} (h : ChangedAt f D D')
    (hK : ∀ id, K id = true → id ≠ f) :
    D.part K = D'.part K := by
  have hfilter : ∀ m : Model, (m.files.filter fun g => K g.id)
      = (m.files.filter fun g => g.id != f).filter fun g => K g.id := fun m => by
    rw [List.filter_filter]
    refine List.filter_congr fun g _ => ?_
    cases hg : K g.id with
    | false => rfl
    | true => simpa using hK g.id hg
  rw [Model.part, Model.part, hfilter, hfilter D', h]

/-- A file that does not depend on `f` depends on what it names, and so names no file that does. -/
theorem exists_named (hD : D.AsLoaded) (hnone : ∀ d ∈ (D.link rules).problems, d.isError = false)
    {d : ModelFile} (hd : d ∈ D.files) (hK : independentOf (D.link rules).model f d.id = true)
    {name : String} (hname : name ∈ d.fileNames) :
    ∃ g ∈ D.files, g.name = name ∧ independentOf (D.link rules).model f g.id = true := by
  have hnum := (sound_link rules hD).numbered
  obtain ⟨l, hl, hid⟩ := exists_file_of_draft rules hD hd
  obtain ⟨d', hd', hid', hnames, -⟩ := exists_draft_of_file hD hl
  obtain rfl : d' = d := List.inj_on_of_nodup_map hD.numbered.files hd' hd (hid'.trans hid)
  obtain ⟨g, hg, hgname, hdep⟩ := exists_dependsOn_of_named hD hnone hl (hnames ▸ hname)
  exact ⟨g, hg, hgname, independentOf_of_dependsOn hnum hK ⟨l, hl, hid, hdep⟩⟩

/-- **After the change, the files that do not depend on `f` name only each other.** -/
theorem namesWithin_after (hD : D.AsLoaded)
    (hnone : ∀ d ∈ (D.link rules).problems, d.isError = false)
    (hapart : NamesApart D) : D.NamesWithin (independentOf (D.link rules).model f) := by
  intro d hd hK name hname g hg
  obtain ⟨hmem, hgname⟩ := exists_of_fileNamed? hg
  obtain ⟨g', hg', hgname', hK'⟩ := exists_named hD hnone hd hK hname
  rwa [hapart g hmem g' hg' (hgname.trans hgname'.symm)]

/-- **And so did they before.** -/
theorem namesWithin_before (hD' : D'.AsLoaded)
    (hnone' : ∀ d ∈ (D'.link rules).problems, d.isError = false)
    (hapart : NamesApart D) (hchanged : ChangedAt f D D') :
    D.NamesWithin (independentOf (D'.link rules).model f) := by
  have hne : ∀ {id}, independentOf (D'.link rules).model f id = true → id ≠ f :=
    ne_of_independentOf (sound_link rules hD').numbered
  intro d hd hK name hname g hg
  obtain ⟨hmem, hgname⟩ := exists_of_fileNamed? hg
  have hd' := (hchanged.mem_iff (hne hK)).mpr hd
  obtain ⟨g', hg', hgname', hK'⟩ := exists_named hD' hnone' hd' hK hname
  have hmem' := (hchanged.mem_iff (hne hK')).mp hg'
  rwa [hapart g hmem g' hmem' (hgname.trans hgname'.symm)]

/-- The models linked before and after the change lie alongside each other. -/
theorem alongside_of_change (hD : D.AsLoaded) (hD' : D'.AsLoaded)
    (hnone : ∀ d ∈ (D.link rules).problems, d.isError = false)
    (hnone' : ∀ d ∈ (D'.link rules).problems, d.isError = false) (hapart : NamesApart D)
    (hapart' : NamesApart D') (hchanged : ChangedAt f D D') :
    Model.Alongside (independentOf (D'.link rules).model f) rules (D.link rules).model
      (D'.link rules).model :=
  alongside_link hD hD' (namesWithin_before hD' hnone' hapart hchanged)
    (namesWithin_after hD' hnone' hapart') hnone hnone'
      (hchanged.part fun _ => ne_of_independentOf (sound_link rules hD').numbered)

end Linking

namespace Store

variable {s s' : Store} {f : FileId}

/-! ### Stores that differ in one file -/

structure ChangedAt (f : FileId) (s s' : Store) : Prop where
  settings : s'.settings = s.settings
  drafts : s'.drafts.erase f = s.drafts.erase f

theorem changedAt_putLoaded (s : Store) {file : Option ModelFile} (hid : ∀ g ∈ file, g.id = f) :
    ChangedAt f s (s.putLoaded f file) := by
  cases file with
  | none => exact ⟨rfl, by simp [putLoaded, removeFile, FileTable.erase]⟩
  | some g =>
    obtain rfl := hid g rfl
    exact ⟨rfl, FileTable.erase_insert s.drafts g.id g⟩

/-- **Loading a file anew changes no other.** -/
theorem changedAt_loadFile (s : Store) {name : String} (hf : s.registry.get? name = some f)
    (source : String) :
    ChangedAt f s (s.loadFile name source).1 := by
  have hintern : s.intern name = (s, f) := by
    rw [intern_eq]
    unfold FileRegistry.intern
    rw [hf]
  rw [loadFile_eq, hintern]
  cases hload : ModelFile.load f name source s.settings.app s.naming with
  | error e => exact ⟨rfl, rfl⟩
  | ok file =>
    refine changedAt_putLoaded s fun g hg => ?_
    obtain rfl : file = some g := hg
    exact (ModelFile.numbered_of_load hload).1

theorem Drafted.files_off (h : s.Drafted) (f : FileId) :
    (s.draftModel.files.filter fun g => g.id != f) = (s.drafts.erase f).values := by
  unfold draftModel FileTable.values FileTable.erase
  rw [List.filter_map]
  refine congrArg _ (List.filter_congr fun e he => ?_)
  obtain ⟨id, g⟩ := e
  rw [Function.comp_apply, (h.drafts id g he).1]

theorem Drafted.changedAt (h : s.Drafted) (h' : s'.Drafted) (hc : ChangedAt f s s') :
    Linking.ChangedAt f s.draftModel s'.draftModel := by
  rw [Linking.ChangedAt, h.files_off, h'.files_off, hc.drafts]

/-- **A change leaves alone what does not depend on the changed file.**  There properties are the
same, and have the same names and the same columns; and they have the same types as far as the
domains of the changed file that these are made of are still declared alike. -/
theorem Reachable.unaffected (h : s.Reachable) (h' : s'.Reachable) (hc : ChangedAt f s s')
    (hclean : s.link.2.errors = 0) (hclean' : s'.link.2.errors = 0) {g : FileId}
    (hg : g ∉ s'.link.1.model.withDependents f) {id : PropertyId} (hid : id.owner.file = g) :
    (s'.link.1.model.property? id).isSome = (s.link.1.model.property? id).isSome ∧
      s'.link.1.model.propertyName? s'.naming id = s.link.1.model.propertyName? s.naming id ∧
      s'.link.1.model.columnName s'.naming id none = s.link.1.model.columnName s.naming id none ∧
      ((∀ d ∈ s.link.1.model.domains, s.link.1.model.TypedBy id d.id → d.id.file = f →
          ∃ d' ∈ s'.link.1.model.domains, d.Alike d') →
        ∀ language, s'.link.1.model.typeName s'.naming id language
          = s.link.1.model.typeName s.naming id language) := by
  have hD := h.drafted.asLoaded
  have hD' := h'.drafted.asLoaded
  have hnaming : s'.naming = s.naming := congrArg Settings.naming hc.settings
  have hchanged := h.drafted.changedAt h'.drafted hc
  have hnone := no_errors_of_link hclean
  have hnone' := no_errors_of_link hclean'
  rw [link_model s'] at hg
  rw [link_model s, link_model s']
  rw [hnaming] at hg hnone' ⊢
  have halong := alongside_of_change hD hD' hnone hnone' (fun _ h₁ _ h₂ => h.drafted.name_inj h₁ h₂)
    (fun _ h₁ _ h₂ => h'.drafted.name_inj h₁ h₂) hchanged
  have hK : independentOf (s'.draftModel.link s.naming).model f id.owner.file = true :=
    independentOf_iff.mpr (hid ▸ hg)
  refine ⟨?_, halong.propertyName? hK, halong.columnName hK, fun halike language => ?_⟩
  · simpa using congrArg Option.isSome (halong.property? hK)
  · refine halong.typeName hK (fun d hd htyped => ?_) language
    by_cases hfile : d.id.file = f
    · exact halike d hd htyped hfile
    · refine alike_of_draft hD hD' hd fun l hl hlid => ?_
      exact (hchanged.mem_iff (hlid ▸ hfile)).mpr hl

/-- A file with a domain, and one with a property of it that does not use the first. -/
def typedTexts : List (String × String) :=
  [("A", "module: M\n---\ndomain:\n name: D\n label: d\n ts:\n  type: T"),
    ("B", "module: N\n---\nclass:\n name: C\n comment: c\n"
      ++ " properties:\n - name: X\n   comment: c\n   domain: D")]

def typedElsewhere : Store := loadAll {} typedTexts

/-- The store after the first file is loaded again, with another label for the domain. -/
def relabelled : Store :=
  loadAll {} (typedTexts
    ++ [("A", "module: M\n---\ndomain:\n name: D\n label: e\n ts:\n  type: T")])

theorem typedElsewhere_reachable : typedElsewhere.Reachable := reachable_loadAll {} _

theorem relabelled_reachable : relabelled.Reachable := reachable_loadAll {} _

/-- What types take from the domains of a store. -/
def typesGiven (s : Store) :=
  s.link.1.model.domains.map fun d =>
    (d.name.value, d.implementations, d.autoGeneratedValue,
      d.asDomains.map fun x => (x.1, x.2.text))

theorem exists_alike_of_typesGiven (h : typesGiven s' = typesGiven s) {d : Domain}
    (hd : d ∈ s.link.1.model.domains) : ∃ d' ∈ s'.link.1.model.domains, d.Alike d' := by
  have hgiven := List.mem_map_of_mem hd (f := fun d : Domain =>
    (d.name.value, d.implementations, d.autoGeneratedValue,
      d.asDomains.map fun x => (x.1, x.2.text)))
  rw [typesGiven, typesGiven] at h
  rw [← h] at hgiven
  obtain ⟨d', hd', hsame⟩ := List.mem_map.mp hgiven
  obtain ⟨hname, himplementations, hgenerated, hwords⟩ : _ ∧ _ ∧ _ ∧ _ := by simpa using hsame
  exact ⟨d', hd', hname, fun language => by
    rw [Domain.type?, Domain.type?, himplementations], hgenerated, hwords⟩

theorem typedElsewhere_given :
    typedElsewhere.registry.get? "A" = some ⟨0⟩ ∧ typedElsewhere.link.2.errors = 0 ∧
      typesGiven typedElsewhere = [("D", [("ts", ⟨some "T", [], []⟩)], false, [])] ∧
      typedElsewhere.link.1.model.typeName typedElsewhere.naming ⟨.cls ⟨⟨1⟩, 0⟩, 0⟩ "ts"
        = some "T" := by
  have hspelled : typedElsewhere = _ :=
    loadAll_eq_foldl (.cons String.toList_ofList
      (.cons (toList_append_eq String.toList_ofList String.toList_ofList) .nil))
  rw [hspelled]
  decide +kernel

theorem relabelled_given :
    relabelled.link.2.errors = 0 ∧ (⟨1⟩ : FileId) ∉ relabelled.link.1.model.withDependents ⟨0⟩ ∧
      typesGiven relabelled = [("D", [("ts", ⟨some "T", [], []⟩)], false, [])] := by
  have hspelled : relabelled = _ :=
    loadAll_eq_foldl (.cons String.toList_ofList
      (.cons (toList_append_eq String.toList_ofList String.toList_ofList)
        (.cons String.toList_ofList .nil)))
  rw [hspelled]
  decide +kernel

/-- The file with the property does not depend on the relabelled one, and the types of the property
stay. -/
theorem unaffected_in_relabelled :
    typedElsewhere.link.2.errors = 0 ∧ relabelled.link.2.errors = 0 ∧
      (⟨1⟩ : FileId) ∉ relabelled.link.1.model.withDependents ⟨0⟩ ∧
      typedElsewhere.link.1.model.typeName typedElsewhere.naming ⟨.cls ⟨⟨1⟩, 0⟩, 0⟩ "ts"
        = some "T" ∧
      ∀ language, relabelled.link.1.model.typeName relabelled.naming ⟨.cls ⟨⟨1⟩, 0⟩, 0⟩ language
        = typedElsewhere.link.1.model.typeName typedElsewhere.naming ⟨.cls ⟨⟨1⟩, 0⟩,
          0⟩ language := by
  obtain ⟨hregistered, hclean, hbefore, htype⟩ := typedElsewhere_given
  obtain ⟨hclean', hapart, hafter⟩ := relabelled_given
  have hchanged : ChangedAt ⟨0⟩ typedElsewhere relabelled := by
    rw [relabelled, loadAll_concat]
    exact changedAt_loadFile typedElsewhere hregistered _
  have hsame := Reachable.unaffected typedElsewhere_reachable relabelled_reachable hchanged
    hclean hclean' hapart (show (⟨.cls ⟨⟨1⟩, 0⟩, 0⟩ : PropertyId).owner.file = ⟨1⟩ from rfl)
  exact ⟨hclean, hclean', hapart, htype,
    hsame.2.2.2 fun _ hd _ _ => exists_alike_of_typesGiven (hafter.trans hbefore.symm) hd⟩

/-- Another type in the first file changes the type in the second, which is not told of. -/
example :
    let retyped := loadAll {} (typedTexts
      ++ [("A", "module: M\n---\ndomain:\n name: D\n label: d\n ts:\n  type: U")])
    retyped.link.2.errors = 0 ∧ (⟨1⟩ : FileId) ∉ retyped.link.1.model.withDependents ⟨0⟩ ∧
      retyped.link.1.model.typeName retyped.naming ⟨.cls ⟨⟨1⟩, 0⟩, 0⟩ "ts" = some "U" := by
  intro retyped
  have hspelled : retyped = _ :=
    loadAll_eq_foldl (.cons String.toList_ofList
      (.cons (toList_append_eq String.toList_ofList String.toList_ofList)
        (.cons String.toList_ofList .nil)))
  rw [hspelled]
  decide +kernel

end Store

end EntityModel
