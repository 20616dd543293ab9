import EntityModel.Proofs.Linking.Accounted
import EntityModel.Watching.Host

/-!
# Links between files

A file names the files that it uses and those that it takes aliases from (`ModelFile.fileNames`).
Linking keeps these names and looks them up among the drafts, so a file of the linked model depends
on files that its draft names, and where nothing is left open on all of them.
-/

namespace EntityModel

def ModelFile.fileNames (f : ModelFile) : List String :=
  f.uses.map (·.text) ++ f.aliases.map (·.file.text)

theorem ModelFile.dependsOn_iff {f : ModelFile} {id : FileId} : f.dependsOn id = true ↔
    (∃ r ∈ f.uses, r.target = some id) ∨ ∃ a ∈ f.aliases, a.file.target = some id := by
  simp [dependsOn]

namespace Linking

variable {rules : NamingRules} {m : Model}

theorem exists_of_fileNamed? {name : String} {g : ModelFile} (h : m.fileNamed? name = some g) :
    g ∈ m.files ∧ g.name = name :=
  ⟨List.mem_of_find?_eq_some h, by simpa using List.find?_some h⟩

/-- The reference is open, or it points to the file of the name in it. -/
def FollowsName (m : Model) (r : FileReference) : Prop :=
  ∀ id, r.target = some id → ∃ g, m.fileNamed? r.text = some g ∧ g.id = id

theorem FollowsName.exists_file {r : FileReference} (h : FollowsName m r) {id : FileId}
    (ht : r.target = some id) : ∃ g ∈ m.files, g.id = id ∧ g.name = r.text := by
  obtain ⟨g, hg, hid⟩ := h id ht
  obtain ⟨hmem, hname⟩ := exists_of_fileNamed? hg
  exact ⟨g, hmem, hid, hname⟩

theorem fileNamed?_resolveUses (m : Model) (name : String) :
    (resolveUses m).fileNamed? name
      = (m.fileNamed? name).map fun f => { f with uses := resolveUsesFrom m [] f.uses } := by
  unfold Model.fileNamed? resolveUses Model.mapFiles
  rw [List.find?_map]
  rfl

theorem FollowsName.of_resolveUses {r : FileReference} (h : FollowsName (resolveUses m) r) :
    FollowsName m r := by
  intro id hid
  obtain ⟨g, hg, rfl⟩ := h id hid
  rw [fileNamed?_resolveUses, Option.map_eq_some_iff] at hg
  obtain ⟨d, hd, rfl⟩ := hg
  exact ⟨d, hd, rfl⟩

theorem texts_resolveUsesFrom (m : Model) (uses : List FileReference) :
    (resolveUsesFrom m [] uses).map (·.text) = uses.map (·.text) := by
  have htexts := congrArg (List.map Located.value) (names_resolveUsesFrom m uses [])
  rwa [List.map_map, List.map_map] at htexts

theorem followsName_resolveUsesFrom (m : Model) (uses : List FileReference) : ∀ seen,
    (∀ r ∈ uses, r.target = none) → ∀ r ∈ resolveUsesFrom m seen uses, FollowsName m r := by
  induction uses with
  | nil => simp [resolveUsesFrom]
  | cons use rest ih =>
    intro seen hopen r hr id hid
    have huse := hopen use List.mem_cons_self
    rw [resolveUsesFrom_cons] at hr
    rcases List.mem_cons.mp hr with rfl | hr
    · have htext : (resolvedUse m seen use).text = use.text :=
        congrArg Located.value (resolvedUse_name m seen use)
      rw [htext]
      unfold resolvedUse at hid
      split at hid
      · rw [huse] at hid
        cases hid
      · split at hid
        next g hg => exact ⟨g, hg, Option.some.inj hid⟩
        · rw [huse] at hid
          cases hid
    · exact ih _ (fun r hr => hopen r (List.mem_cons_of_mem _ hr)) r hr id hid

theorem text_resolveAlias (m : Model) (a : Alias) : (resolveAlias m a).file.text = a.file.text := by
  unfold resolveAlias
  split <;> rfl

theorem followsName_resolveAlias {a : Alias} (ho : a.file.target = none) :
    FollowsName m (resolveAlias m a).file := by
  intro id hid
  rw [text_resolveAlias]
  unfold resolveAlias at hid
  split at hid
  · rw [ho] at hid
    cases hid
  next g hg => exact ⟨g, hg, Option.some.inj hid⟩

/-- The links of a file of the linked model: they go by the names in its draft. -/
theorem exists_draft_of_file (h : m.AsLoaded) {f : ModelFile}
    (hf : f ∈ (m.link rules).model.files) :
    ∃ d ∈ m.files, d.id = f.id ∧ f.fileNames = d.fileNames ∧
      (∀ r ∈ f.uses, FollowsName m r) ∧ ∀ a ∈ f.aliases, FollowsName m a.file := by
  obtain ⟨n, hn, hhead⟩ := exists_named_file h hf
  obtain ⟨d, hd, -, -, hid, huses, haliases, -⟩ := exists_draft_file hn
  have hfresh := h.fresh d hd
  refine ⟨d, hd, (hhead.id.trans hid).symm, ?_, ?_, ?_⟩
  · unfold ModelFile.fileNames
    rw [hhead.uses, hhead.aliases, huses, haliases, List.map_map, texts_resolveUsesFrom]
    exact congrArg _ (List.map_congr_left fun a _ => text_resolveAlias _ a)
  · rw [hhead.uses, huses]
    exact followsName_resolveUsesFrom m d.uses [] fun r hr =>
      (Reference.of_fixed (hfresh.uses r hr)).1
  · rw [hhead.aliases, haliases]
    intro a ha
    obtain ⟨a, hmem, rfl⟩ := List.mem_map.mp ha
    exact (followsName_resolveAlias
      (aliasOpen_of_fixed (hfresh.aliases a hmem)).file).of_resolveUses

/-- A file depends on files that it names. -/
theorem exists_named_of_dependsOn (h : m.AsLoaded) {f : ModelFile}
    (hf : f ∈ (m.link rules).model.files)
    {id : FileId} (hdep : f.dependsOn id = true) :
    ∃ g ∈ m.files, g.id = id ∧ g.name ∈ f.fileNames := by
  obtain ⟨d, -, -, -, huses, haliases⟩ := exists_draft_of_file h hf
  rcases ModelFile.dependsOn_iff.mp hdep with ⟨r, hr, ht⟩ | ⟨a, ha, ht⟩
  · obtain ⟨g, hg, hid, hname⟩ := (huses r hr).exists_file ht
    exact ⟨g, hg, hid, hname ▸ List.mem_append_left _ (List.mem_map_of_mem hr)⟩
  · obtain ⟨g, hg, hid, hname⟩ := (haliases a ha).exists_file ht
    exact ⟨g, hg, hid,
      hname ▸ List.mem_append_right _ (List.mem_map_of_mem (f := fun a => a.file.text) ha)⟩

/-- Without errors a file depends on a file of every name that it names. -/
theorem exists_dependsOn_of_named (h : m.AsLoaded)
    (hnone : ∀ d ∈ (m.link rules).problems, d.isError = false) {f : ModelFile}
    (hf : f ∈ (m.link rules).model.files) {name : String} (hname : name ∈ f.fileNames) :
    ∃ g ∈ m.files, g.name = name ∧ f.dependsOn g.id = true := by
  obtain ⟨d, -, -, -, huses, haliases⟩ := exists_draft_of_file h hf
  have hresolved := fun x hx => resolved_of_no_errors h hnone hf (x := x) hx
  rcases List.mem_append.mp hname with hname | hname
  · obtain ⟨r, hr, rfl⟩ := List.mem_map.mp hname
    obtain ⟨e, he, -⟩ := hresolved (r.held .use .file) (by
      simp only [ModelFile.heldReferences, List.append_assoc]
      exact List.mem_append_left _ (List.mem_map_of_mem hr))
    obtain ⟨id, ht, -⟩ := Option.map_eq_some_iff.mp he
    obtain ⟨g, hg, rfl, hname⟩ := (huses r hr).exists_file ht
    exact ⟨g, hg, hname, ModelFile.dependsOn_iff.mpr (.inl ⟨r, hr, ht⟩)⟩
  · obtain ⟨a, ha, rfl⟩ := List.mem_map.mp hname
    obtain ⟨e, he, -⟩ := hresolved (a.file.held .aliasFile .file) (by
      simp only [ModelFile.heldReferences, List.append_assoc]
      exact List.mem_append_right _ (List.mem_append_left _
        (List.mem_flatMap.mpr ⟨a, ha, List.mem_append_left _ List.mem_cons_self⟩)))
    obtain ⟨id, ht, -⟩ := Option.map_eq_some_iff.mp he
    obtain ⟨g, hg, rfl, hname⟩ := (haliases a ha).exists_file ht
    exact ⟨g, hg, hname, ModelFile.dependsOn_iff.mpr (.inr ⟨a, ha, ht⟩)⟩

theorem exists_file_of_draft (rules : NamingRules) (h : m.AsLoaded) {d : ModelFile}
    (hd : d ∈ m.files) :
    ∃ f ∈ (m.link rules).model.files, f.id = d.id :=
  (((sameDeclared_resolveUses m).trans (sameDeclared_aliasedModel m)).trans
    (sameDeclared_link rules h)).live (e := .file d.id) ⟨d, hd, rfl⟩ (by simp)

end Linking

end EntityModel
