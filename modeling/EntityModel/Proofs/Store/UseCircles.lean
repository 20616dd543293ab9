import EntityModel.Proofs.Linking.ReportPlaces
import EntityModel.Proofs.Linking.Outlines
import EntityModel.Proofs.Model.Ancestry
import EntityModel.Proofs.Store.Diagnosed

/-!
# Circles of uses in a linked store

Linking reports circular uses where the files of the linked store use each other in a circle, and
nowhere else, and each report names the files of such a circle in turn
(`Reachable.circularUses_iff`).  The search for circles runs before names are looked up; who uses
whom does not change after it (`usesFile_link`).
-/

namespace EntityModel

open Relation

/-- The file with nothing but its name and its uses. -/
def ModelFile.heading (f : ModelFile) : ModelFile :=
  { id := f.id, name := f.name, ns := f.ns, uses := f.uses }

namespace Model

def headings (m : Model) : Model := m.mapFiles ModelFile.heading

theorem headings_mapFiles {g : ModelFile → ModelFile}
    (hg : ∀ f, (g f).heading = f.heading) (m : Model) :
    (m.mapFiles g).headings = m.headings := by
  unfold headings mapFiles
  rw [List.map_map]
  exact congrArg Model.mk (List.map_congr_left fun f _ => hg f)

theorem file?_headings (m : Model) (id : FileId) :
    m.headings.file? id = (m.file? id).map ModelFile.heading :=
  m.file?_mapFiles (g := ModelFile.heading) (fun _ => rfl) id

end Model

namespace Linking

variable {rules : NamingRules} {m : Model}

/-! ### Who uses whom -/

theorem usesFile_headings (m : Model) : UsesFile m.headings = UsesFile m := by
  funext a b
  simp only [UsesFile, Model.file?_headings, Option.map_eq_some_iff, exists_exists_and_eq_and]
  rfl

theorem fileNames_headings (m : Model) : fileNames m.headings = fileNames m := by
  funext ids
  refine List.filterMap_congr fun id _ => ?_
  rw [Model.file?_headings, Option.map_map]
  rfl

/-- **Once uses are resolved, linking changes neither names nor uses of files.** -/
theorem headings_link (rules : NamingRules) (h : m.AsLoaded) :
    (m.link rules).model.headings = (resolveUses m).headings := by
  have hskeleton : ∀ m : Model, m.skeleton.headings = m.headings :=
    Model.headings_mapFiles (g := ModelFile.skeleton) fun _ => rfl
  have haliased : ∀ aliases found : ModelFile → _, ((resolveUses m).mapFiles fun f =>
      { f with aliases := aliases f, resolvedAliases := found f }).headings
          = (resolveUses m).headings :=
    fun _ _ => Model.headings_mapFiles (fun _ => by rfl) _
  calc (m.link rules).model.headings
      = (namedModel m).headings := by rw [← hskeleton, skeleton_link rules h, hskeleton]
    _ = (aliasedModel m).headings :=
        Model.headings_mapFiles (g := resolveReferencesOf (aliasedModel m)) (fun _ => rfl) _
    _ = (resolveUses m).headings := haliased _ _

theorem usesFile_link (rules : NamingRules) (h : m.AsLoaded) :
    UsesFile (m.link rules).model = UsesFile (resolveUses m) := by
  rw [← usesFile_headings, headings_link rules h, usesFile_headings]

theorem fileNames_link (rules : NamingRules) (h : m.AsLoaded) :
    fileNames (m.link rules).model = fileNames (resolveUses m) := by
  rw [← fileNames_headings, headings_link rules h, fileNames_headings]

/-! ### Circles of files -/

/-- The files each use the next, and the last one is the first. -/
structure CircleOfFiles (m : Model) (files : List ModelFile) : Prop where
  mem : files ⊆ m.files
  two_le : 2 ≤ files.length
  uses : files.IsChain fun f g => ∃ use ∈ f.uses, use.target = some g.id
  closed : files.head? = files.getLast?

theorem UseCycle.IsCircle.live {c : UseCycle} (h : c.IsCircle m) :
    ∀ id ∈ c.chain, m.file? id ≠ none := by
  intro id hid
  by_cases hlast : some id = c.chain.getLast?
  · -- the last one is the first, which uses the second
    obtain ⟨a, b, rest, hc⟩ : ∃ a b rest, c.chain = a :: b :: rest := by
      match hchain : c.chain, h.two_le with
      | a :: b :: rest, _ => exact ⟨a, b, rest, rfl⟩
    have hchain := h.uses
    rw [← h.closed, hc, List.head?_cons] at hlast
    rw [hc] at hchain
    exact Option.some.inj hlast ▸ (List.isChain_cons_cons.mp hchain).1.live
  · obtain ⟨next, hnext⟩ :=
      exists_next_of_mem_dropLast h.uses (List.mem_dropLast_of_mem_of_ne_getLast? hid hlast)
    exact hnext.live

theorem exists_files {ids : List FileId} (h : ∀ id ∈ ids, m.file? id ≠ none) :
    ∃ files ⊆ m.files, files.map (·.id) = ids ∧ files.map (·.name) = fileNames m ids := by
  induction ids with
  | nil => exact ⟨[], List.nil_subset _, rfl, rfl⟩
  | cons id rest ih =>
    obtain ⟨files, hsub, hids, hnames⟩ := ih fun i hi => h i (List.mem_cons_of_mem _ hi)
    obtain ⟨f, hf⟩ := Option.ne_none_iff_exists'.mp (h id List.mem_cons_self)
    obtain ⟨hmem, rfl⟩ := Model.mem_of_file? hf
    refine ⟨f :: files, List.cons_subset.mpr ⟨hmem, hsub⟩, by rw [List.map_cons, hids], ?_⟩
    rw [List.map_cons, hnames, fileNames, fileNames, List.filterMap_cons, hf]
    rfl

/-- **A circle of ids is one of files.** -/
theorem UseCycle.IsCircle.exists_files (hids : (m.files.map (·.id)).Nodup) {c : UseCycle}
    (h : c.IsCircle m) :
    ∃ files, CircleOfFiles m files ∧ files.map (·.name) = fileNames m c.chain := by
  obtain ⟨files, hsub, hchain, hnames⟩ := Linking.exists_files h.live
  have hinj : ∀ f ∈ files, ∀ g ∈ files, f.id = g.id → f = g := fun f hf g hg =>
    List.inj_on_of_nodup_map hids (hsub hf) (hsub hg)
  have htwo := h.two_le
  have huses := h.uses
  have hclosed := h.closed
  rw [← hchain] at htwo huses hclosed
  refine ⟨files, ⟨hsub, by rwa [List.length_map] at htwo, ?_, ?_⟩, hnames⟩
  · refine ((List.isChain_map _).mp huses).imp_of_mem_imp fun f g hf _ hfg => ?_
    obtain ⟨f', hf', huse⟩ := hfg
    rw [Model.file?_of_mem hids (hsub hf)] at hf'
    exact Option.some.inj hf' ▸ huse
  · rw [List.head?_map, List.getLast?_map] at hclosed
    cases hfirst : files.head? with
    | none => rw [List.head?_eq_none_iff.mp hfirst, List.getLast?_nil]
    | some f =>
      rw [hfirst, Option.map_some] at hclosed
      obtain ⟨g, hg, he⟩ := Option.map_eq_some_iff.mp hclosed.symm
      rw [hg, hinj g (List.mem_of_getLast? hg) f (List.mem_of_head? hfirst) he]

end Linking

namespace Store

open Linking

variable {s : Store}

/-- **Circular uses are reported if and only if the linked files use each other in a circle**, a
file that uses itself included, and each report names the files of a circle in turn. -/
theorem Reachable.circularUses_iff (h : s.Reachable) :
    ((∃ d ∈ s.link.1.diagnostics.all, d.kind = .circularDependency)
      ↔ ∃ id, TransGen (UsesFile s.link.1.model) id id) ∧
    ∀ d ∈ s.link.1.diagnostics.all, d.kind = .circularDependency →
      ∃ files : List ModelFile, CircleOfFiles s.link.1.model files ∧
        d.message = "Dépendance circulaire entre fichiers : "
          ++ " -> ".intercalate (files.map (·.name)) ++ "." := by
  have hm := h.drafted.asLoaded
  have hids : ((resolveUses s.draftModel).files.map (·.id)).Nodup := by
    rw [resolveUses, Model.mapFiles, List.map_map]
    exact hm.numbered.files
  have hlinked : (s.link.1.model.files.map (·.id)).Nodup := by
    rw [link_model]
    exact (sound_link s.naming hm).numbered.files
  have husesFile : UsesFile s.link.1.model = UsesFile (resolveUses s.draftModel) := by
    rw [link_model, usesFile_link _ hm]
  -- what is kept of this kind is what the search for circles found
  have hreported : ∀ d, d ∈ s.link.1.diagnostics.all ∧ d.kind = .circularDependency
      ↔ d ∈ circularUses (resolveUses s.draftModel) := fun d => by
    rw [← (filter_link_circles s.naming hm).1, ← (perm_diagnostics s rfl (by simp)).mem_iff,
      List.mem_filter, beq_iff_eq]
  refine ⟨?_, fun d hd hk => ?_⟩
  · have hnone : circularUses (resolveUses s.draftModel) = [] ↔
        UsesAcyclic (resolveUses s.draftModel) := by
      rw [circularUses, List.map_eq_nil_iff, useCycles_eq_nil_iff hids]
    rw [husesFile, exists_congr hreported, ← not_forall_not, ← List.eq_nil_iff_forall_not_mem,
      hnone, UsesAcyclic]
    simp only [not_forall, not_not]
  · obtain ⟨c, hc, rfl⟩ := List.mem_map.mp ((hreported d).mp ⟨hd, hk⟩)
    have hcircle : c.IsCircle s.link.1.model := by
      have hfound := isCircle_of_useCycles c hc
      exact ⟨hfound.two_le, by rw [husesFile]; exact hfound.uses, hfound.closed⟩
    obtain ⟨files, hfiles, hnames⟩ := hcircle.exists_files hlinked
    refine ⟨files, hfiles, ?_⟩
    rw [hnames, link_model, fileNames_link _ hm]
    rfl

/-- A store with two files that use each other, and one that uses them. -/
def usingEachOther : Store :=
  loadAll {} [("A", "module: M\nuses: [B]\n---\ndomain: {name: A, label: a}"),
    ("B", "module: M\nuses: [A]\n---\ndomain: {name: B, label: b}"),
    ("C", "module: M\nuses: [A]\n---\ndomain: {name: C, label: c}")]

/-- There the circle is reported, and so there is one. -/
theorem circularUses_iff_in_usingEachOther :
    usingEachOther.Reachable ∧
    (∃ d ∈ usingEachOther.link.1.diagnostics.all, d.kind = .circularDependency ∧
      ∃ files, CircleOfFiles usingEachOther.link.1.model files ∧
        d.message = "Dépendance circulaire entre fichiers : "
          ++ " -> ".intercalate (files.map (·.name)) ++ ".") ∧
      ∃ id, TransGen (UsesFile usingEachOther.link.1.model) id id := by
  have hreach : usingEachOther.Reachable := reachable_loadAll {} _
  have hrun : (usingEachOther.link.1.diagnostics.all.any fun d => d.kind == .circularDependency)
      = true := by
    have hspelled : usingEachOther = _ :=
      loadAll_eq_foldl
        (.cons String.toList_ofList (.cons String.toList_ofList (.cons String.toList_ofList .nil)))
    rw [hspelled]
    decide +kernel
  obtain ⟨d, hd, hk⟩ := List.any_eq_true.mp hrun
  rw [beq_iff_eq] at hk
  obtain ⟨hiff, hall⟩ := Reachable.circularUses_iff hreach
  exact ⟨hreach, ⟨d, hd, hk, hall d hd hk⟩, hiff.mp ⟨d, hd, hk⟩⟩

end Store

end EntityModel
