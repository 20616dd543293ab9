import EntityModel.Proofs.Generation.Selections
import EntityModel.Proofs.Store.Scoping
import EntityModel.Proofs.Watching.Dependents

/-!
# Files seen and files depended on

A host follows uses and alias blocks backwards to find the dependents of a file, while the linker
looks names up in scopes.  The two fit together: whatever class or decorator a name stands for in a
file is declared in the file itself, in one that an alias block of it names, or in one that it uses
(`Linking.file_of_classSeen`), and on these the linked file depends.  So each file that refers to a
class or a decorator is among the dependents of the file that declares it
(`Store.Reachable.dependents_exact`).
-/

namespace EntityModel

open Relation (TransGen)

/-- The file of a class or a decorator, which are looked up in scopes. -/
def Entity.scopedFile? : Entity → Option FileId
  | .cls id => some id.file
  | .decorator id => some id.file
  | _ => none

namespace Linking

open ModelFile (only)

variable {rules : NamingRules} {m : Model} {f : ModelFile}

/-! ### Drafts -/

def Links (m : Model) (f : ModelFile) (id : FileId) : Prop :=
  (∃ used ∈ filesUsed m f, used.id = id) ∨
    ∃ a ∈ f.aliases, ∃ named, m.fileNamed? a.file.text = some named ∧ named.id = id

theorem file_of_broughtIn (hm : m.Numbered) {a : Alias} {c : Class} (hc : c ∈ broughtIn m a) :
    ∃ named, m.fileNamed? a.file.text = some named ∧ named.id = c.id.file := by
  unfold broughtIn at hc
  cases hnamed : m.fileNamed? a.file.text with
  | none => simp [hnamed] at hc
  | some named =>
    have hmem : c ∈ named.classes := by
      rw [hnamed] at hc
      dsimp only at hc
      split at hc
      · exact hc
      · obtain ⟨r, -, hfound⟩ := List.mem_filterMap.mp hc
        exact List.mem_of_find?_eq_some hfound
    exact ⟨named, rfl, ((hm.classes named (exists_of_fileNamed? hnamed).1).file hmem).symm⟩

/-- **A class seen under a name is declared in the file or in one that it links to.** -/
theorem file_of_classSeen (hm : m.Numbered) (hf : f ∈ m.files) {name : String} {C : ClassId}
    (h : classSeen m f name = some C) : C.file = f.id ∨ Links m f C.file := by
  obtain ⟨c, hfound, rfl⟩ := Option.map_eq_some_iff.mp h
  have hc : c ∈ classesSeen m f := List.mem_of_find?_eq_some hfound
  simp only [classesSeen, List.mem_append, List.mem_flatMap] at hc
  rcases hc with (hown | ⟨a, ha, hbrought⟩) | ⟨used, hused, hc⟩
  · exact Or.inl ((hm.classes f hf).file hown)
  · exact Or.inr (Or.inr ⟨a, ha, file_of_broughtIn hm hbrought⟩)
  · exact Or.inr (Or.inl ⟨used, hused, ((hm.classes used (mem_filesUsed hused)).file hc).symm⟩)

/-- **A decorator seen under a name is declared in the file or in one that it uses.** -/
theorem file_of_decoratorSeen (hm : m.Numbered) (hf : f ∈ m.files) {name : String} {D : DecoratorId}
    (h : decoratorSeen m f name = some D) : D.file = f.id ∨ Links m f D.file := by
  obtain ⟨d, hfound, rfl⟩ := Option.map_eq_some_iff.mp h
  have hd : d ∈ decoratorsSeen m f := List.mem_of_find?_eq_some hfound
  simp only [decoratorsSeen, List.mem_append, List.mem_flatMap] at hd
  rcases hd with hown | ⟨used, hused, hd⟩
  · exact Or.inl ((hm.decorators f hf).file hown)
  · exact Or.inr (Or.inl ⟨used, hused, ((hm.decorators used (mem_filesUsed hused)).file hd).symm⟩)

theorem file_of_lookedUp (hm : m.Numbered) (hf : f ∈ m.files) {y : EntityReference} {home : FileId}
    (h : (y.lookedUp m f).target.bind Entity.scopedFile? = some home) :
    home = f.id ∨ Links m f home := by
  cases y with
  | cls r =>
    obtain ⟨e, he, hhome⟩ := Option.bind_eq_some_iff.mp h
    obtain ⟨C, hC, rfl⟩ := Option.map_eq_some_iff.mp he
    obtain rfl : C.file = home := Option.some.inj hhome
    exact file_of_classSeen hm hf hC
  | decorator r =>
    obtain ⟨e, he, hhome⟩ := Option.bind_eq_some_iff.mp h
    obtain ⟨D, hD, rfl⟩ := Option.map_eq_some_iff.mp he
    obtain rfl : D.file = home := Option.some.inj hhome
    exact file_of_decoratorSeen hm hf hD
  | domain r =>
    obtain ⟨e, he, hhome⟩ := Option.bind_eq_some_iff.mp h
    obtain ⟨d, -, rfl⟩ := Option.map_eq_some_iff.mp he
    exact absurd hhome (by simp [Entity.scopedFile?])

/-! ### The linked model -/

/-- The uses and the alias blocks of a file of the linked model are those of its draft, resolved. -/
theorem links_of_draft (h : m.AsLoaded) {g : ModelFile} (hg : g ∈ (m.link rules).model.files)
    (hf : f ∈ m.files) (hid : g.id = f.id) :
    g.uses = resolveUsesFrom m [] f.uses ∧
    g.aliases = f.aliases.map (resolveAlias (resolveUses m)) := by
  obtain ⟨n, hn, hhead⟩ := exists_named_file h hg
  obtain ⟨d, hd, -, -, hdid, huses, haliases, -⟩ := exists_draft_file hn
  obtain rfl : d = f :=
    List.inj_on_of_nodup_map h.numbered.files hd hf ((hdid.symm.trans hhead.id.symm).trans hid)
  exact ⟨hhead.uses.trans huses, hhead.aliases.trans haliases⟩

theorem dependsOn_of_links (h : m.AsLoaded) {g : ModelFile} (hg : g ∈ (m.link rules).model.files)
    (hf : f ∈ m.files)
    (hid : g.id = f.id) {id : FileId} (hlinks : Links m f id) : g.dependsOn id = true := by
  obtain ⟨huses, haliases⟩ := links_of_draft h hg hf hid
  have hfresh := h.fresh f hf
  rcases hlinks with ⟨used, hused, rfl⟩ | ⟨a, ha, named, hnamed, rfl⟩
  · have htargets := targets_uses m fun u hu => (Reference.of_fixed (hfresh.uses u hu)).1
    have hmem := List.mem_map_of_mem (f := (·.id)) hused
    rw [← htargets, ← huses] at hmem
    obtain ⟨u, hu, htarget⟩ := List.mem_filterMap.mp hmem
    exact ModelFile.dependsOn_iff.mpr (Or.inl ⟨u, hu, htarget⟩)
  · refine ModelFile.dependsOn_iff.mpr (Or.inr ⟨_, haliases ▸ List.mem_map_of_mem ha, ?_⟩)
    unfold resolveAlias
    rw [fileNamed?_resolveUses, hnamed]
    rfl

/-- What an alias block lists is resolved to something in the file that the block names. -/
theorem links_of_alias (h : m.AsLoaded) (hf : f ∈ m.files) {a : Alias} (ha : a ∈ f.aliases)
    {x : HeldReference} (hx : x ∈ (resolveAlias (resolveUses m) a).heldReferences) {home : FileId}
    (hhome : x.target.bind Entity.scopedFile? = some home) : Links m f home := by
  have hopen := aliasOpen_of_fixed ((h.fresh f hf).aliases a ha)
  -- of what a block refers to, classes alone are looked up in scopes too
  obtain ⟨r, hr, C, hC, rfl⟩ : ∃ r ∈ (resolveAlias (resolveUses m) a).classes.getD [],
      ∃ C : ClassId, r.target = some C ∧ C.file = home := by
    obtain ⟨e, he, hhome⟩ := Option.bind_eq_some_iff.mp hhome
    simp only [Alias.heldReferences, List.cons_append, List.mem_cons, List.mem_append,
      List.mem_map] at hx
    rcases hx with rfl | ⟨r, hr, rfl⟩ | ⟨r, -, rfl⟩
    · obtain ⟨_, -, rfl⟩ := Option.map_eq_some_iff.mp he
      exact absurd hhome (by simp [Entity.scopedFile?])
    · obtain ⟨C, hC, rfl⟩ := Option.map_eq_some_iff.mp he
      exact ⟨r, hr, C, hC, Option.some.inj hhome⟩
    · obtain ⟨_, -, rfl⟩ := Option.map_eq_some_iff.mp he
      exact absurd hhome (by simp [Entity.scopedFile?])
  unfold resolveAlias at hr
  rw [fileNamed?_resolveUses] at hr
  cases hnamed : m.fileNamed? a.file.text with
  | none =>
    rw [hnamed] at hr
    rw [hopen.classes r hr] at hC
    exact absurd hC (by simp)
  | some named =>
    rw [hnamed] at hr
    simp only [Option.map_some, getD_map, List.mem_map] at hr
    obtain ⟨r, hr, rfl⟩ := hr
    rw [resolveBy_open _ (hopen.classes r hr)] at hC
    obtain ⟨c, hfound, rfl⟩ := Option.map_eq_some_iff.mp hC
    have hc : c ∈ named.classes := List.mem_of_find?_eq_some hfound
    exact Or.inr ⟨a, ha, named, hnamed,
      ((h.numbered.classes named (exists_of_fileNamed? hnamed).1).file hc).symm⟩

/-- Where a file refers to a class or a decorator outside alias blocks, it is one of its references
by name. -/
theorem reference_of_held {g : ModelFile} {x : HeldReference} (hx : x ∈ g.heldReferences)
    {home : FileId} (hhome : x.target.bind Entity.scopedFile? = some home) :
    (∃ a ∈ g.aliases, x ∈ a.heldReferences) ∨ ∃ y ∈ fileReferences g, x.target = y.target := by
  have hscoped : ∀ {α : Type} {r : Reference α} {entity : α → Entity},
      x.target = r.target.map entity →
      (∀ t, (entity t).scopedFile? = none) → False := fun htarget hnone => by
    rw [htarget] at hhome
    obtain ⟨e, he, hhome⟩ := Option.bind_eq_some_iff.mp hhome
    obtain ⟨t, -, rfl⟩ := Option.map_eq_some_iff.mp he
    rw [hnone t] at hhome
    exact absurd hhome (by simp)
  simp only [ModelFile.heldReferences, List.mem_append, List.mem_flatMap, List.mem_map] at hx
  rcases hx with (((⟨r, -, rfl⟩ | ⟨a, ha, hx⟩) | ⟨d, -, hx⟩) | ⟨c, hc, hx⟩) | ⟨p, hp, hx⟩
  · exact (hscoped (r := r) rfl fun _ => rfl).elim
  · exact Or.inl ⟨a, ha, hx⟩
  · obtain ⟨⟨_, r⟩, -, rfl⟩ := List.mem_map.mp hx
    exact (hscoped (r := r) rfl fun _ => rfl).elim
  · rcases classReferences_cases hx with ⟨y, hy, htarget, -⟩ | ⟨r, -, htarget, -⟩
    · refine Or.inr ⟨y, ?_, htarget⟩
      simp only [fileReferences, List.mem_append, List.mem_flatMap]
      exact Or.inl (Or.inr ⟨c, hc, List.mem_append_left _ hy⟩)
    · exact (hscoped htarget fun _ => rfl).elim
  · rcases (heldReferences_cases hx).2 with ⟨y, hy, htarget, -⟩ | ⟨_, r, -, htarget, -⟩
    · exact Or.inr ⟨y, mem_fileReferences hp hy, htarget⟩
    · exact (hscoped htarget fun _ => rfl).elim

/-- **A file of the linked model depends on every other file whose classes or decorators it refers
to.** -/
theorem dependsOn_of_reference (h : m.AsLoaded) (hnone : ∀ f ∈ m.files, f.resolvedAliases = [])
    {g : ModelFile}
    (hg : g ∈ (m.link rules).model.files) {x : HeldReference} (hx : x ∈ g.heldReferences)
    {home : FileId}
    (hhome : x.target.bind Entity.scopedFile? = some home) :
    home = g.id ∨ g.dependsOn home = true := by
  obtain ⟨f, hf, hid, -⟩ := exists_draft_of_file h hg
  rw [← hid]
  suffices hlinks : home = f.id ∨ Links m f home from
    hlinks.imp_right fun hlinks => dependsOn_of_links h hg hf hid.symm hlinks
  rcases reference_of_held hx hhome with ⟨a, ha, hx⟩ | ⟨y, hy, htarget⟩
  · rw [(links_of_draft h hg hf hid.symm).2] at ha
    obtain ⟨drafted, hdrafted, rfl⟩ := List.mem_map.mp ha
    exact Or.inr (links_of_alias h hf hdrafted hx hhome)
  · obtain ⟨g', hg', hid', -, hfrom, -⟩ := exists_linked_of_draft rules h hf (hnone f hf)
    obtain rfl : g' = g :=
      List.inj_on_of_nodup_map (sound_link rules h).numbered.files hg' hg (hid'.trans hid)
    obtain ⟨y, -, rfl⟩ := hfrom y hy
    rw [htarget] at hhome
    exact file_of_lookedUp h.numbered hf hhome

end Linking

namespace Store

open Linking

variable {s : Store}

theorem Reachable.dependsOn_of_reference (h : s.Reachable) :
    ∀ g ∈ s.model.files, ∀ x ∈ g.heldReferences, ∀ home,
      x.target.bind Entity.scopedFile? = some home → home = g.id ∨ g.dependsOn home = true := by
  refine h.of_linked (P := fun m => ∀ g ∈ m.files, ∀ x ∈ g.heldReferences, ∀ home,
    x.target.bind Entity.scopedFile? = some home → home = g.id ∨ g.dependsOn home = true)
    (by simp) fun s hs g hg x hx home hhome => ?_
  rw [link_model] at hg
  exact Linking.dependsOn_of_reference hs.drafted.asLoaded hs.resolvedAliases_draft hg hx hhome

/-- **The dependents of a file are exactly those that lead to it.**  The search for them comes to an
end, also where files use each other in circles; it lists no file twice, and besides the file itself
just those linked files from which uses and alias blocks that are resolved lead to it.  **And
whatever file refers to a class or a decorator is a dependent of the file that declares it.** -/
theorem Reachable.dependents_exact (h : s.Reachable) (id : FileId) :
    (∀ last, s.model.SearchEnds 0 [id] last ↔ last = s.model.withDependents id) ∧
    (s.model.withDependents id).Nodup ∧
    (∀ a, a ∈ s.model.withDependents id ↔ a = id ∨ TransGen s.model.DependsOn a id) ∧
    ∀ g ∈ s.model.files, ∀ x ∈ g.heldReferences, x.target.bind Entity.scopedFile? = some id →
      g.id ∈ s.model.withDependents id := by
  have hids := h.nodup_modelFiles
  refine ⟨fun last => Model.searchEnds_iff hids, Model.nodup_withDependents hids id,
    fun a => ?_, ?_⟩
  · rw [Model.mem_withDependents hids, Relation.reflTransGen_iff_eq_or_transGen, eq_comm]
  · intro g hg x hx htarget
    rw [Model.mem_withDependents hids]
    rcases h.dependsOn_of_reference g hg x hx id htarget with rfl | hdepends
    · exact .refl
    · exact .single ⟨g, hg, rfl, hdepends⟩

/-- Two files that use each other, and a third whose alias block names the second, for a class that
it extends. -/
def usedInTurn : Store :=
  loadAll {} [("A", "module: M\nuses: [B]\n---\nclass:\n name: X\n comment: c"),
    ("B", "module: M\nuses: [A]\n---\nclass:\n name: Y\n extends: X\n comment: c"),
    ("C", "module: M\n---\nalias:\n file: B\n---\nclass:\n name: Z\n extends: Y\n comment: c")]

/-- The search for the dependents of the first file comes to an end with all three, the third of
which leads to it; and the second file has the third, which refers to its class, among its
dependents. -/
theorem dependents_of_usedInTurn :
    usedInTurn.link.1.model.SearchEnds 0 [⟨0⟩] [⟨0⟩, ⟨1⟩, ⟨2⟩] ∧
      TransGen usedInTurn.link.1.model.DependsOn ⟨2⟩ ⟨0⟩ ∧
      ∃ g ∈ usedInTurn.link.1.model.files, g.id = ⟨2⟩ ∧ g.dependsOn ⟨0⟩ = false ∧
        ∃ x ∈ g.heldReferences, x.target = some (.cls ⟨⟨1⟩, 0⟩) ∧
          g.id ∈ usedInTurn.link.1.model.withDependents ⟨1⟩ := by
  have hreach : usedInTurn.link.1.Reachable := .link (reachable_loadAll {} _)
  have hfound : usedInTurn.link.1.model.withDependents ⟨0⟩ = [⟨0⟩, ⟨1⟩, ⟨2⟩] ∧
      (usedInTurn.link.1.model.files.any fun g => g.id == ⟨2⟩ && !g.dependsOn ⟨0⟩ &&
        g.heldReferences.any fun x => x.target == some (.cls ⟨⟨1⟩, 0⟩)) = true := by
    have hspelled : usedInTurn = _ :=
      loadAll_eq_foldl
        (.cons String.toList_ofList (.cons String.toList_ofList (.cons String.toList_ofList .nil)))
    rw [hspelled]
    decide +kernel
  obtain ⟨hends, -, hmem, -⟩ := Reachable.dependents_exact hreach ⟨0⟩
  obtain ⟨-, -, -, hrefers⟩ := Reachable.dependents_exact hreach ⟨1⟩
  obtain ⟨g, hg, hthird⟩ := List.any_eq_true.mp hfound.2
  simp only [Bool.and_eq_true, beq_iff_eq, Bool.not_eq_true', List.any_eq_true] at hthird
  obtain ⟨⟨hid, hnot⟩, x, hx, htarget⟩ := hthird
  refine ⟨(hends _).mpr hfound.1.symm, ?_, g, hg, hid, hnot, x, hx, htarget, ?_⟩
  · have hleads := (hmem ⟨2⟩).mp (by rw [hfound.1]; decide)
    exact hleads.resolve_left (by decide)
  · exact hrefers g hg x hx (by rw [htarget]; rfl)

end Store

end EntityModel
