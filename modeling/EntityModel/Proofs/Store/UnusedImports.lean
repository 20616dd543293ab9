import EntityModel.Proofs.Store.History
import EntityModel.Proofs.Linking.UselessUses
import EntityModel.Proofs.Store.Diagnosed

/-!
# Unused imports in a linked store

A use of a file that is resolved is reported as unused if and only if linking without it resolves
every class and decorator reference of every file to the same as before; and without all uses of the
file that are reported, linking gives the same model but for uses, and the same diagnostics but for
unused imports and circles of uses (`Reachable.unused_exact`).
-/

namespace EntityModel

open Linking

def Diagnostic.tellsUnused (d : Diagnostic) (use : FileReference) : Bool :=
  match d.problem with
  | .unusedImport name => name == use.text && d.location == use.location
  | _ => false

theorem Diagnostic.tellsUnused_iff {d : Diagnostic} {use : FileReference} : d.tellsUnused use = true
    ↔ d.problem = .unusedImport use.text ∧ d.location = use.location := by
  unfold tellsUnused
  split
  next name he => simp [he]
  next hne => simpa using fun he => absurd he (hne _)

/-- Where a table has a value for the file, that value alone is replaced. -/
theorem FileTable.values_insert {α : Type} {t : FileTable α} (h : t.Sorted) {id : FileId}
    (hid : id ∈ t.keys)
    (value : α) : (t.insert id value).values = t.map fun e => if e.1 = id then value else e.2 := by
  induction t with
  | nil => cases hid
  | cons head rest ih =>
    obtain ⟨other, v⟩ := head
    obtain ⟨hhead, hrest⟩ := List.pairwise_cons.mp h
    unfold FileTable.insert
    rcases List.mem_cons.mp hid with rfl | hin
    · have hlater : ∀ e ∈ rest, (if e.1 = id then value else e.2) = e.2 := by
        intro e he
        have hlt : id < e.1 := hhead _ (List.mem_map_of_mem he)
        refine if_neg ?_
        rintro rfl
        exact Nat.lt_irrefl _ hlt
      have hirrefl : ¬ id < id := Nat.lt_irrefl id.index
      simp only [hirrefl, if_false, if_true, List.map_cons, List.map_congr_left hlater]
      rfl
    · have hlt : other < id := hhead id hin
      have hnlt : ¬ id < other := Nat.lt_asymm hlt
      have hne : other ≠ id := fun heq => Nat.lt_irrefl id.index (heq ▸ hlt)
      simp only [hnlt, hne, hne.symm, if_false, List.map_cons, ← ih hrest hin]
      rfl

namespace Linking

variable {rules : NamingRules} {m : Model} {f g : ModelFile}

/-- A use of a file is reported as unused if and only if the linked file has it among its useless
uses. -/
theorem any_tellsUnused (h : m.AsLoaded) (hg : g ∈ (m.link rules).model.files) {use : FileReference}
    (hfile : use.location.file = g.id) :
    (m.link rules).problems.any (·.tellsUnused use) = true ↔
    ∃ u ∈ g.uselessImports, u.name = use.name := by
  have hhere : (unusedProblems (m.link rules).model).filter (fun d => d.file == g.id)
      = unusedIn (m.link rules).model g := by
    rw [filter_unusedProblems h, Model.file?_of_mem (sound_link rules h).numbered.files hg]
    rfl
  rw [List.any_eq_true]
  constructor
  · rintro ⟨d, hd, htells⟩
    obtain ⟨hproblem, hlocation⟩ := Diagnostic.tellsUnused_iff.mp htells
    have hkind : d.kind = .unusedImport := congrArg Problem.kind hproblem
    have hin : d ∈ unusedIn (m.link rules).model g := by
      rw [← hhere]
      refine List.mem_filter.mpr ⟨(mem_link_unused rules h hkind).mp hd, ?_⟩
      rw [Diagnostic.file, hlocation, hfile, beq_self_eq_true]
    rcases List.mem_append.mp hin with hin | hin
    · obtain ⟨u, hu, rfl⟩ := List.mem_map.mp hin
      have htext : u.name.value = use.name.value := Problem.unusedImport.inj hproblem
      have hplace : u.name.location = use.name.location := hlocation
      refine ⟨u, hu, ?_⟩
      calc u.name = ⟨u.name.value, u.name.location⟩ := rfl
        _ = use.name := by rw [htext, hplace]
    · obtain ⟨x, -, rfl⟩ := List.mem_map.mp hin
      cases hproblem
  · rintro ⟨u, hu, hname⟩
    have hin : { problem := .unusedImport u.text, location := u.location }
      ∈ unusedIn (m.link rules).model g :=
      List.mem_append_left _ (List.mem_map_of_mem hu)
    rw [← hhere] at hin
    refine ⟨_, (mem_link_unused rules h rfl).mpr (List.mem_filter.mp hin).1,
      Diagnostic.tellsUnused_iff.mpr ⟨?_, ?_⟩⟩
    · show Problem.unusedImport u.name.value = .unusedImport use.name.value
      rw [hname]
    · show u.name.location = use.name.location
      rw [hname]

end Linking

namespace Store

variable {s : Store} {f : ModelFile}

/-- The use is reported as unused by linking, whether or not such reports are shown. -/
def reportsUnused (s : Store) (use : FileReference) : Bool :=
  s.linked.problems.any (·.tellsUnused use)

/-- What class and decorator references of the files stand for, file by file, once names are looked
up.  Aliases that stand for a choice of properties are put in later, with the references that they
copy. -/
def foundReferences (s : Store) : List (List EntityReference) :=
  (linkNames s.draftModel).model.files.map scopedReferences

theorem reportsUnused_eq (s : Store) (use : FileReference) :
    s.reportsUnused use = (s.draftModel.link s.naming).problems.any (·.tellsUnused use) := by
  have hfailures : (s.failures.map fun x => failureProblem x.1 x.2).any (·.tellsUnused use)
      = false := by
    rw [List.any_map, List.any_eq_false]
    exact fun x _ => Bool.false_ne_true
  rw [reportsUnused, linked_problems, List.any_append, hfailures, Bool.false_or]

def reportsNamed (s : Store) (f : ModelFile) (name : String) : Bool :=
  f.uses.any fun use => use.text == name && s.reportsUnused use

theorem reportsNamed_text (hnodup : (f.uses.map (·.text)).Nodup) {use : FileReference}
    (huse : use ∈ f.uses) :
    s.reportsNamed f use.text = s.reportsUnused use := by
  rw [Bool.eq_iff_iff, reportsNamed, List.any_eq_true]
  constructor
  · rintro ⟨other, hother, hboth⟩
    obtain ⟨htext, hreported⟩ := (Bool.and_eq_true ..).mp hboth
    exact List.inj_on_of_nodup_map hnodup hother huse (beq_iff_eq.mp htext) ▸ hreported
  · intro hreported
    exact ⟨use, huse, by rw [hreported, beq_self_eq_true]; rfl⟩

theorem reportsUnused_congr {use use' : FileReference} (hname : use.name = use'.name) :
    s.reportsUnused use = s.reportsUnused use' := by
  have htells : ∀ d : Diagnostic, d.tellsUnused use = d.tellsUnused use' := by
    intro d
    unfold Diagnostic.tellsUnused Reference.text Reference.location
    rw [hname]
  rw [reportsUnused, reportsUnused, funext htells]

theorem exists_use_of_resolved {m : Model} {use : FileReference}
    (huse : use ∈ resolveUsesFrom m [] f.uses) :
    ∃ u ∈ f.uses, u.name = use.name := by
  have hmem : use.name ∈ f.uses.map (·.name) := by
    rw [← names_resolveUsesFrom m f.uses []]
    exact List.mem_map_of_mem huse
  exact List.mem_map.mp hmem

theorem Drafted.file_use (h : s.Drafted) (hf : f ∈ s.draftModel.files) {use : FileReference}
    (huse : use ∈ resolveUsesFrom s.draftModel [] f.uses) : use.location.file = f.id := by
  obtain ⟨u, hu, hname⟩ := exists_use_of_resolved huse
  exact (congrArg (·.location.file) hname.symm).trans
    (Reference.of_fixed ((h.fresh hf).uses u hu)).2

/-- **Linking notes as useless the uses that it reports.** -/
theorem Drafted.reportsUnused_iff (h : s.Drafted) (hf : f ∈ s.draftModel.files)
    (hnodup : (f.uses.map (·.text)).Nodup) {use : FileReference}
    (huse : use ∈ resolveUsesFrom s.draftModel [] f.uses) :
    s.reportsUnused use = true ↔ use ∈ uselessUses (aliasedModel s.draftModel)
    (aliasedFile s.draftModel f) := by
  obtain ⟨g, hg, hid, huses, huseless⟩ := exists_linked_uses s.naming h.asLoaded hf
  rw [reportsUnused_eq, any_tellsUnused h.asLoaded hg ((h.file_use hf huse).trans hid.symm),
    huseless]
  constructor
  · rintro ⟨u, hu, hname⟩
    have hin := ((mem_uselessUses hnodup).mp hu).1
    exact text_inj_resolveUses hnodup hin huse (congrArg Located.value hname) ▸ hu
  · exact fun hu => ⟨use, hu, rfl⟩

theorem filter_problemsOf_link (s : Store) (id : FileId) (p : Diagnostic → Bool) :
    (s.link.1.problemsOf id).filter p = ((s.linked.problems.filter p).filter fun d =>
      !Diagnostics.isSuppressed s.settings.suppressed d).filter fun d => d.file == id := by
  rw [problemsOf_link, Diagnostics.get?_byFile]
  exact (List.filter_comm ..).trans (congrArg _ (List.filter_comm ..))

/-- A report about a use is kept with its file unless such reports are silenced. -/
theorem any_problemsOf (s : Store) {use : FileReference} {id : FileId}
    (hfile : use.location.file = id) :
    (s.link.1.problemsOf id).any (·.tellsUnused use)
      = (s.reportsUnused use && !s.settings.suppressed.contains .unusedImport) := by
  have hkept : ∀ d : Diagnostic, d.tellsUnused use = true → (d.file == id) = true ∧
      Diagnostics.isSuppressed s.settings.suppressed d
        = s.settings.suppressed.contains .unusedImport := by
    intro d htells
    obtain ⟨hproblem, hlocation⟩ := Diagnostic.tellsUnused_iff.mp htells
    have hkind : d.kind = .unusedImport := congrArg Problem.kind hproblem
    refine ⟨by rw [Diagnostic.file, hlocation, hfile, beq_self_eq_true], ?_⟩
    rw [Diagnostics.isSuppressed, Diagnostic.severity, hkind]
    rfl
  rw [problemsOf_link, Diagnostics.get?_byFile, Bool.eq_iff_iff, Bool.and_eq_true, reportsUnused,
    List.any_eq_true, List.any_eq_true]
  constructor
  · rintro ⟨d, hd, htells⟩
    obtain ⟨hd, -⟩ := List.mem_filter.mp hd
    obtain ⟨hd, hshown⟩ := List.mem_filter.mp hd
    exact ⟨⟨d, hd, htells⟩, (hkept d htells).2 ▸ hshown⟩
  · rintro ⟨⟨d, hd, htells⟩, hshown⟩
    obtain ⟨hhere, hsuppressed⟩ := hkept d htells
    exact ⟨d, List.mem_filter.mpr ⟨List.mem_filter.mpr ⟨hd, hsuppressed.symm ▸ hshown⟩, hhere⟩,
      htells⟩

/-! ### A draft with fewer uses -/

/-- A draft that is put back with fewer uses changes the drafts in these uses alone. -/
theorem Drafted.draftModel_keepUses (h : s.Drafted) (hf : f ∈ s.draftModel.files)
    (kept : String → Bool) :
    (s.insertFile (f.keepUses kept)).draftModel = s.draftModel.keepUses (keepIn f.id kept) := by
  have hkey : f.id ∈ s.drafts.keys := List.mem_map_of_mem (h.mem_files hf)
  have hvalues : (s.insertFile (f.keepUses kept)).drafts.values
      = s.drafts.map fun e => if e.1 = f.id then f.keepUses kept else e.2 :=
    FileTable.values_insert h.sorted hkey _
  unfold draftModel
  rw [hvalues, Model.keepUses, Model.mapFiles, FileTable.values, List.map_map]
  refine congrArg Model.mk (List.map_congr_left fun e hmem => ?_)
  have hid : e.2.id = e.1 := (h.drafts e.1 e.2 hmem).1
  rw [Function.comp_apply]
  by_cases he : e.1 = f.id
  · have hf' : e.2 = f :=
      List.inj_on_of_nodup_map h.numbered.files (List.mem_map_of_mem hmem) hf (hid.trans he)
    rw [if_pos he, hf', keepIn_self]
  · have hall : e.2.uses.filter (fun u => keepIn f.id kept e.2.id u.text) = e.2.uses :=
      List.filter_eq_self.mpr fun u _ => by simp [keepIn, hid, he]
    rw [if_neg he, ModelFile.keepUses, hall]

theorem Reachable.failures_insertFile (h : s.Reachable) (hf : f ∈ s.draftModel.files)
    (kept : String → Bool) :
    (s.insertFile (f.keepUses kept)).failures = s.failures :=
  FileTable.erase_of_not_mem (h.orderly.not_failed (List.mem_map_of_mem (h.drafted.mem_files hf)))

/-- **Without uses of a file that are reported as unused, linking gives the same** but for uses,
unused imports and circles of uses. -/
theorem Reachable.linked_keepUses (h : s.Reachable) (hf : f ∈ s.draftModel.files)
    (hnodup : (f.uses.map (·.text)).Nodup) (kept : String → Bool)
    (hgone : ∀ use ∈ f.uses, kept use.text = false → s.reportsUnused use = true) :
    (s.insertFile (f.keepUses kept)).linked.model.withoutUses = s.linked.model.withoutUses ∧
      (s.insertFile (f.keepUses kept)).linked.problems.filter apartFromUses
        = s.linked.problems.filter apartFromUses := by
  have hd := h.drafted
  have huseless : ∀ u ∈ resolveUsesFrom s.draftModel [] f.uses, kept u.text = false →
      u ∈ uselessUses (aliasedModel s.draftModel) (aliasedFile s.draftModel f) := by
    intro u hu hk
    obtain ⟨use, huse, hname⟩ := exists_use_of_resolved hu
    have htext : use.text = u.text := congrArg Located.value hname
    rw [← hd.reportsUnused_iff hf hnodup hu, ← reportsUnused_congr hname]
    exact hgone use huse (htext.symm ▸ hk)
  obtain ⟨hmodel, hproblems⟩ := link_keepUses s.naming hd.asLoaded hf hnodup huseless
  rw [← hd.draftModel_keepUses hf] at hmodel hproblems
  refine ⟨hmodel, ?_⟩
  rw [linked_problems, linked_problems, List.filter_append, List.filter_append,
    h.failures_insertFile hf]
  exact congrArg _ hproblems

/-- **Unused imports are reported exactly**: in a file that names no file twice, a use that is
resolved is reported if and only if without it all class and decorator references of all files stand
for the same, and the report is kept unless such reports are silenced.  Without all uses that are
reported, the linked model is the same but for uses, and nothing else is reported than before,
unused imports and circles of uses apart. -/
theorem Reachable.unused_exact (h : s.Reachable) (hf : f ∈ s.draftModel.files)
    (hnodup : (f.uses.map (·.text)).Nodup) :
    (∃ g ∈ s.link.1.model.files, g.id = f.id ∧ g.uses.map (·.name) = f.uses.map (·.name) ∧
      ∀ use ∈ g.uses, use.target.isSome = true →
        (s.reportsUnused use = true
          ↔ (s.insertFile (f.keepUses (· != use.text))).foundReferences = s.foundReferences) ∧
        (s.link.1.problemsOf f.id).any (·.tellsUnused use)
          = (s.reportsUnused use && !s.settings.suppressed.contains .unusedImport)) ∧
    ∀ s' : Store, s' = s.insertFile
      { f with uses := f.uses.filter fun use => !s.reportsUnused use } →
      s'.link.1.model.withoutUses = s.link.1.model.withoutUses ∧
        s'.linked.problems.filter apartFromUses = s.linked.problems.filter apartFromUses ∧
        ∀ id, (s'.link.1.problemsOf id).filter apartFromUses
          = (s.link.1.problemsOf id).filter apartFromUses := by
  have hd := h.drafted
  constructor
  · obtain ⟨g, hg, hid, huses, -⟩ := exists_linked_uses s.naming hd.asLoaded hf
    refine ⟨g, by rwa [link_model], hid, by
      rw [huses, names_resolveUsesFrom], fun use huse hresolved => ?_⟩
    rw [huses] at huse
    constructor
    · rw [hd.reportsUnused_iff hf hnodup huse,
        mem_uselessUses_iff hd.asLoaded hf hnodup huse hresolved, foundReferences, foundReferences,
        hd.draftModel_keepUses hf]
    · exact any_problemsOf s (hd.file_use hf huse)
  · rintro s' rfl
    -- uses of the file are told apart by their names
    have hkept : ∀ use ∈ f.uses, (!s.reportsUnused use) = !s.reportsNamed f use.text := by
      intro use huse
      rw [reportsNamed_text hnodup huse]
    have hfile : { f with uses := f.uses.filter fun use => !s.reportsUnused use }
        = f.keepUses fun name => !s.reportsNamed f name :=
      congrArg (fun uses => { f with uses }) (List.filter_congr hkept)
    have hgone : ∀ use ∈ f.uses, (!s.reportsNamed f use.text) = false →
        s.reportsUnused use = true := by
      intro use huse hk
      rwa [← hkept use huse, Bool.not_eq_false'] at hk
    rw [hfile]
    obtain ⟨hmodel, hproblems⟩ := h.linked_keepUses hf hnodup
      (fun name => !s.reportsNamed f name) hgone
    refine ⟨by rw [link_model, link_model]; exact hmodel, hproblems, fun id => ?_⟩
    rw [filter_problemsOf_link, hproblems, filter_problemsOf_link]
    rfl

/-- A store with a file that uses two files of which each declares the class that it extends. -/
def shadowing : Store :=
  loadAll {} [("A", "module: M\n---\nclass: {name: X, comment: c}"),
    ("B", "module: M\n---\nclass: {name: X, comment: c}"),
    ("C", "module: M\nuses: [A, B]\n---\nclass: {name: Y, comment: c, extends: X}")]

/-- There the second use is reported and the first is not: without the first one the second is
found. -/
theorem unused_exact_in_shadowing :
    shadowing.Reachable ∧ ∃ f ∈ shadowing.draftModel.files, (f.uses.map (·.text)).Nodup ∧
      f.uses.map (fun use => (use.text, shadowing.reportsUnused use))
        = [("A", false), ("B", true)] ∧
      (shadowing.insertFile (f.keepUses (· != "B"))).foundReferences = shadowing.foundReferences ∧
      (shadowing.insertFile (f.keepUses (· != "A"))).foundReferences ≠ shadowing.foundReferences ∧
      ∀ s' : Store, s' = shadowing.insertFile
        { f with uses := f.uses.filter fun use => !shadowing.reportsUnused use } →
        s'.linked.problems.filter apartFromUses
          = shadowing.linked.problems.filter apartFromUses := by
  have hreach : shadowing.Reachable := reachable_loadAll {} _
  have hfound : (shadowing.draftModel.files.any fun f => f.id == ⟨2⟩ &&
        f.uses.map (fun u => (u.text, shadowing.reportsUnused u)) == [("A", false), ("B", true)])
          = true ∧
      (shadowing.link.1.model.files.all fun g => g.id != ⟨2⟩ ||
        g.uses.map (fun u => (u.text, u.target.isSome, shadowing.reportsUnused u))
          == [("A", true, false), ("B", true, true)]) = true := by
    have hspelled : shadowing = _ :=
      loadAll_eq_foldl
        (.cons String.toList_ofList (.cons String.toList_ofList (.cons String.toList_ofList .nil)))
    rw [hspelled]
    decide +kernel
  obtain ⟨hdraft, hlinked⟩ := hfound
  obtain ⟨f, hf, hrun⟩ := List.any_eq_true.mp hdraft
  obtain ⟨hid, hreports⟩ := (Bool.and_eq_true ..).mp hrun
  rw [beq_iff_eq] at hid hreports
  have htexts : f.uses.map (·.text) = ["A", "B"] := by
    have hfirst := congrArg (List.map Prod.fst) hreports
    rwa [List.map_map] at hfirst
  have hnodup : (f.uses.map (·.text)).Nodup := by
    rw [htexts]
    decide
  obtain ⟨⟨g, hg, hgid, -, hall⟩, hremoved⟩ := hreach.unused_exact hf hnodup
  have hboth := List.all_eq_true.mp hlinked g hg
  rw [hgid, hid, bne_self_eq_false, Bool.false_or, beq_iff_eq] at hboth
  have huse : ∀ x ∈ [("A", true, false), ("B", true, true)], ∃ u ∈ g.uses,
      (u.text, u.target.isSome, shadowing.reportsUnused u) = x := by
    intro x hx
    rw [← hboth] at hx
    exact List.mem_map.mp hx
  obtain ⟨a, ha, hfirst⟩ := huse ("A", true, false) List.mem_cons_self
  obtain ⟨b, hb, hsecond⟩ := huse ("B", true, true) (List.mem_cons_of_mem _ List.mem_cons_self)
  obtain ⟨hname, hfirst⟩ := Prod.mk.inj hfirst
  obtain ⟨hresolved, hneeded⟩ := Prod.mk.inj hfirst
  obtain ⟨hname', hsecond⟩ := Prod.mk.inj hsecond
  obtain ⟨hresolved', huseless⟩ := Prod.mk.inj hsecond
  have hsame := (hall b hb hresolved').1.mp huseless
  have hdiffers := mt (hall a ha hresolved).1.mpr (Bool.eq_false_iff.mp hneeded)
  rw [hname'] at hsame
  rw [hname] at hdiffers
  exact ⟨hreach, f, hf, hnodup, hreports, hsame, hdiffers, fun s' hs' => (hremoved s' hs').2.1⟩

end Store

end EntityModel
