import EntityModel.Generation.Generator
import EntityModel.Proofs.Source.Making
import EntityModel.Proofs.Linking.Outlines
import EntityModel.Proofs.Store.Reachable

/-!
# Runs over some of the files

A generator run over some files and the run over all of them make their outputs one by one, and of
those that go to one path the first only.  So an output of the smaller run has its counterpart of
the same path in the larger one, and the two are the same unless some file before the one it was
made from gives that path too (`Store.Reachable.run_part`).  Where no two files share a path, a run
over some files makes exactly the outputs of these files.
-/

namespace EntityModel

theorem Path.same_iff {p q : Path} : p.same q = true ↔ p.components = q.components := beq_iff_eq

theorem Path.same_comm (p q : Path) : p.same q = q.same p := by
  rw [Bool.eq_iff_iff, same_iff, same_iff, eq_comm]

namespace Generator

variable {g : Generator} {s : Store} {ids : List FileId}

/-! ### Jobs -/

def Gives (g : Generator) (s : Store) (f : ModelFile) (p : Path) : Prop :=
  ∃ j ∈ g.jobsOf s f, j.path.same p = true

theorem file_of_mem_jobsOf {f : ModelFile} {j : Job} (h : j ∈ g.jobsOf s f) : j.file = f := by
  obtain ⟨tag, -, hj⟩ := List.mem_filterMap.mp h
  obtain ⟨path, -, rfl⟩ := Option.map_eq_some_iff.mp hj
  rfl

/-- **Of the jobs for one path the first is done.** -/
theorem mem_firstByPath {jobs : List Job} {j : Job} :
    j ∈ firstByPath jobs ↔ jobs.find? (·.path.same j.path) = some j := by
  induction jobs with
  | nil => simp [firstByPath]
  | cons k rest ih =>
    rw [firstByPath, List.mem_cons, List.mem_filter, ih, List.find?_cons, Path.same_comm j.path]
    cases hk : k.path.same j.path with
    | true => simp [eq_comm]
    | false =>
      have hne : j ≠ k := by
        rintro rfl
        exact absurd (Path.same_iff.mpr rfl) (by rw [hk]; exact Bool.false_ne_true)
      simp [hne]

def firstJob (g : Generator) (s : Store) (files : List ModelFile) (p : Path) : Option Job :=
  (files.flatMap (g.jobsOf s)).find? (·.path.same p)

theorem firstJob_congr {p q : Path} (h : p.components = q.components) (files : List ModelFile) :
    g.firstJob s files p = g.firstJob s files q := by
  simp only [firstJob, Path.same, h]

theorem firstJob_eq_some_iff {files : List ModelFile} {p : Path} {j : Job} :
    g.firstJob s files p = some j ↔ ∃ before f after, files = before ++ f :: after ∧
      (g.jobsOf s f).find? (·.path.same p) = some j ∧ ∀ f' ∈ before, ¬ g.Gives s f' p := by
  have hnone : ∀ f, (g.jobsOf s f).find? (·.path.same p) = none ↔ ¬ g.Gives s f p := by
    simp [Gives]
  rw [firstJob, List.find?_flatMap, List.findSome?_eq_some_iff]
  simp only [hnone]

theorem of_firstJob {files : List ModelFile} {p : Path} {j : Job}
    (h : g.firstJob s files p = some j) :
    j.path.components = p.components ∧ j.file ∈ files ∧ g.Gives s j.file p ∧
      (g.jobsOf s j.file).find? (·.path.same p) = some j := by
  obtain ⟨before, f, after, rfl, hj, -⟩ := firstJob_eq_some_iff.mp h
  have hmem := List.mem_of_find?_eq_some hj
  have hsame := List.find?_some hj
  obtain rfl := file_of_mem_jobsOf hmem
  exact ⟨Path.same_iff.mp hsame, by simp, ⟨j, hmem, hsame⟩, hj⟩

theorem exists_firstJob {files : List ModelFile} {f : ModelFile} (hf : f ∈ files) {p : Path}
    (h : g.Gives s f p) : ∃ j, g.firstJob s files p = some j := by
  obtain ⟨j, hj, hsame⟩ := h
  refine Option.isSome_iff_exists.mp (List.find?_isSome.mpr ⟨j, ?_, hsame⟩)
  exact List.mem_flatMap.mpr ⟨f, hf, hj⟩

/-! ### Runs -/

/-- The files that a run over the ids looks at. -/
def chosen (s : Store) (ids : List FileId) : List ModelFile :=
  if ids.isEmpty then s.model.files else ids.filterMap s.model.file?

/-- No ids stand for all files, and others for the files that have them. -/
theorem mem_chosen {f : ModelFile} : f ∈ chosen s ids ↔
    ids = [] ∧ f ∈ s.model.files ∨ ∃ id ∈ ids, s.model.file? id = some f := by
  unfold chosen
  cases ids with
  | nil => simp
  | cons id rest => simp

theorem jobs_selected (g : Generator) (s : Store) (ids : List FileId) :
    (g.selected s ids).flatMap (g.jobsOf s) = (chosen s ids).flatMap (g.jobsOf s) := by
  show ((chosen s ids).filter _).flatMap (g.jobsOf s) = _
  generalize chosen s ids = files
  induction files with
  | nil => rfl
  | cons f files ih =>
    rw [List.filter_cons, List.flatMap_cons]
    split
    · rw [List.flatMap_cons, ih]
    next hnone =>
      have hjobs : g.jobsOf s f = [] := by
        have : g.tags.filter f.hasTag = [] := by simpa using hnone
        rw [jobsOf, this, List.filterMap_nil]
      rw [ih, hjobs, List.nil_append]

theorem run_eq_ok_iff {outputs : List Output} :
    g.run s ids = .ok outputs ↔ g.checkLanguage s.model (g.selected s ids) = .ok () ∧
      (firstByPath ((chosen s ids).flatMap (g.jobsOf s))).mapM (g.make s) = .ok outputs := by
  rw [← jobs_selected, run]
  cases h : g.checkLanguage s.model (g.selected s ids) <;> simp [bind, Except.bind]

theorem make_eq_ok_iff {j : Job} {o : Output} : g.make s j = .ok o ↔
    g.render s j.file j.tag = .ok o.content ∧ o.path = j.path ∧ o.file = j.file.id ∧
    o.tag = j.tag := by
  unfold make
  cases hr : g.render s j.file j.tag with
  | error e => simp [bind, Except.bind]
  | ok content =>
    simp only [bind, Except.bind, pure, Except.pure, Except.ok.injEq]
    constructor
    · rintro rfl
      exact ⟨rfl, rfl, rfl, rfl⟩
    · rintro ⟨rfl, hpath, hfile, htag⟩
      rw [← hpath, ← hfile, ← htag]

theorem of_make {j : Job} {o : Output} (h : g.make s j = .ok o) :
    o.path = j.path ∧ o.file = j.file.id :=
  have hmade := make_eq_ok_iff.mp h
  ⟨hmade.2.1, hmade.2.2.1⟩

/-- **The output of a run for a path** is made by the first job for it. -/
theorem mem_of_run {outputs : List Output} (h : g.run s ids = .ok outputs) {o : Output} {p : Path} :
    o ∈ outputs ∧ o.path.same p = true ↔ ∃ j, g.firstJob s (chosen s ids) p = some j ∧
    g.make s j = .ok o := by
  rw [mem_of_mapM (run_eq_ok_iff.mp h).2]
  constructor
  · rintro ⟨⟨j, hj, hmake⟩, hsame⟩
    rw [(of_make hmake).1] at hsame
    exact ⟨j, firstJob_congr (Path.same_iff.mp hsame) _ ▸ mem_firstByPath.mp hj, hmake⟩
  · rintro ⟨j, hj, hmake⟩
    have hpath := (of_firstJob hj).1
    refine ⟨⟨j, mem_firstByPath.mpr ?_, hmake⟩, (of_make hmake).1 ▸ Path.same_iff.mpr hpath⟩
    exact (firstJob_congr hpath _).trans hj

theorem exists_of_run {outputs : List Output} (h : g.run s ids = .ok outputs) {p : Path} {j : Job}
    (hj : g.firstJob s (chosen s ids) p = some j) :
    ∃ o ∈ outputs, o.path.same p = true ∧ g.make s j = .ok o := by
  obtain ⟨o, ho⟩ := exists_of_mapM (run_eq_ok_iff.mp h).2
    (mem_firstByPath.mpr ((firstJob_congr (of_firstJob hj).1 _).trans hj))
  obtain ⟨hmem, hsame⟩ := (mem_of_run h).mpr ⟨j, hj, ho⟩
  exact ⟨o, hmem, hsame, ho⟩

/-! ### What the language needs -/

theorem missingDomains_eq_nil_iff {m : Model} {language : String} {files : List ModelFile} :
    missingDomains m language files = [] ↔ ∀ f ∈ files, ∀ p ∈ f.properties, ∀ d ∈ domainsOf m p,
      (d.implementations.lookup language).isSome = true := by
  have hfirst : ∀ names : List String, firstOccurrences names = [] ↔ names = [] := fun names => by
    cases names <;> simp [firstOccurrences]
  rw [missingDomains, ← List.length_eq_zero_iff, List.length_mergeSort,
    List.length_eq_zero_iff, hfirst, List.map_eq_nil_iff, List.filter_eq_nil_iff]
  simp only [Bool.not_eq_true, Option.isNone_eq_false_iff, List.mem_flatMap]
  constructor
  · exact fun h f hf p hp d hd => h d ⟨f, hf, p, hp, hd⟩
  · rintro h d ⟨f, hf, p, hp, hd⟩
    exact h f hf p hp d hd

theorem checkLanguage_of_subset {m : Model} {files fewer : List ModelFile} (hsub : fewer ⊆ files)
    (h : g.checkLanguage m files = .ok ()) : g.checkLanguage m fewer = .ok () := by
  unfold checkLanguage at h ⊢
  cases hl : g.language with
  | none => rfl
  | some language =>
    have hall : missingDomains m language files = [] := by
      cases hd : missingDomains m language files with
      | nil => rfl
      | cons d ds => simp [hl, hd] at h
    have hfewer : missingDomains m language fewer = [] :=
      missingDomains_eq_nil_iff.mpr fun f hf => missingDomains_eq_nil_iff.mp hall f (hsub hf)
    simp only [hfewer]

/-! ### Some files and all files -/

theorem chosen_subset (s : Store) (ids : List FileId) : chosen s ids ⊆ s.model.files := by
  intro f hf
  rcases mem_chosen.mp hf with ⟨-, hf⟩ | ⟨id, -, hid⟩
  · exact hf
  · exact (Model.mem_of_file? hid).1

theorem mem_chosen_of_ids (hs : (s.model.files.map (·.id)).Nodup) (hids : ids ≠ [])
    {f : ModelFile} :
    f ∈ chosen s ids ↔ f ∈ s.model.files ∧ f.id ∈ ids := by
  rw [mem_chosen, or_iff_right fun h => hids h.1]
  constructor
  · rintro ⟨id, hid, hf⟩
    obtain ⟨hmem, rfl⟩ := Model.mem_of_file? hf
    exact ⟨hmem, hid⟩
  · rintro ⟨hmem, hid⟩
    exact ⟨f.id, hid, Model.file?_of_mem hs hmem⟩

def PathsApart (g : Generator) (s : Store) : Prop :=
  ∀ f ∈ s.model.files, ∀ f' ∈ s.model.files, ∀ p, g.Gives s f p → g.Gives s f' p → f = f'

/-- Among files that give different paths the first job of a path is the only first job of it. -/
theorem PathsApart.firstJob (h : g.PathsApart s) {files files' : List ModelFile}
    (hf : files ⊆ s.model.files)
    (hf' : files' ⊆ s.model.files) {p : Path} {j j' : Job} (hj : g.firstJob s files p = some j)
    (hj' : g.firstJob s files' p = some j') : j = j' := by
  obtain ⟨-, hmem, hgives, hfirst⟩ := of_firstJob hj
  obtain ⟨-, hmem', hgives', hfirst'⟩ := of_firstJob hj'
  rw [← h _ (hf hmem) _ (hf' hmem') p hgives hgives', hfirst] at hfirst'
  exact Option.some.inj hfirst'

end Generator

namespace Store

open Generator

variable {s : Store}

/-- **The linked files stand in the order of their ids.** -/
theorem Reachable.files_sorted (h : s.Reachable) : (s.model.files.map (·.id)).Pairwise (· < ·) := by
  refine h.of_kept (P := fun s => (s.model.files.map ModelFile.id).Pairwise (· < ·))
    (fun _ => List.Pairwise.nil) (fun _ _ h => h) (fun _ _ h => h) (fun _ _ h => h)
      (fun _ _ _ h => h) fun s h _ => ?_
  have hids := congrArg (List.map ModelFile.id) (Linking.outlines_link s.naming h.drafted.asLoaded)
  rw [Model.outlines, Model.outlines, List.map_map, List.map_map] at hids
  rw [link_model]
  show List.Pairwise (· < ·)
    ((s.draftModel.link s.naming).model.files.map (ModelFile.id ∘ ModelFile.outline))
  rw [hids]
  exact h.drafted.ids ▸ h.drafted.sorted

theorem Reachable.nodup_modelFiles (h : s.Reachable) : (s.model.files.map (·.id)).Nodup := by
  refine h.files_sorted.imp ?_
  rintro a _ hab rfl
  exact Nat.lt_irrefl a.index hab

/-- No file before that of the first job of all gives its path. -/
theorem Reachable.firstJob_le (h : s.Reachable) {g : Generator} {p : Path} {j : Job}
    (hj : g.firstJob s s.model.files p = some j) {f : ModelFile} (hf : f ∈ s.model.files)
    (hgives : g.Gives s f p) : ¬ f.id < j.file.id := by
  obtain ⟨before, first, after, hfiles, hfirst, hbefore⟩ := firstJob_eq_some_iff.mp hj
  obtain rfl := file_of_mem_jobsOf (List.mem_of_find?_eq_some hfirst)
  have hsorted := h.files_sorted
  rw [hfiles] at hf hsorted
  rw [List.map_append, List.map_cons, List.pairwise_append] at hsorted
  rcases List.mem_append.mp hf with hf | hf
  · exact absurd hgives (hbefore f hf)
  · rcases List.mem_cons.mp hf with rfl | hf
    · exact Nat.lt_irrefl _
    · exact Nat.lt_asymm ((List.pairwise_cons.mp hsorted.2.1).1 f.id (List.mem_map_of_mem hf))

section Runs

variable {g : Generator} {ids : List FileId} {part whole : List Output}

/-- **An output of a run over some files has one counterpart of its path in the run over all**, and
it is the same unless a file before its own gives the path too. -/
theorem Reachable.counterpart (h : s.Reachable) (hwhole : g.run s [] = .ok whole)
    (hpart : g.run s ids = .ok part) {o : Output} (ho : o ∈ part) :
    ∃ o' ∈ whole, o'.path.same o.path = true ∧
    (∀ o'' ∈ whole, o''.path.same o.path = true → o'' = o') ∧
      (o = o' ↔ ∀ f ∈ s.model.files, g.Gives s f o.path → ¬ f.id < o.file) := by
  obtain ⟨j, hj, hmake⟩ := (mem_of_run hpart).mp ⟨ho, Path.same_iff.mpr rfl⟩
  obtain ⟨-, hmem, hgives, hfirst⟩ := of_firstJob hj
  have hmem := chosen_subset s ids hmem
  obtain ⟨j', hj'⟩ := exists_firstJob hmem hgives
  obtain ⟨o', ho', hsame', hmake'⟩ := exists_of_run hwhole hj'
  obtain ⟨-, hmem', hgives', hfirst'⟩ := of_firstJob hj'
  refine ⟨o', ho', hsame', fun o'' ho'' hsame'' => ?_, fun he f hf hf' => ?_, fun hnone => ?_⟩
  · obtain ⟨j'', hj'', hmake''⟩ := (mem_of_run hwhole).mp ⟨ho'', hsame''⟩
    rw [← Option.some.inj (hj'.symm.trans hj''), hmake'] at hmake''
    exact (Except.ok.inj hmake'').symm
  · rw [he, (of_make hmake').2]
    exact h.firstJob_le hj' hf hf'
  · -- neither of the two files stands before the other, so they are one, and its first job made both
    have hle := hnone _ hmem' hgives'
    have hge := h.firstJob_le hj' hmem hgives
    rw [(of_make hmake).2] at hle
    have hid : j.file.id = j'.file.id :=
      congrArg FileId.mk (Nat.le_antisymm (Nat.not_lt.mp hle) (Nat.not_lt.mp hge))
    have hfile := List.inj_on_of_nodup_map h.nodup_modelFiles hmem hmem' hid
    rw [← hfile, hfirst] at hfirst'
    rw [← Option.some.inj hfirst', hmake] at hmake'
    exact Except.ok.inj hmake'

/-- A job that is the first of its path among some files is the first among all. -/
theorem firstJob_of_chosen (hapart : g.PathsApart s) {p : Path} {j : Job}
    (hj : g.firstJob s (chosen s ids) p = some j) : g.firstJob s s.model.files p = some j := by
  obtain ⟨-, hmem, hgives, -⟩ := of_firstJob hj
  obtain ⟨j', hj'⟩ := exists_firstJob (chosen_subset s ids hmem) hgives
  rw [hj', hapart.firstJob (chosen_subset s ids) (List.Subset.refl _) hj hj']

theorem exists_run_of_whole (hapart : g.PathsApart s) (hwhole : g.run s [] = .ok whole)
    (ids : List FileId) :
    ∃ part, g.run s ids = .ok part := by
  have hsub : g.selected s ids ⊆ g.selected s [] := fun f hf => by
    obtain ⟨hf, htag⟩ := List.mem_filter.mp hf
    exact List.mem_filter.mpr ⟨chosen_subset s ids hf, htag⟩
  have hmade : ∀ j ∈ firstByPath ((chosen s ids).flatMap (g.jobsOf s)),
      ∃ o, g.make s j = .ok o := by
    intro j hj
    obtain ⟨o, -, -, hmake⟩ :=
      exists_of_run hwhole (firstJob_of_chosen hapart (mem_firstByPath.mp hj))
    exact ⟨o, hmake⟩
  obtain ⟨part, hpart⟩ := exists_mapM hmade
  exact ⟨part, run_eq_ok_iff.mpr
    ⟨checkLanguage_of_subset hsub (run_eq_ok_iff.mp hwhole).1, hpart⟩⟩

/-- **Where no two files share a path, a run over some files makes the outputs of these.** -/
theorem Reachable.mem_part (h : s.Reachable) (hapart : g.PathsApart s) (hids : ids ≠ [])
    (hwhole : g.run s [] = .ok whole) (hpart : g.run s ids = .ok part) {o : Output} :
    o ∈ part ↔ o ∈ whole ∧ o.file ∈ ids := by
  constructor
  · intro ho
    obtain ⟨j, hj, hmake⟩ := (mem_of_run hpart).mp ⟨ho, Path.same_iff.mpr rfl⟩
    have hmem := (mem_chosen_of_ids h.nodup_modelFiles hids).mp (of_firstJob hj).2.1
    exact ⟨((mem_of_run hwhole).mpr ⟨j, firstJob_of_chosen hapart hj, hmake⟩).1,
      (of_make hmake).2 ▸ hmem.2⟩
  · rintro ⟨ho, hid⟩
    obtain ⟨j', hj', hmake⟩ := (mem_of_run hwhole).mp ⟨ho, Path.same_iff.mpr rfl⟩
    obtain ⟨-, hmem', hgives', -⟩ := of_firstJob hj'
    have hmem := (mem_chosen_of_ids h.nodup_modelFiles hids).mpr ⟨hmem', (of_make hmake).2 ▸ hid⟩
    obtain ⟨j, hj⟩ := exists_firstJob hmem hgives'
    obtain rfl := hapart.firstJob (chosen_subset s ids) (List.Subset.refl _) hj hj'
    exact ((mem_of_run hpart).mpr ⟨j, hj, hmake⟩).1

end Runs

/-- **A run over some files agrees with the run over all files up to shared paths**: each of its
outputs has one counterpart of its path, and is the same as that if and only if no file before its
own gives the path; and where no two files share a path, it makes the outputs of its files and no
others. -/
theorem Reachable.run_part (h : s.Reachable) (g : Generator) {ids : List FileId} (hids : ids ≠ [])
    {whole : List Output} (hwhole : g.run s [] = .ok whole) :
    (∀ part, g.run s ids = .ok part → ∀ o ∈ part,
      ∃ o' ∈ whole, o'.path.same o.path = true ∧
      (∀ o'' ∈ whole, o''.path.same o.path = true → o'' = o') ∧
        (o = o' ↔ ∀ f ∈ s.model.files, g.Gives s f o.path → ¬ f.id < o.file)) ∧
    (g.PathsApart s → ∃ part, g.run s ids = .ok part ∧ ∀ o, o ∈ part ↔
      o ∈ whole ∧ o.file ∈ ids) := by
  refine ⟨fun part hpart o ho => h.counterpart hwhole hpart ho, fun hapart => ?_⟩
  obtain ⟨part, hpart⟩ := exists_run_of_whole hapart hwhole ids
  exact ⟨part, hpart, fun o => h.mem_part hapart hids hwhole hpart⟩

/-! ### Two files of one path -/

def twoTagged : Store :=
  loadAll {} [("A", "module: M\ntags: [t]\n---\nclass:\n name: A\n comment: c"),
    ("B", "module: M\ntags: [t]\n---\nclass:\n name: B\n comment: c")]

theorem reachable_twoTagged : twoTagged.Reachable := reachable_loadAll {} _

theorem twoTagged_reachable : twoTagged.link.1.Reachable := .link reachable_twoTagged

/-- One output for all files: the name of the file that it is made from. -/
def oneOutput : Generator where
  name := "oneOutput"
  tags := ["t"]
  outputPath _ _ _ := some ⟨"all.txt"⟩
  render _ f _ := .ok f.name

def outputOf (id : FileId) (name : String) : Output := ⟨⟨"all.txt"⟩, name, id, "t"⟩

theorem of_toOption {ε α : Type} {x : Except ε α} {a : α} (h : x.toOption = some a) :
    x = .ok a := by
  cases x with
  | error e => exact absurd h (by simp [Except.toOption])
  | ok b => rw [Option.some.inj h]

/-- What the store and the runs over it come to, evaluated at once. -/
theorem twoTagged_runs :
    (twoTagged.link.2.errors = 0 ∧ (⟨1⟩ : FileId) ∈ twoTagged.drafts.keys) ∧
      (oneOutput.run twoTagged.link.1 []).toOption = some [outputOf ⟨0⟩ "A"] ∧
      (oneOutput.run twoTagged.link.1 [⟨1⟩]).toOption = some [outputOf ⟨1⟩ "B"] := by
  have hspelled : twoTagged = _ :=
    loadAll_eq_foldl (.cons String.toList_ofList (.cons String.toList_ofList .nil))
  rw [hspelled]
  decide +kernel

theorem oneOutput_all : oneOutput.run twoTagged.link.1 [] = .ok [outputOf ⟨0⟩ "A"] :=
  of_toOption twoTagged_runs.2.1

theorem oneOutput_second : oneOutput.run twoTagged.link.1 [⟨1⟩] = .ok [outputOf ⟨1⟩ "B"] :=
  of_toOption twoTagged_runs.2.2

/-- The output made from the second file has a counterpart, and a file before the second gives its
path. -/
theorem run_part_of_twoTagged :
    ∃ whole, oneOutput.run twoTagged.link.1 [] = .ok whole ∧
      ∃ o' ∈ whole, o'.path.same ⟨"all.txt"⟩ = true ∧ (outputOf ⟨1⟩ "B" = o' ↔
        ∀ f ∈ twoTagged.link.1.model.files, oneOutput.Gives twoTagged.link.1 f ⟨"all.txt"⟩ →
        ¬ f.id < ⟨1⟩) := by
  refine ⟨_, oneOutput_all, ?_⟩
  obtain ⟨o', ho', hsame, -, hiff⟩ :=
    (Reachable.run_part twoTagged_reachable oneOutput (List.cons_ne_nil _ _) oneOutput_all).1
      _ oneOutput_second _ List.mem_cons_self
  exact ⟨o', ho', hsame, hiff⟩

/-- **The run over the second file alone makes another output** for the path than the run over
both. -/
theorem outputs_differ_in_twoTagged :
    twoTagged.Reachable ∧ twoTagged.link.2.errors = 0 ∧
    (⟨1⟩ : FileId) ∈ twoTagged.link.1.loadedIds ∧
      ∃ part whole, oneOutput.run twoTagged.link.1 [⟨1⟩] = .ok part ∧
      oneOutput.run twoTagged.link.1 [] = .ok whole ∧
        ∃ o ∈ part, ∃ o' ∈ whole, o'.path.same o.path = true ∧ o ≠ o' := by
  have hloaded : (⟨1⟩ : FileId) ∈ twoTagged.link.1.loadedIds := by
    rw [loadedIds_link, mem_loadedIds]
    exact Or.inl twoTagged_runs.1.2
  exact ⟨reachable_twoTagged, twoTagged_runs.1.1, hloaded, _, _, oneOutput_second, oneOutput_all,
    _, List.mem_cons_self, _, List.mem_cons_self, by decide, by decide⟩

end Store

end EntityModel
