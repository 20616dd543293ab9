import EntityModel.Proofs.Disk.Changes
import EntityModel.Proofs.Workspace.Loading

/-!
# Loading again

Where the paths at stake on a disk are those of no model file, all model files are found and read as
before, so what was loaded is loaded again (`Workspace.loadAll_of_spares`).
-/

namespace EntityModel

/-- The places of a disk are spelled by plain names, as on any real one. -/
def Disk.Plain (d : Disk) : Prop := ∀ e ∈ d.nodes, ∀ name ∈ e.1, Path.IsName name

instance (d : Disk) : Decidable d.Plain :=
  inferInstanceAs (Decidable (∀ e ∈ d.nodes, ∀ name ∈ e.1, Path.IsName name))

/-- A path that leads where the model file of some names below the model root is, or would be, if
the file is one to load. -/
def Settings.IsModelFile (s : Settings) (p : Path) : Prop :=
  ∃ names, names ≠ [] ∧ (∀ name ∈ names, Path.IsName name) ∧
    (Workspace.fileName? s (s.modelRoot.descend names)).isSome ∧
    (s.modelRoot.descend names).normalize = p.normalize

theorem Workspace.isModelFile_of_fileName? {s : Settings} {p : Path} (h : (fileName? s p).isSome) :
    p.isModelFile = true := by
  by_contra hno
  rw [Bool.not_eq_true] at hno
  unfold fileName? Path.modelFileName? at h
  simp [hno] at h

def Path.hasModelExtension (p : Path) : Bool :=
  match p.normalize.getLast? with
  | some (.name name) => (cutExtension name).map Prod.snd == some modelExtension
  | _ => false

theorem Settings.IsModelFile.extension {s : Settings} {p : Path} (h : s.IsModelFile p) :
    p.hasModelExtension = true := by
  obtain ⟨names, hnames, hplain, hfile, hp⟩ := h
  obtain ⟨above, name, rfl⟩ := (List.eq_nil_or_concat' names).resolve_left hnames
  have hform : p.normalize.getLast? = some (.name name) := by
    rw [← hp, Path.normalize_descend hplain]
    simp
  have hmodel := Workspace.isModelFile_of_fileName? hfile
  have hlast : (s.modelRoot.descend (above ++ [name])).components.getLast? = some (.name name) := by
    unfold Path.descend
    rw [List.foldl_concat, Path.components_join _ (hplain name (by simp)), List.getLast?_concat]
  unfold Path.isModelFile at hmodel
  unfold Path.hasModelExtension
  rw [hlast] at hmodel
  rw [hform]
  exact hmodel

namespace Workspace

variable {s : Settings} {d d' : Disk} {touched : List Path} {found : List FoundFile}

/-- The walk for model files, as what it makes of the names below the place of the root. -/
def found? (s : Settings) (names : Place) : Option FoundFile :=
  (fileName? s (s.modelRoot.descend names)).map fun name =>
    { name, path := s.modelRoot.descend names }

theorem collect_eq_ok : collect s d = .ok found ↔ ∃ place, d.locate s.modelRoot = .ok place ∧
    d.node? place = some .directory ∧ (d.filesBelow place).filterMap (found? s) = found := by
  have hfound : found? s = fun names => do
      let path := names.foldl (fun p name => p.join ⟨name⟩) s.modelRoot
      let name ← s.modelRoot.modelFileName? path
      if s.ignoredFiles.contains name then none else return { name, path } := by
    funext names
    unfold found? fileName? Path.descend Settings.isIgnored
    dsimp only
    cases s.modelRoot.modelFileName? (names.foldl (fun p name => p.join ⟨name⟩) s.modelRoot) with
    | none => rfl
    | some name =>
      simp only [Option.bind_eq_bind, Option.bind_some]
      split <;> rfl
  unfold collect collectFiles
  rw [hfound]
  by_cases hd : d.isDirectory s.modelRoot = true
  · obtain ⟨place, hl, hn⟩ := Disk.isDirectory_iff.mp hd
    simp [hd, hl, hn]
  · rw [if_neg hd]
    refine ⟨fun h => absurd h (by simp), fun ⟨place, hl, hn, _⟩ => ?_⟩
    exact absurd (Disk.isDirectory_iff.mpr ⟨place, hl, hn⟩) hd

theorem isModelFile_of_collect (hroot : s.modelRoot.isAbsolute = true) (hd : d.Plain)
    (h : collect s d = .ok found) :
    ∀ f ∈ found, f.path.isAbsolute = true ∧ s.IsModelFile f.path := by
  obtain ⟨place, -, -, rfl⟩ := collect_eq_ok.mp h
  intro f hf
  obtain ⟨names, hnames, hfound⟩ := List.mem_filterMap.mp hf
  obtain ⟨name, hname, rfl⟩ := Option.map_eq_some_iff.mp hfound
  rw [Disk.filesBelow_eq, List.mem_mergeSort, List.mem_filterMap] at hnames
  obtain ⟨e, he, hbelow⟩ := hnames
  obtain ⟨hat, hne⟩ := Disk.below?_eq_some hbelow
  refine ⟨Path.isAbsolute_descend hroot names, names, hne, fun n hn => hd e he n ?_,
    Option.isSome_iff_exists.mpr ⟨name, hname⟩, rfl⟩
  rw [hat]
  exact List.mem_append_right _ hn

theorem collect_of_spares (hroot : s.modelRoot.isAbsolute = true)
    (hspares : Disk.Spares touched d d')
    (ht : ∀ p ∈ touched, ¬ s.IsModelFile p) (h : collect s d = .ok found) :
    collect s d' = .ok found := by
  obtain ⟨place, hl, hn, rfl⟩ := collect_eq_ok.mp h
  refine collect_eq_ok.mpr ⟨place, hspares.locate hl, hspares.directory place hn, ?_⟩
  refine hspares.found place (found? s) fun p hp names hnames hform => ?_
  have hplain : ∀ name ∈ names, Path.IsName name := fun name hname =>
    Disk.isName_of_normalize hform (List.mem_append_right place hname)
  by_contra hsome
  refine ht p hp ⟨names, hnames, hplain, ?_, ?_⟩
  · unfold found? at hsome
    rw [Option.map_eq_none_iff] at hsome
    exact Option.isSome_iff_ne_none.mpr hsome
  · rw [Path.normalize_descend hplain, Disk.normalize_of_locate hroot hl, hform]
    simp [Place.form]

theorem mem_of_mem_internAll : ∀ (found : List FoundFile) {s : Store} {job : FileId × FoundFile},
    job ∈ (internAll s found).2 → job.2 ∈ found
  | [], _, _, h => absurd h List.not_mem_nil
  | f :: rest, s, job, h => by
    rcases List.mem_cons.mp h with rfl | h
    · exact List.mem_cons_self
    · exact List.mem_cons_of_mem f (mem_of_mem_internAll rest h)

/-- A file that was read gives the same once more, if its text is still the same. -/
theorem readFile_of_read {id : FileId} {f : FoundFile} {file : Option ModelFile}
    (hsame : ∀ text, d.read f.path = .ok text → d'.read f.path = .ok text)
    (h : readFile s d id f = .ok file) : readFile s d' id f = .ok file := by
  unfold readFile at h ⊢
  cases hread : d.read f.path with
  | error e => simp [hread] at h
  | ok text =>
    rw [hread] at h
    rw [hsame text hread]
    exact h

/-- **Files that are all read well are taken once more as they were.** -/
theorem takeAll_of_reads {t : Store} {total : Nat} :
    ∀ (jobs : List (FileId × FoundFile)) {s : Store} {count : Nat},
    (∀ job ∈ jobs, ∀ text, d.read job.2.path = .ok text → d'.read job.2.path = .ok text) →
    takeAll .failFast d s jobs count = (t, .ok total) →
    takeAll .failFast d' s jobs count = (t, .ok total)
  | [], _, _, _, h => h
  | (id, f) :: rest, s, count, hsame, h => by
    unfold takeAll at h ⊢
    cases hread : readFile s.settings d id f with
    | error e => simp [hread, take] at h
    | ok file =>
      rw [hread] at h
      rw [readFile_of_read (hsame (id, f) List.mem_cons_self) hread]
      exact takeAll_of_reads rest (fun job hjob => hsame job (List.mem_cons_of_mem _ hjob)) h

/-- **Where no model file is at stake, what was loaded is loaded again.** -/
theorem loadAll_of_spares {s t : Store} {total : Nat}
    (hroot : s.settings.modelRoot.isAbsolute = true)
    (hd : d.Plain) (hspares : Disk.Spares touched d d')
    (ht : ∀ p ∈ touched, ¬ s.settings.IsModelFile p)
    (h : loadAll .failFast s d = (t, .ok total)) : loadAll .failFast s d' = (t, .ok total) := by
  unfold loadAll at h ⊢
  cases hfound : collect s.settings d with
  | error e => simp [hfound] at h
  | ok found =>
    rw [hfound] at h
    rw [collect_of_spares hroot hspares ht hfound]
    refine takeAll_of_reads _ (fun job hjob text hread => ?_) h
    obtain ⟨habsolute, hfile⟩ :=
      isModelFile_of_collect hroot hd hfound _ (mem_of_mem_internAll found hjob)
    refine hspares.read habsolute (fun p hp he => ht p hp ?_) hread
    obtain ⟨names, hnames, hplain, hname, hpath⟩ := hfile
    exact ⟨names, hnames, hplain, hname, hpath.trans he.symm⟩

/-! ### Settings -/

theorem settings_take (mode : LoadMode) (s : Store) (id : FileId)
    (read : Except Source.LoadError (Option ModelFile)) :
    (take mode s id read).1.settings = s.settings := by
  cases read with
  | ok file => cases file <;> rfl
  | error e => cases mode <;> rfl

theorem settings_takeAll (mode : LoadMode) (d : Disk) :
    ∀ (jobs : List (FileId × FoundFile)) (s : Store) (count : Nat),
    (takeAll mode d s jobs count).1.settings = s.settings
  | [], _, _ => rfl
  | (id, f) :: rest, s, count => by
    have htake := settings_take mode s id (readFile s.settings d id f)
    unfold takeAll
    generalize take mode s id (readFile s.settings d id f) = taken at htake
    obtain ⟨t, _ | held⟩ := taken
    · exact htake
    · exact (settings_takeAll mode d rest t _).trans htake

theorem settings_internAll :
    ∀ (found : List FoundFile) (s : Store), (internAll s found).1.settings = s.settings
  | [], _ => rfl
  | f :: rest, s => settings_internAll rest (s.intern f.name).1

theorem settings_loadAll (mode : LoadMode) (s : Store) (d : Disk) :
    (loadAll mode s d).1.settings = s.settings := by
  unfold loadAll
  cases collect s.settings d with
  | error e => rfl
  | ok found => exact (settings_takeAll mode d _ _ _).trans (settings_internAll found s)

theorem settings_link_of_loadAll {mode : LoadMode} {d : Disk} {t : Store} {total : Nat} {s : Store}
    (h : loadAll mode s d = (t, .ok total)) : t.link.1.settings = s.settings := by
  have hloaded : (loadAll mode s d).1 = t := by rw [h]
  rw [Store.link_eq, ← settings_loadAll mode s d, hloaded]

end Workspace

end EntityModel
