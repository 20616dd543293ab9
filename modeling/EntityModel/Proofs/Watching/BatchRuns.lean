import EntityModel.Proofs.Generation.Writing
import EntityModel.Proofs.Source.Making
import EntityModel.Proofs.Watching.Turns
import EntityModel.Proofs.Workspace.Reloading

/-!
# Batch runs

A batch run of generators goes through stages: loading and linking, making and writing outputs,
pruning, and writing the lock file.  `BatchRun` puts down what each of them came to, and a run ends
well exactly if there is such an account of it (`run_eq_ok_iff`).

Where outputs, earlier outputs and the lock file keep clear of one another and of the model files
(`Tidy`), a run leaves a settled disk: the outputs are there, and the lock lists them.  A settled
disk is a fixed point, since the model is loaded as before, every output is current, no entry is
stale, and the lock file is written over with itself (`run_idempotent`).
-/

namespace EntityModel

/-- What the generators make, each for the files with the given ids. -/
def Generator.runAll (gens : List Generator) (s : Store) (ids : List FileId) :
    Except GeneratorError (List (List Output)) := gens.mapM fun g => g.run s ids

theorem Generator.length_of_runAll {gens : List Generator} {s : Store} {ids : List FileId}
    {outputs : List (List Output)} (h : runAll gens s ids = .ok outputs) :
    gens.length = outputs.length := by
  simpa using congrArg List.length (mapM_eq_ok_iff.mp h)

namespace Host

variable {σ : Type} {h h' : Host σ}

/-! ### Runs that end well -/

def ids (h : Host σ) : List FileId := h.store.model.files.map (·.id)

def lock (h : Host σ) : LockFile := .ofPaths h.root h.generated

theorem updateLock_eq (h : Host σ) :
    h.updateLock = match LockFile.read h.disk h.store.settings.lockPath with
      | .error e => (h, .error (.lockFile e))
      | .ok previous =>
        match h.lock.prune (previous.getD {}) h.root h.disk with
        | (pruning, .error e) => ({ h with disk := pruning.disk }, .error (.lockFile e))
        | (pruning, .ok ()) =>
          match h.lock.write pruning.disk h.store.settings.lockPath with
          | .error e => ({ h with disk := pruning.disk }, .error (.lockFile e))
          | .ok disk => ({ h with disk }, .ok pruning.deleted) := by
  unfold updateLock lock
  dsimp only
  rcases LockFile.read h.disk h.store.settings.lockPath with _ | _ | previous
  · rfl
  · rfl
  · dsimp only [Option.getD_some]
    rcases (LockFile.ofPaths h.root h.generated).prune previous h.root h.disk with ⟨pruning, _ | _⟩
      <;> rfl

theorem updateLock_eq_ok {pruned : List Path} : h.updateLock = (h', .ok pruned) ↔
    ∃ previous pruning disk, LockFile.read h.disk h.store.settings.lockPath = .ok previous ∧
      h.lock.prune (previous.getD {}) h.root h.disk = (pruning, .ok ()) ∧
      h.lock.write pruning.disk h.store.settings.lockPath = .ok disk ∧
      h' = { h with disk } ∧ pruned = pruning.deleted := by
  rw [updateLock_eq]
  cases LockFile.read h.disk h.store.settings.lockPath with
  | error e => simp
  | ok previous =>
    simp only [Except.ok.injEq, exists_and_left, exists_eq_left']
    rcases h.lock.prune (previous.getD {}) h.root h.disk with ⟨pruning, _ | _⟩
    · simp
    · simp only [Prod.mk.injEq, and_true, exists_eq_left']
      cases h.lock.write pruning.disk h.store.settings.lockPath with
      | error e => simp
      | ok disk => simp [eq_comm]

theorem generate_eq_ok {files : Nat} {report : LinkReport} {summary : RunSummary} :
    h.generate files report = (h', .ok summary) ↔ ∃ told pruned, h.tell h.ids = (told, .ok ()) ∧
      told.updateLock = (h', .ok pruned) ∧
      summary = { files, warnings := report.warnings, generated := h'.generated, pruned } := by
  have hids : h.store.model.files.map (·.id) = h.ids := rfl
  unfold generate
  rw [hids]
  rcases h.tell h.ids with ⟨told, _ | _⟩
  · simp
  · simp only [Prod.mk.injEq, and_true, exists_and_left, exists_eq_left']
    rcases told.updateLock with ⟨locked, _ | pruned⟩
    · simp
    · simp only [Prod.mk.injEq, Except.ok.injEq]
      constructor
      · rintro ⟨rfl, rfl⟩
        exact ⟨pruned, ⟨rfl, rfl⟩, rfl⟩
      · rintro ⟨_, ⟨rfl, rfl⟩, rfl⟩
        exact ⟨rfl, rfl⟩

theorem tell_eq_ok {files : List FileId} : h.tell files = (h', .ok ()) ↔ ∃ watchers disk,
    tellAll h.store files h.watchers h.disk = (watchers, disk, .ok ()) ∧
    h' = { h with watchers, disk } := by
  unfold tell
  rcases tellAll h.store files h.watchers h.disk with ⟨watchers, disk, _ | _⟩
  · simp [Except.mapError]
  · simp [Except.mapError, eq_comm]

theorem run_eq_ok {summary : RunSummary} : h.run = (h', .ok summary) ↔ ∃ store files,
    Workspace.loadAll .failFast h.store h.disk = (store, .ok files) ∧ store.link.2.isOk = true ∧
    (publishErrors { h with mode := .failFast, store := store.link.1 }).generate files store.link.2
      = (h', .ok summary) := by
  rw [run_eq]
  rcases Workspace.loadAll .failFast h.store h.disk with ⟨store, _ | files⟩
  · simp
  · by_cases hok : store.link.2.isOk = true
    · simp [hok]
    · simp [hok]

theorem run_of_toOption {summary : RunSummary} (hs : h.run.2.toOption = some summary) :
    h.run = (h.run.1, .ok summary) := Prod.ext rfl (eq_ok_of_toOption hs)

/-! ### Generators -/

def ofGenerators (settings : Settings) (disk : Disk) (gens : List Generator) : Host PathSet :=
  .new settings disk (gens.map fun g => (g.watcher, []))

def keepers (gens : List Generator) (outputs : List (List Output)) :
    List (Watcher PathSet × PathSet) :=
  List.zipWith (fun g made => (g.watcher, PathSet.insertAll [] (made.map Output.path))) gens outputs

/-- What the watcher of a generator does with a change. -/
theorem onFilesChanged_watcher (g : Generator) (store : Store) (files : List FileId) (d : Disk) :
    g.watcher.onFilesChanged store files [] d = match g.run store files with
      | .error e => ([], d, .error e)
      | .ok made => match Output.writeAll d made with
        | (d, .error e) => ([], d, .error e)
        | (d, .ok _) => (PathSet.insertAll [] (made.map Output.path), d, .ok ()) := rfl

/-- Telling the watchers of generators is making the outputs of each and writing them. -/
theorem tellAll_eq_ok (store : Store) (files : List FileId) (gens : List Generator) :
    ∀ {d d' : Disk} {watchers : List (Watcher PathSet × PathSet)},
      tellAll store files (gens.map fun g => (g.watcher, [])) d = (watchers, d', .ok ()) ↔
        ∃ outputs paths, Generator.runAll gens store files = .ok outputs ∧
          Output.writeAll d outputs.flatten = (d', .ok paths) ∧
          watchers = keepers gens outputs := by
  induction gens with
  | nil =>
    intro d d' watchers
    simp [tellAll, Generator.runAll, keepers, Output.writeAll, pure, Except.pure, eq_comm, and_comm]
  | cons g gens ih =>
    intro d d' watchers
    unfold Generator.runAll at ih ⊢
    rw [List.map_cons, tellAll, onFilesChanged_watcher]
    simp only [mapM_cons_eq_ok]
    cases hrun : g.run store files with
    | error e => simp
    | ok made =>
      rcases hwrite : Output.writeAll d made with ⟨written, _ | front⟩
      · simp [hwrite, Output.writeAll_append_eq_ok]
      · rcases htell : tellAll store files (gens.map fun g => (g.watcher, [])) written
          with ⟨told, last, outcome⟩
        simp only [hwrite, htell, Prod.mk.injEq]
        constructor
        · rintro ⟨rfl, rfl, rfl⟩
          obtain ⟨rest, back, hrest, hback, rfl⟩ := ih.mp htell
          exact ⟨made :: rest, front ++ back, ⟨made, rest, rfl, hrest, rfl⟩,
            Output.writeAll_append_eq_ok.mpr ⟨written, front, back, hwrite, hback, rfl⟩, rfl⟩
        · rintro ⟨_, paths, ⟨made', rest, hmade, hrest, rfl⟩, hpaths, rfl⟩
          obtain rfl := Except.ok.inj hmade
          obtain ⟨middle, front', back, hfront, hback,
            rfl⟩ := Output.writeAll_append_eq_ok.mp hpaths
          rw [hwrite, Prod.mk.injEq] at hfront
          rw [ih.mpr ⟨rest, back, hrest, hfront.1 ▸ hback, rfl⟩] at htell
          simp only [Prod.mk.injEq] at htell
          exact ⟨congrArg _ htell.1.symm, htell.2.1.symm, htell.2.2.symm⟩

end Host

def Output.keptPaths (outputs : List (List Output)) : List Path :=
  outputs.flatMap fun made => PathSet.insertAll [] (made.map Output.path)

theorem Host.generated_keepers {gens : List Generator} : ∀ {outputs : List (List Output)},
    gens.length = outputs.length →
      (Host.keepers gens outputs).flatMap (fun (w, kept) => w.generated kept)
        = Output.keptPaths outputs := by
  induction gens with
  | nil =>
    intro outputs h
    rw [List.eq_nil_of_length_eq_zero h.symm]
    rfl
  | cons g gens ih =>
    intro outputs h
    cases outputs with
    | nil => exact absurd h (by simp)
    | cons made rest =>
      have hrest := ih (Nat.succ.inj h)
      unfold Host.keepers Output.keptPaths at hrest ⊢
      rw [List.zipWith_cons_cons, List.flatMap_cons, List.flatMap_cons, hrest]
      rfl

/-! ### Accounts of runs -/

/-- What the stages of a batch run come to, where it ends well. -/
structure BatchRun (settings : Settings) (disk : Disk) (gens : List Generator) where
  store : Store
  files : Nat
  loads : Workspace.loadAll .failFast { settings } disk = (store, .ok files)
  linked : Store
  report : LinkReport
  links : store.link = (linked, report)
  clean : report.isOk = true
  outputs : List (List Output)
  makes : Generator.runAll gens linked (linked.model.files.map (·.id)) = .ok outputs
  written : Disk
  paths : List Path
  writes : Output.writeAll disk outputs.flatten = (written, .ok paths)
  previous : Option LockFile
  reads : LockFile.read written settings.lockPath = .ok previous
  pruning : LockFile.Pruning
  prunes : (LockFile.ofPaths settings.modelRoot (Output.keptPaths outputs)).prune (previous.getD {})
    settings.modelRoot written = (pruning, .ok ())
  final : Disk
  locks : (LockFile.ofPaths settings.modelRoot (Output.keptPaths outputs)).write pruning.disk
    settings.lockPath = .ok final

namespace BatchRun

variable {settings : Settings} {disk : Disk} {gens : List Generator}
  (r : BatchRun settings disk gens)

def host : Host PathSet where
  disk := r.final
  store := r.linked
  mode := .failFast
  watchers := Host.keepers gens r.outputs

def summary : RunSummary where
  files := r.files
  warnings := r.report.warnings
  generated := Output.keptPaths r.outputs
  pruned := r.pruning.deleted

theorem settings_host : r.host.store.settings = settings := by
  show r.linked.settings = settings
  rw [← show r.store.link.1 = r.linked by rw [r.links]]
  exact Workspace.settings_link_of_loadAll r.loads

theorem generated_host : r.host.generated = Output.keptPaths r.outputs :=
  Host.generated_keepers (Generator.length_of_runAll r.makes)

theorem lock_host :
    r.host.lock = LockFile.ofPaths settings.modelRoot (Output.keptPaths r.outputs) := by
  unfold Host.lock Host.root
  rw [r.generated_host, r.settings_host]

end BatchRun

namespace Host

variable {settings : Settings} {disk : Disk} {gens : List Generator}

/-- Generators do not care what a link finds wrong. -/
theorem publishErrors_ofGenerators (store : Store) :
    publishErrors { ofGenerators settings disk gens with mode := .failFast, store }
      = { ofGenerators settings disk gens with mode := .failFast, store } := by
  unfold publishErrors ofGenerators Host.new
  simp only [List.map_map]
  rfl

/-- **A run ends well exactly if all its stages do.** -/
theorem run_ofGenerators_eq_ok {h : Host PathSet} {summary : RunSummary} :
    (ofGenerators settings disk gens).run = (h, .ok summary) ↔
      ∃ r : BatchRun settings disk gens, r.host = h ∧ r.summary = summary := by
  simp only [run_eq_ok, publishErrors_ofGenerators, generate_eq_ok, tell_eq_ok, updateLock_eq_ok]
  constructor
  · rintro ⟨store, files, hloads, hclean, _, _, ⟨watchers, written, htell, rfl⟩,
      ⟨previous, pruning, final, hreads, hprunes, hlocks, rfl, rfl⟩, rfl⟩
    obtain ⟨outputs, paths, hmakes, hwrites, rfl⟩ := (tellAll_eq_ok _ _ _).mp htell
    have hsettings := Workspace.settings_link_of_loadAll hloads
    have hgenerated := generated_keepers (Generator.length_of_runAll hmakes)
    simp only [lock, root, generated, hgenerated, hsettings] at hreads hprunes hlocks
    exact ⟨⟨store, files, hloads, store.link.1, store.link.2, rfl, hclean, outputs, hmakes,
      written, paths, hwrites, previous, hreads, pruning, hprunes, final, hlocks⟩, rfl, by
        simp only [BatchRun.summary, generated, hgenerated]⟩
  · rintro ⟨r, rfl, rfl⟩
    have hsettings := r.settings_host
    have hgenerated := generated_keepers (Generator.length_of_runAll r.makes)
    obtain ⟨store, files, hloads, linked, report, hlinks, hclean, outputs, hmakes, written,
      paths, hwrites, previous, hreads, pruning, hprunes, final, hlocks⟩ := r
    obtain ⟨rfl, rfl⟩ : store.link.1 = linked ∧ store.link.2 = report := by
      rw [hlinks]
      exact ⟨rfl, rfl⟩
    simp only [BatchRun.host] at hsettings
    refine ⟨store, files, hloads, hclean, _, _, ⟨_, _, (tellAll_eq_ok _ _ _).mpr
      ⟨outputs, paths, hmakes, hwrites, rfl⟩, rfl⟩,
      ⟨previous, pruning, final, ?_, ?_, ?_, rfl, rfl⟩, ?_⟩
    · simpa only [hsettings] using hreads
    · simpa only [lock, root, generated, hgenerated, hsettings] using hprunes
    · simpa only [lock, root, generated, hgenerated, hsettings] using hlocks
    · simp only [BatchRun.summary, BatchRun.host, generated, hgenerated]

end Host

/-! ### Settled disks -/

/-- Outputs, earlier outputs and the lock file keep clear of one another and of the model files. -/
structure Tidy (settings : Settings) (disk : Disk) (outputs : List Output) : Prop where
  root : settings.modelRoot.isAbsolute = true
  absolute : ∀ o ∈ outputs, o.path.isAbsolute = true
  distinct : (outputs.map (·.path.normalize)).Nodup
  noModelFile : ∀ o ∈ outputs, ¬ settings.IsModelFile o.path
  noLock : ∀ o ∈ outputs, o.path.normalize ≠ settings.lockPath.normalize
  lock : ¬ settings.IsModelFile settings.lockPath
  /-- No entry of an earlier lock is the name of a model file. -/
  earlier : ∀ place text previous, settings.lockPath.normalize = Place.form place →
    disk.node? place = some (.file (.text text)) → LockFile.parse text = .ok previous →
    ∀ entry ∈ previous.files, ∀ p, settings.modelRoot.resolveEntry entry = some p →
    ¬ settings.IsModelFile p

/-- The outputs are on the disk of a host, and the lock file there lists their names in strict
order. -/
structure Settled (h : Host PathSet) (outputs : List Output) : Prop where
  current : ∀ o ∈ outputs, h.disk.read o.path = .ok o.content
  lock : LockFile.read h.disk h.store.settings.lockPath = .ok (some h.lock)
  listed : ∀ name, name ∈ h.lock.files ↔ ∃ o ∈ outputs, h.root.relativeName o.path = name
  sorted : h.lock.files.Pairwise (· < ·)

theorem Output.mem_keptPaths {outputs : List (List Output)} {p : Path} (h : p ∈ keptPaths outputs) :
    ∃ o ∈ outputs.flatten, o.path = p := by
  obtain ⟨made, hmade, hp⟩ := List.mem_flatMap.mp h
  obtain ⟨o, ho, rfl⟩ := List.mem_map.mp ((PathSet.mem_insertAll hp).resolve_left List.not_mem_nil)
  exact ⟨o, List.mem_flatten_of_mem hmade ho, rfl⟩

theorem Output.exists_mem_keptPaths {outputs : List (List Output)} {o : Output}
    (h : o ∈ outputs.flatten) :
    ∃ p ∈ keptPaths outputs, p.normalize = o.path.normalize := by
  obtain ⟨made, hmade, ho⟩ := List.mem_flatten.mp h
  obtain ⟨p, hp, he⟩ := PathSet.exists_mem_insertAll (List.mem_map_of_mem ho) []
  refine ⟨p, List.mem_flatMap.mpr ⟨made, hmade, hp⟩, ?_⟩
  unfold Path.normalize
  rw [he]

namespace BatchRun

variable {settings : Settings} {disk : Disk} {gens : List Generator}
  (r : BatchRun settings disk gens)

theorem mem_lock {name : String} :
    name ∈ r.host.lock.files ↔ ∃ o ∈ r.outputs.flatten, r.host.root.relativeName o.path = name := by
  have hroot : r.host.root = settings.modelRoot := by rw [Host.root, r.settings_host]
  rw [r.lock_host, hroot, LockFile.mem_files_ofPaths]
  constructor
  · rintro ⟨p, hp, hname⟩
    obtain ⟨o, ho, rfl⟩ := Output.mem_keptPaths hp
    exact ⟨o, ho, hname⟩
  · rintro ⟨o, ho, hname⟩
    obtain ⟨p, hp, he⟩ := Output.exists_mem_keptPaths ho
    exact ⟨p, hp, (Path.relativeName_congr _ he).trans hname⟩

theorem spares_lock (hroot : settings.modelRoot.isAbsolute = true) :
    Disk.Spares [settings.lockPath] r.pruning.disk r.final :=
  .write List.mem_cons_self (Path.isAbsolute_join hroot _) (LockFile.write_eq_ok.mp r.locks)

/-- Writing the lock file last settles the disk. -/
theorem settled (hroot : settings.modelRoot.isAbsolute = true)
    (habsolute : ∀ o ∈ r.outputs.flatten, o.path.isAbsolute = true)
    (hlock : ∀ o ∈ r.outputs.flatten, o.path.normalize ≠ settings.lockPath.normalize)
    (hcurrent : ∀ o ∈ r.outputs.flatten, r.pruning.disk.read o.path = .ok o.content)
    (hparse : LockFile.parse r.host.lock.text = .ok r.host.lock) :
    Settled r.host r.outputs.flatten where
  current o ho := by
    refine (r.spares_lock hroot).read (habsolute o ho) (fun p hp => ?_) (hcurrent o ho)
    rw [List.mem_singleton.mp hp]
    exact (hlock o ho).symm
  lock := by
    rw [r.settings_host]
    refine LockFile.read_eq_some.mpr ⟨_, Disk.read_of_write (LockFile.write_eq_ok.mp r.locks), ?_⟩
    rw [r.lock_host] at hparse ⊢
    exact hparse
  listed _ := r.mem_lock
  sorted := LockFile.pairwise_files _ _

/-- What is deleted is an earlier output, and none of this run. -/
theorem of_deleted {p : Path} (hp : p ∈ r.pruning.deleted) :
    (∃ previous, r.previous = some previous ∧ ∃ entry ∈ previous.files,
      settings.modelRoot.resolveEntry entry = some p) ∧
    ∀ o ∈ r.outputs.flatten, p.normalize ≠ o.path.normalize := by
  have hpruned := LockFile.pruned_prune (.ofPaths settings.modelRoot (Output.keptPaths r.outputs))
    (r.previous.getD {}) settings.modelRoot r.written
  rw [r.prunes] at hpruned
  obtain ⟨entry, hstale, hentry⟩ := hpruned.entry p hp
  refine ⟨?_, fun o ho he => ?_⟩
  · have hprevious := (LockFile.mem_staleFiles.mp hstale).1
    cases hsome : r.previous with
    | none => simp [hsome] at hprevious
    | some previous => exact ⟨previous, rfl, entry, by simpa [hsome] using hprevious, hentry⟩
  · obtain ⟨q, hq, hqo⟩ := Output.exists_mem_keptPaths ho
    exact LockFile.normalize_ne_of_stale hstale hentry q hq (hqo.trans he.symm)

variable {r}

theorem written_of_tidy (h : Tidy settings disk r.outputs.flatten) :
    Output.Written r.outputs.flatten disk r.written :=
  Output.writeAll_ok h.absolute h.distinct r.writes

theorem not_isModelFile_of_deleted (h : Tidy settings disk r.outputs.flatten) {p : Path}
    (hp : p ∈ r.pruning.deleted) : ¬ settings.IsModelFile p := by
  obtain ⟨⟨previous, hprevious, entry, hentry, hresolve⟩, -⟩ := r.of_deleted hp
  obtain ⟨text, hread, hparse⟩ := LockFile.read_eq_some.mp (r.reads.trans (congrArg _ hprevious))
  obtain ⟨place, hl, hfile, -⟩ := Disk.read_eq_ok.mp hread
  have hform := Disk.normalize_of_locate (Path.isAbsolute_join h.root _) hl
  refine h.earlier place text previous hform ?_ hparse entry hentry p hresolve
  refine ((r.written_of_tidy h).spares.file place (fun q hq => ?_) _).mp hfile
  obtain ⟨o, ho, rfl⟩ := List.mem_map.mp hq
  rw [← hform]
  exact h.noLock o ho

theorem spares_pruning (h : Tidy settings disk r.outputs.flatten) :
    Disk.Spares r.pruning.deleted r.written r.pruning.disk := by
  have hspares :=
    LockFile.spares_prune h.root (.ofPaths settings.modelRoot (Output.keptPaths r.outputs))
      (r.previous.getD {}) r.written
  rw [r.prunes] at hspares
  exact hspares

/-- **A tidy run leaves a settled disk.** -/
theorem settled_of_tidy (h : Tidy settings disk r.outputs.flatten)
    (hparse : LockFile.parse r.host.lock.text = .ok r.host.lock) :
    Settled r.host r.outputs.flatten := by
  refine r.settled h.root h.absolute h.noLock (fun o ho => ?_) hparse
  refine (r.spares_pruning h).read (h.absolute o ho) (fun p hp => ?_)
    ((r.written_of_tidy h).current o ho)
  exact (r.of_deleted hp).2 o ho

/-- Nothing that a tidy run puts at stake is a model file, so the model is loaded again. -/
theorem loads_again (hdisk : disk.Plain) (h : Tidy settings disk r.outputs.flatten) :
    Workspace.loadAll .failFast { settings } r.final = (r.store, .ok r.files) := by
  let touched := r.outputs.flatten.map Output.path ++ r.pruning.deleted ++ [settings.lockPath]
  have hspares : Disk.Spares touched disk r.final :=
    (((r.written_of_tidy h).spares.mono (by simp +contextual [touched])).trans
      ((r.spares_pruning h).mono (by simp +contextual [touched]))).trans
        ((r.spares_lock h.root).mono (by simp [touched]))
  refine Workspace.loadAll_of_spares (s := { settings }) h.root hdisk hspares
    (fun p hp => ?_) r.loads
  rcases List.mem_append.mp hp with hp | hp
  · rcases List.mem_append.mp hp with hp | hp
    · obtain ⟨o, ho, rfl⟩ := List.mem_map.mp hp
      exact h.noModelFile o ho
    · exact r.not_isModelFile_of_deleted h hp
  · rw [List.mem_singleton.mp hp]
    exact h.lock

/-- The run after a tidy one writes no output and prunes nothing, and the lock file over itself. -/
def again (hdisk : disk.Plain) (h : Tidy settings disk r.outputs.flatten)
    (hparse : LockFile.parse r.host.lock.text = .ok r.host.lock) {last : Disk}
    (hlast : r.host.lock.write r.final settings.lockPath = .ok last) :
    BatchRun settings r.final gens where
  store := r.store
  files := r.files
  loads := r.loads_again hdisk h
  linked := r.linked
  report := r.report
  links := r.links
  clean := r.clean
  outputs := r.outputs
  makes := r.makes
  written := r.final
  paths := []
  writes := Output.writeAll_of_current (r.settled_of_tidy h hparse).current
  previous := some r.host.lock
  reads := by
    have hlock := (r.settled_of_tidy h hparse).lock
    rw [r.settings_host] at hlock
    exact hlock
  pruning := { disk := r.final }
  prunes := by
    rw [Option.getD_some, r.lock_host]
    exact LockFile.prune_self _ _ _
  final := last
  locks := r.lock_host ▸ hlast

end BatchRun

namespace Host

variable {settings : Settings} {disk : Disk} {gens : List Generator}

/-- **Batch runs are idempotent.** -/
theorem run_idempotent {h : Host PathSet} {summary : RunSummary} (hdisk : disk.Plain)
    (hrun : (ofGenerators settings disk gens).run = (h, .ok summary))
    (htidy : ∀ outputs, Generator.runAll gens h.store h.ids = .ok outputs →
      Tidy settings disk outputs.flatten) (hparse : LockFile.parse h.lock.text = .ok h.lock) :
    ∃ outputs, Generator.runAll gens h.store h.ids = .ok outputs ∧ Settled h outputs.flatten ∧
      ∃ h', (ofGenerators settings h.disk gens).run = (h', .ok { summary with pruned := [] }) ∧
        h'.store = h.store ∧ Output.writeAll h.disk outputs.flatten = (h.disk, .ok []) ∧
        tellAll h'.store h'.ids (gens.map fun g => (g.watcher, [])) h.disk
          = (h'.watchers, h.disk, .ok ()) ∧
        (∀ place, h'.disk.node? place = h.disk.node? place) ∧ Settled h' outputs.flatten := by
  obtain ⟨r, rfl, rfl⟩ := run_ofGenerators_eq_ok.mp hrun
  have h := htidy r.outputs r.makes
  have hsettled := r.settled_of_tidy h hparse
  obtain ⟨last, hwrite, hsame⟩ := Disk.write_again (LockFile.write_eq_ok.mp r.locks)
  rw [← r.lock_host] at hwrite
  let next := r.again hdisk h hparse (LockFile.write_eq_ok.mpr hwrite)
  have hnext : Settled next.host r.outputs.flatten :=
    next.settled h.root h.absolute h.noLock hsettled.current hparse
  exact ⟨r.outputs, r.makes, hsettled, next.host, run_ofGenerators_eq_ok.mpr ⟨next, rfl, rfl⟩, rfl,
    next.writes, (tellAll_eq_ok _ _ _).mpr ⟨r.outputs, [], r.makes, next.writes, rfl⟩, hsame, hnext⟩

def outsideLock : Settings := { modelRoot := ⟨"/m"⟩, lockFileName := "../m.lock" }

/-- A model file, and an output of a run before with the lock that lists it. -/
def ranBefore : Disk :=
  ⟨[(["m"], .directory), (["m", "A.tmd"], .file (.text "module: M\ntags: [t]")),
    (["old.txt"], .file (.text "old")),
    (["m.lock"], .file (.text "version: 0.1.0\ngeneratedFiles:\n- ../old.txt"))]⟩

def noting : Generator where
  name := "Noting"
  tags := ["t"]
  outputPath _ f _ := some ⟨"/m/out/" ++ f.name ++ ".txt"⟩
  render _ f _ := .ok f.name

theorem tidy_ranBefore : Tidy outsideLock ranBefore [⟨⟨"/m/out/A.txt"⟩, "A", ⟨0⟩, "t"⟩] where
  root := by decide +kernel
  absolute := by decide +kernel
  distinct := by decide +kernel
  noModelFile o ho h := by
    rw [List.mem_singleton.mp ho] at h
    exact absurd h.extension (by decide +kernel)
  noLock := by decide +kernel
  lock h := absurd h.extension (by decide +kernel)
  earlier place text previous hform hfile hparse entry hentry p hp h := by
    have hplace : place = ["m.lock"] := Disk.form_injective (hform.symm.trans (by decide +kernel))
    have htext : ranBefore.node? ["m.lock"]
        = some (.file (.text "version: 0.1.0\ngeneratedFiles:\n- ../old.txt")) := by decide +kernel
    have hlock : (LockFile.parse "version: 0.1.0\ngeneratedFiles:\n- ../old.txt").toOption
        = some ⟨"0.1.0", ["../old.txt"]⟩ := by decide +kernel
    have hold : outsideLock.modelRoot.resolveEntry "../old.txt" = some ⟨"/m/../old.txt"⟩ := by
      decide +kernel
    rw [hplace, htext] at hfile
    obtain rfl : _ = text := Content.text.inj (DiskNode.file.inj (Option.some.inj hfile))
    rw [hparse] at hlock
    rw [Option.some.inj hlock] at hentry
    rw [List.mem_singleton.mp hentry, hold] at hp
    rw [← Option.some.inj hp] at h
    exact absurd h.extension (by decide +kernel)

/-- The first run writes one output and prunes another; the second does neither. -/
theorem run_idempotent_of_ranBefore :
    ∃ h h', (ofGenerators outsideLock ranBefore [noting]).run
        = (h, .ok { files := 1, warnings := 0, generated := [⟨"/m/out/A.txt"⟩], pruned := [⟨"/m/../old.txt"⟩] }) ∧
      (ofGenerators outsideLock h.disk [noting]).run
        = (h', .ok { files := 1, warnings := 0, generated := [⟨"/m/out/A.txt"⟩], pruned := [] }) ∧
      ∀ place, h'.disk.node? place = h.disk.node? place := by
  have hfirst : (ofGenerators outsideLock ranBefore [noting]).run.2.toOption
        = some { files := 1, warnings := 0, generated := [⟨"/m/out/A.txt"⟩], pruned := [⟨"/m/../old.txt"⟩] } ∧
      (Generator.runAll [noting] (ofGenerators outsideLock ranBefore [noting]).run.1.store
        (ofGenerators outsideLock ranBefore [noting]).run.1.ids).toOption
        = some [[⟨⟨"/m/out/A.txt"⟩, "A", ⟨0⟩, "t"⟩]] ∧
      (LockFile.parse (ofGenerators outsideLock ranBefore [noting]).run.1.lock.text).toOption
        = some (ofGenerators outsideLock ranBefore [noting]).run.1.lock := by decide +kernel
  obtain ⟨hsummary, hmade, hparse⟩ := hfirst
  have hrun := run_of_toOption hsummary
  have hplain : ranBefore.Plain := by decide +kernel
  obtain ⟨outputs, -, -, h', hagain, -, -, -, hsame, -⟩ := run_idempotent hplain hrun
    (fun outputs houtputs => by
      rw [houtputs] at hmade
      rw [Option.some.inj hmade]
      exact tidy_ranBefore) (eq_ok_of_toOption hparse)
  exact ⟨_, h', hrun, hagain, hsame⟩

/-- The lock file has the name of a model file. -/
def modelLock : Settings := { modelRoot := ⟨"/m"⟩, lockFileName := "topmodel.tmd" }

def emptyRoot : Disk := ⟨[(["m"], .directory)]⟩

/-- **A lock file with the name of a model file is one**, and no more loaded than any other text
that is no model: the run after the first one fails. -/
theorem run_fails_of_modelLock :
    ∃ h summary, (ofGenerators modelLock emptyRoot []).run = (h, .ok summary) ∧
      LockFile.parse h.lock.text = .ok h.lock ∧
      ∀ h' summary', (ofGenerators modelLock h.disk []).run ≠ (h', .ok summary') := by
  have hruns : (ofGenerators modelLock emptyRoot []).run.2.toOption = some ⟨0, 0, [], []⟩ ∧
      (LockFile.parse (ofGenerators modelLock emptyRoot []).run.1.lock.text).toOption
        = some (ofGenerators modelLock emptyRoot []).run.1.lock ∧
      (ofGenerators modelLock (ofGenerators modelLock emptyRoot []).run.1.disk []).run.2.toOption
        = none := by decide +kernel
  obtain ⟨hsummary, hparse, hfails⟩ := hruns
  refine ⟨_, _, run_of_toOption hsummary, eq_ok_of_toOption hparse, fun h' summary' hrun => ?_⟩
  rw [hrun] at hfails
  exact absurd hfails (by simp [Except.toOption])

end Host

end EntityModel
