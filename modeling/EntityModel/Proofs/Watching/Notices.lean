import Mathlib.Data.List.Forall2
import EntityModel.Proofs.Diagnostics.ByFile
import EntityModel.Proofs.Watching.Turns

/-!
# What watchers are told

A watcher is asked to produce something only from a clean model.  To say so, every watcher gets a
record of all that it is told; a host whose watchers keep records does what the host does, and what
the records say holds for the host:

* every change is told right behind what a link without errors found, on the store of that link,
  which holds no error (`Host.changes_told_clean`);
* a batch run that stops because something does not load or link tells no change and leaves the disk
  as it was.
-/

namespace EntityModel

variable {σ : Type}

def Watcher.recorded (w : Watcher σ) : Watcher (σ × List Notice) where
  name := w.name
  onErrors errors kept := (w.onErrors errors kept.1, kept.2 ++ [.errors errors])
  onFilesChanged store files kept disk :=
    let (part, disk, result) := w.onFilesChanged store files kept.1 disk
    ((part, kept.2 ++ [.changed store files]), disk, result)
  generated kept := w.generated kept.1

def HostError.StopsEarly : HostError → Prop
  | load _ => True
  | link _ _ => True
  | generator _ => False
  | lockFile _ => False

def stoppedEarly {α : Type} : Except HostError α → Bool
  | .error (.load _) | .error (.link _ _) => true
  | _ => false

theorem exists_of_stoppedEarly {α : Type} {outcome : Except HostError α}
    (h : stoppedEarly outcome = true) :
    ∃ e : HostError, e.StopsEarly ∧ outcome = .error e := by
  rcases outcome with (e | ⟨count, found⟩ | e | e) | a
  · exact ⟨.load e, trivial, rfl⟩
  · exact ⟨.link count found, trivial, rfl⟩
  all_goals simp [stoppedEarly] at h

theorem Store.hasErrors_link {s : Store} (h : s.link.2.errors = 0) :
    s.link.1.hasErrors = false := by
  have hnone : ∀ d ∈ s.linked.problems, d.isError = false := Diagnostics.errorCount_eq_zero.mp h
  rw [link_eq, hasErrors, List.any_eq_false]
  intro d hd
  rw [hnone d (Diagnostics.mem_of_mem_byFile hd)]
  exact Bool.false_ne_true

/-! ### Records -/

/-- A store that a link without errors has made, what the link found being told right before. -/
structure Heralded (before : List Notice) (store : Store) : Prop where
  linked : ∃ s : Store, s.Reachable ∧ s.link.2.errors = 0 ∧ store = s.link.1
  errors : ∃ earlier, before = earlier ++ [.errors store.diagnostics]
  clean : store.hasErrors = false

/-- Every change in a record is heralded. -/
def Clean (record : List Notice) : Prop :=
  ∀ before store files after, record = before ++ .changed store files :: after →
    Heralded before store

variable {record : List Notice} {s : Store}

theorem clean_nil : Clean [] := fun before _ _ _ h => absurd h (by simp)

theorem Clean.concat (h : Clean record) {notice : Notice}
    (hnotice : ∀ store files, notice = .changed store files → Heralded record store) :
    Clean (record ++ [notice]) := by
  intro before store files after he
  rcases List.append_eq_append_iff.mp he with ⟨more, rfl, hlast⟩ | ⟨more, rfl, hlast⟩
  · cases more with
    | nil =>
      rw [List.append_nil]
      exact hnotice store files (List.cons.inj hlast).1
    | cons x more => exact absurd (List.cons.inj hlast).2 (by simp)
  · cases more with
    | nil =>
      have := hnotice store files (List.cons.inj hlast).1.symm
      rwa [List.append_nil] at this
    | cons x more =>
      obtain ⟨rfl, -⟩ := List.cons.inj hlast
      exact h before store files more rfl

/-- A clean record that ends with what a link has found. -/
def Primed (store : Store) (record : List Notice) : Prop :=
  ∃ earlier, Clean earlier ∧ record = earlier ++ [.errors store.diagnostics]

theorem Primed.clean {store : Store} (h : Primed store record) : Clean record := by
  obtain ⟨earlier, hclean, rfl⟩ := h
  exact hclean.concat fun _ _ he => absurd he (by simp)

theorem Primed.changed {store : Store} (h : Primed store record) (hs : s.Reachable)
    (hnone : s.link.2.errors = 0) (he : store = s.link.1) (files : List FileId) :
    Clean (record ++ [.changed store files]) := by
  refine h.clean.concat fun other files hother => ?_
  obtain ⟨rfl, -⟩ := Notice.changed.inj hother
  obtain ⟨earlier, -, hrecord⟩ := h
  exact ⟨⟨s, hs, hnone, he⟩, ⟨earlier, hrecord⟩, he ▸ Store.hasErrors_link hnone⟩

namespace Host

/-- The host whose watchers also keep what they are told from now on. -/
def recorded (h : Host σ) : Host (σ × List Notice) where
  disk := h.disk
  store := h.store
  mode := h.mode
  watchers := h.watchers.map fun (w, kept) => (w.recorded, (kept, []))
  pending := h.pending

/-- A watcher with a record, and the watcher without it. -/
def Recording (P : List Notice → Prop) (a : Watcher (σ × List Notice) × (σ × List Notice))
    (b : Watcher σ × σ) : Prop :=
  a.1 = b.1.recorded ∧ a.2.1 = b.2 ∧ P a.2.2

/-- A host with records, in which a property holds of every record, and the host without them. -/
structure Echoes (P : List Notice → Prop) (r : Host (σ × List Notice)) (h : Host σ) : Prop where
  disk : r.disk = h.disk
  store : r.store = h.store
  mode : r.mode = h.mode
  pending : r.pending = h.pending
  watchers : List.Forall₂ (Recording P) r.watchers h.watchers

variable {P Q : List Notice → Prop} {r : Host (σ × List Notice)} {h : Host σ}

theorem echoes_recorded (h : Host σ) : h.recorded.Echoes (· = []) h where
  disk := rfl
  store := rfl
  mode := rfl
  pending := rfl
  watchers := List.forall₂_map_left_iff.mpr (List.forall₂_same.mpr fun _ _ => ⟨rfl, rfl, rfl⟩)

theorem Echoes.imp (e : r.Echoes P h) (hPQ : ∀ record, P record → Q record) : r.Echoes Q h :=
  { e with watchers := e.watchers.imp fun _ _ w => ⟨w.1, w.2.1, hPQ _ w.2.2⟩ }

/-! ### A host with records does what the host does -/

theorem Echoes.publishErrors (e : r.Echoes P h)
    (hPQ : ∀ record, P record → Q (record ++ [.errors h.store.diagnostics])) :
    r.publishErrors.Echoes Q h.publishErrors := by
  refine { e with watchers := ?_ }
  refine List.forall₂_map_left_iff.mpr (List.forall₂_map_right_iff.mpr (e.watchers.imp ?_))
  rintro ⟨_, kept, record⟩ ⟨w, other⟩ ⟨hw, hkept, hP⟩
  dsimp only at hw hkept hP
  subst hw hkept
  rw [e.store]
  exact ⟨rfl, rfl, hPQ record hP⟩

theorem recording_tellAll {store : Store} {files : List FileId}
    (hskip : ∀ record, P record → Q record)
    (htell : ∀ record, P record → Q (record ++ [.changed store files]))
    {rs : List (Watcher (σ × List Notice) × (σ × List Notice))} {hs : List (Watcher σ × σ)}
    (e : List.Forall₂ (Recording P) rs hs) : ∀ disk : Disk,
    List.Forall₂ (Recording Q) (tellAll store files rs disk).1 (tellAll store files hs disk).1 ∧
    (tellAll store files rs disk).2 = (tellAll store files hs disk).2 := by
  induction e with
  | nil => exact fun disk => ⟨.nil, rfl⟩
  | @cons a b as bs hab hrest ih =>
    intro disk
    obtain ⟨w, kept⟩ := b
    obtain ⟨v, other, record⟩ := a
    obtain ⟨hw, hkept, hP⟩ := hab
    dsimp only at hw hkept hP
    subst hw hkept
    have hskipped := hrest.imp fun a b (h : Recording P a b) =>
      (⟨h.1, h.2.1, hskip _ h.2.2⟩ : Recording Q a b)
    rcases htold : w.onFilesChanged store files other disk with ⟨part, written, result⟩
    have hrecorded : w.recorded.onFilesChanged store files (other, record) disk
        = ((part, record ++ [.changed store files]), written, result) := by
      simp only [Watcher.recorded, htold]
    simp only [tellAll, hrecorded, htold]
    cases result with
    | error e => exact ⟨.cons ⟨rfl, rfl, htell record hP⟩ hskipped, rfl⟩
    | ok u =>
      obtain ⟨hwatchers, hresult⟩ := ih written
      rw [hresult]
      exact ⟨.cons ⟨rfl, rfl, htell record hP⟩ hwatchers, rfl⟩

theorem Echoes.tell (e : r.Echoes P h) (files : List FileId) (hskip : ∀ record, P record → Q record)
    (htell : ∀ record, P record → Q (record ++ [.changed h.store files])) :
    (r.tell files).1.Echoes Q (h.tell files).1 ∧ (r.tell files).2 = (h.tell files).2 := by
  obtain ⟨hwatchers, hresult⟩ := recording_tellAll hskip htell e.watchers h.disk
  have hr : tellAll r.store files r.watchers r.disk = tellAll h.store files r.watchers h.disk := by
    rw [e.store, e.disk]
  unfold Host.tell
  rw [hr]
  exact ⟨⟨congrArg Prod.fst hresult, e.store, e.mode, e.pending, hwatchers⟩,
    congrArg (fun told => Except.mapError HostError.generator told.2) hresult⟩

theorem Echoes.generated (e : r.Echoes P h) : r.generated = h.generated := by
  have hall : ∀ {rs : List (Watcher (σ × List Notice) × (σ × List Notice))} {hs :
      List (Watcher σ × σ)},
      List.Forall₂ (Recording P) rs hs →
        (rs.flatMap fun (w, kept) => w.generated kept) = hs.flatMap fun (w, kept) =>
          w.generated kept := by
    intro rs hs hall
    induction hall with
    | nil => rfl
    | @cons a b _ _ hab _ ih =>
      obtain ⟨v, other, record⟩ := a
      obtain ⟨w, kept⟩ := b
      obtain ⟨hw, hkept, -⟩ := hab
      dsimp only at hw hkept
      subst hw hkept
      rw [List.flatMap_cons, List.flatMap_cons, ih]
      rfl
  exact hall e.watchers

theorem Echoes.updateLock (e : r.Echoes P h) :
    r.updateLock.1.Echoes P h.updateLock.1 ∧ r.updateLock.2 = h.updateLock.2 := by
  have hroot : r.root = h.root := congrArg (fun s : Store => s.settings.modelRoot) e.store
  unfold Host.updateLock
  rw [e.generated, e.store, e.disk, hroot]
  dsimp only
  cases LockFile.read h.disk h.store.settings.lockPath with
  | error _ => exact ⟨e, rfl⟩
  | ok previous =>
    dsimp only
    split
    · exact ⟨{ e with disk := rfl, store := rfl }, rfl⟩
    · split
      · exact ⟨{ e with disk := rfl, store := rfl }, rfl⟩
      · exact ⟨{ e with disk := rfl, store := rfl }, rfl⟩

theorem Echoes.generate (e : r.Echoes (Primed h.store) h) (hs : s.Reachable)
    (hnone : s.link.2.errors = 0) (he : h.store = s.link.1) (files : Nat) (report : LinkReport) :
    (r.generate files report).1.Echoes Clean (h.generate files report).1 ∧
      (r.generate files report).2 = (h.generate files report).2 := by
  obtain ⟨htold, hresult⟩ := e.tell (h.store.model.files.map (·.id)) (fun _ => Primed.clean)
    fun _ hp => hp.changed hs hnone he _
  unfold Host.generate
  rw [e.store]
  rcases hr : r.tell (h.store.model.files.map (·.id)) with ⟨told, outcome⟩
  rcases hh : h.tell (h.store.model.files.map (·.id)) with ⟨plain, outcome'⟩
  rw [hr, hh] at htold hresult ⊢
  obtain rfl : outcome = outcome' := hresult
  cases outcome with
  | error error => exact ⟨htold, rfl⟩
  | ok _ =>
    obtain ⟨hlocked, hpruned⟩ := htold.updateLock
    dsimp only at hlocked hpruned ⊢
    rcases hr : told.updateLock with ⟨locked, outcome⟩
    rcases hh : plain.updateLock with ⟨plain, outcome'⟩
    rw [hr] at hlocked hpruned
    rw [hh] at hlocked hpruned
    obtain rfl : outcome = outcome' := hpruned
    cases outcome with
    | error error => exact ⟨hlocked, rfl⟩
    | ok pruned =>
      refine ⟨hlocked, ?_⟩
      dsimp only at hlocked ⊢
      rw [hlocked.generated]

theorem Echoes.prime {ws : List (Watcher (σ × List Notice) × (σ × List Notice))}
    {vs : List (Watcher σ × σ)}
    (e : List.Forall₂ (Recording Clean) ws vs) (disk : Disk) (store : Store) (mode : LoadMode)
    (pending : List FileId) :
    (Host.publishErrors ⟨disk, store, mode, ws, pending⟩).Echoes (Primed store)
      (Host.publishErrors ⟨disk, store, mode, vs, pending⟩) :=
  Echoes.publishErrors (r := ⟨disk, store, mode, ws, pending⟩)
    (h := ⟨disk, store, mode, vs, pending⟩) ⟨rfl, rfl, rfl, rfl, e⟩ fun record hclean =>
      ⟨record, hclean, rfl⟩

theorem Echoes.relink (e : r.Echoes Clean h) (hs : h.store.Reachable) (changed : List FileId) :
    (r.relink changed).1.Echoes Clean (h.relink changed).1 ∧
      (r.relink changed).2 = (h.relink changed).2 := by
  have hlinked : (r.relinked changed).Echoes (Primed h.store.link.1) (h.relinked changed) := by
    unfold relinked
    rw [e.disk, e.store, e.mode, e.pending]
    exact Echoes.prime e.watchers ..
  rw [relink_eq, relink_eq, e.store, hlinked.pending]
  split
  · exact ⟨hlinked.imp fun _ => Primed.clean, rfl⟩
  next hgo =>
    have hnone : h.store.link.2.errors = 0 := by
      simp only [Bool.or_eq_true, not_or, Bool.not_eq_true, Bool.not_eq_false', LinkReport.isOk,
        beq_iff_eq] at hgo
      exact hgo.1
    have haffected : (r.relinked changed).affected = (h.relinked changed).affected := by
      unfold affected
      rw [hlinked.pending, hlinked.store]
    obtain ⟨htold, hresult⟩ := hlinked.tell (h.relinked changed).affected (fun _ => Primed.clean)
      fun _ hp => hp.changed hs hnone rfl _
    rw [haffected]
    generalize (r.relinked changed).tell (h.relinked changed).affected = told at htold hresult ⊢
    generalize (h.relinked changed).tell (h.relinked changed).affected = plain at htold hresult ⊢
    obtain ⟨told, outcome⟩ := told
    obtain ⟨plain, outcome'⟩ := plain
    obtain rfl : outcome = outcome' := hresult
    cases outcome with
    | error error => exact ⟨htold, rfl⟩
    | ok _ => exact ⟨⟨htold.disk, htold.store, htold.mode, rfl, htold.watchers⟩, rfl⟩

theorem Echoes.run (e : r.Echoes Clean h) (hs : h.store.Reachable) :
    r.run.1.Echoes Clean h.run.1 ∧ r.run.2 = h.run.2 := by
  have hloaded := hs.loadAll .failFast h.disk
  rw [run_eq, run_eq, e.store, e.disk, e.pending]
  generalize Workspace.loadAll .failFast h.store h.disk = loaded at hloaded
  obtain ⟨store, _ | files⟩ := loaded
  · exact ⟨⟨rfl, rfl, rfl, rfl, e.watchers⟩, rfl⟩
  · have hlinked := Echoes.prime e.watchers h.disk store.link.1 .failFast h.pending
    dsimp only
    split
    next hok => exact hlinked.generate hloaded (by simpa [LinkReport.isOk] using hok) rfl files _
    · exact ⟨hlinked.imp fun _ => Primed.clean, rfl⟩

theorem Echoes.startWatch (e : r.Echoes Clean h) (hs : h.store.Reachable) :
    r.startWatch.1.Echoes Clean h.startWatch.1 ∧ r.startWatch.2 = h.startWatch.2 := by
  have hloaded := hs.loadAll .collect h.disk
  rw [startWatch_eq, startWatch_eq, e.store, e.disk, e.pending]
  generalize Workspace.loadAll .collect h.store h.disk = loaded at hloaded
  obtain ⟨store, _ | files⟩ := loaded
  · exact ⟨⟨rfl, rfl, rfl, rfl, e.watchers⟩, rfl⟩
  · have hready : (⟨h.disk, store, .collect, r.watchers, h.pending⟩ : Host _).Echoes Clean
        ⟨h.disk, store, .collect, h.watchers, h.pending⟩ := ⟨rfl, rfl, rfl, rfl, e.watchers⟩
    exact hready.relink hloaded store.loadedIds

theorem Echoes.fileChanged (e : r.Echoes Clean h) (hs : h.store.Reachable) (path : Path) :
    (r.fileChanged path).1.Echoes Clean (h.fileChanged path).1 ∧
      (r.fileChanged path).2 = (h.fileChanged path).2 := by
  have hloaded := hs.loadOne h.mode h.disk path
  cases hname : Workspace.fileName? h.store.settings path with
  | none =>
    unfold Host.fileChanged
    rw [e.store, hname]
    exact ⟨e, rfl⟩
  | some name =>
    rw [fileChanged_eq r path (e.store ▸ hname), fileChanged_eq h path hname, e.store,
      e.disk, e.mode, e.pending]
    generalize Workspace.loadOne h.mode h.store h.disk path = loaded at hloaded
    obtain ⟨store, _ | _⟩ := loaded
    · exact ⟨⟨rfl, rfl, rfl, rfl, e.watchers⟩, rfl⟩
    · have hready : (⟨h.disk, (store.intern name).1, h.mode, r.watchers, h.pending⟩ :
          Host _).Echoes Clean
          ⟨h.disk, (store.intern name).1, h.mode, h.watchers, h.pending⟩ :=
          ⟨rfl, rfl, rfl, rfl, e.watchers⟩
      exact hready.relink (hloaded.intern name) [(store.intern name).2]

theorem Echoes.fileRemoved (e : r.Echoes Clean h) (hs : h.store.Reachable) (path : Path) :
    (r.fileRemoved path).1.Echoes Clean (h.fileRemoved path).1 ∧
      (r.fileRemoved path).2 = (h.fileRemoved path).2 := by
  unfold Host.fileRemoved
  rw [e.store, e.pending]
  cases (Workspace.fileName? h.store.settings path).bind h.store.registry.get? with
  | none => exact ⟨e, rfl⟩
  | some id =>
    dsimp only
    rw [e.disk, e.mode]
    have hready : ∀ pending,
        (⟨h.disk, h.store.removeFile id, h.mode, r.watchers, pending⟩ : Host _).Echoes
        Clean ⟨h.disk, h.store.removeFile id, h.mode, h.watchers, pending⟩ :=
      fun _ => ⟨rfl, rfl, rfl, rfl, e.watchers⟩
    exact (hready _).relink (hs.remove id) _

theorem Echoes.obey (e : r.Echoes Clean h) (hs : h.store.Reachable) (c : Command) :
    (r.obey c).1.Echoes Clean (h.obey c).1 ∧ (r.obey c).2 = (h.obey c).2 := by
  cases c with
  | edit disk => exact ⟨⟨rfl, e.store, e.mode, e.pending, e.watchers⟩, rfl⟩
  | run =>
    obtain ⟨hrun, hresult⟩ := e.run hs
    exact ⟨hrun, congrArg (Except.map fun _ => ()) hresult⟩
  | startWatch => exact e.startWatch hs
  | changed path => exact e.fileChanged hs path
  | removed path => exact e.fileRemoved hs path

theorem Echoes.obeyAll : ∀ (commands : List Command) {r : Host (σ × List Notice)} {h : Host σ},
    r.Echoes Clean h → h.store.Reachable → (r.obeyAll commands).Echoes Clean (h.obeyAll commands)
  | [], _, _, e, _ => e
  | c :: rest, _, _, e, hs => Echoes.obeyAll rest (e.obey hs c).1 (reachable_obey hs c)

/-! ### Runs that stop early -/

theorem updateLock_error (h : Host σ) {e : HostError} (he : h.updateLock.2 = .error e) :
    ¬ e.StopsEarly := by
  unfold updateLock at he
  dsimp only at he
  split at he
  · cases he
    exact id
  · split at he
    · cases he
      exact id
    · split at he
      · cases he
        exact id
      · cases he

theorem generate_error (h : Host σ) {files : Nat} {report : LinkReport} {e : HostError}
    (he : (h.generate files report).2 = .error e) : ¬ e.StopsEarly := by
  unfold generate at he
  rcases htold : h.tell (h.store.model.files.map (·.id)) with ⟨told, failure | _⟩
  · rw [htold] at he
    obtain rfl : failure = e := by simpa using he
    have hfailure := congrArg Prod.snd htold
    unfold tell at hfailure
    dsimp only at hfailure
    generalize (tellAll h.store (h.store.model.files.map (·.id)) h.watchers h.disk).2.2
      = outcome at hfailure
    cases outcome with
    | error _ =>
      cases hfailure
      exact id
    | ok _ => cases hfailure
  · rw [htold] at he
    dsimp only at he
    rcases hlocked : told.updateLock with ⟨locked, failure | pruned⟩
    · rw [hlocked] at he
      obtain rfl : failure = e := by simpa using he
      exact updateLock_error told (by rw [hlocked])
    · rw [hlocked] at he
      cases he

/-- A run that stops early leaves the disk alone and tells at most what the link has found. -/
theorem run_stopped (h : Host σ) {e : HostError} (he : e.StopsEarly) (hrun : h.run.2 = .error e) :
    h.run.1.disk = h.disk ∧ (h.run.1.watchers = h.watchers ∨
      ∃ errors, h.run.1.watchers = h.watchers.map fun (w, kept) =>
        (w, w.onErrors errors kept)) := by
  rw [run_eq] at hrun ⊢
  generalize Workspace.loadAll .failFast h.store h.disk = loaded at hrun ⊢
  obtain ⟨store, _ | files⟩ := loaded
  · exact ⟨rfl, .inl rfl⟩
  · dsimp only at hrun ⊢
    split at hrun
    · exact absurd he (generate_error _ hrun)
    next hlink =>
      rw [if_neg hlink]
      exact ⟨rfl, .inr ⟨_, rfl⟩⟩

/-- **Changes are only told of clean models, and a run that stops early touches nothing.**  Whatever
a new host is asked to do and however the disk changes meanwhile, watchers with records leave
everything as it would be, and in every record each change stands right behind what a link without
errors has found, with the store of that link, which holds no error.  A batch run that then ends
with an error of loading or linking leaves the disk as it was, and watchers that keep records from
there on are told no change. -/
theorem changes_told_clean (settings : Settings) (disk : Disk) (watchers : List (Watcher σ × σ))
    (commands : List Command) :
    let h := (new settings disk watchers).obeyAll commands
    ((new settings disk watchers).recorded.obeyAll commands).Echoes Clean h ∧
      ∀ e : HostError, e.StopsEarly → h.run.2 = .error e →
        h.run.1.disk = h.disk ∧ h.recorded.run.1.Echoes Clean h.run.1 ∧
          ∀ w ∈ h.recorded.run.1.watchers, ∀ store files, Notice.changed store files ∉ w.2.2 := by
  intro h
  have hnew : (new settings disk watchers).recorded.Echoes Clean (new settings disk watchers) :=
    (echoes_recorded _).imp fun _ he => he ▸ clean_nil
  have hstore : (new settings disk watchers).store.Reachable := .new settings
  refine ⟨hnew.obeyAll commands hstore, fun e he hrun => ?_⟩
  have hfresh : h.recorded.Echoes Clean h := (echoes_recorded h).imp fun _ he => he ▸ clean_nil
  obtain ⟨hrecorded, hresult⟩ := hfresh.run (reachable_obeyAll commands hstore)
  refine ⟨(run_stopped h he hrun).1, hrecorded, fun w hw store files hchanged => ?_⟩
  rcases (run_stopped h.recorded he (hresult.trans hrun)).2 with hsame | ⟨errors, htold⟩
  · rw [hsame] at hw
    obtain ⟨_, -, rfl⟩ := List.mem_map.mp hw
    exact absurd hchanged List.not_mem_nil
  · rw [htold] at hw
    obtain ⟨v, hv, rfl⟩ := List.mem_map.mp hw
    obtain ⟨_, -, rfl⟩ := List.mem_map.mp hv
    exact absurd hchanged (by simp [Watcher.recorded])

def diskOf (source : String) : Disk := ⟨[(["A.tmd"], .file (.text source))]⟩

def soundSource : String := "module: M\n---\ndomain:\n name: D\n label: d"

def brokenSource : String :=
  "module: M\n---\nclass:\n name: A\n comment: c\n properties:\n - name: X\n   comment: c\n   domain: D"

/-- A run that ends well, and then the file is broken. -/
def brokenLater : List Command := [.run, .edit (diskOf brokenSource)]

/-- The first run told one change; the next one stops at the link, and tells none. -/
theorem changes_told_clean_of_brokenLater :
    ∃ h : Host (List Notice),
    h = (new {} (diskOf soundSource) [(recorder, [])]).obeyAll brokenLater ∧
    h.watchers.map (fun w => w.2.length) = [2] ∧
    (∃ e : HostError, e.StopsEarly ∧ h.run.2 = .error e) ∧
    h.run.1.disk = h.disk ∧
      ∀ w ∈ h.recorded.run.1.watchers, ∀ store files, Notice.changed store files ∉ w.2.2 := by
  have hevaluated : ((new {} (diskOf soundSource) [(recorder, [])]).obeyAll
        brokenLater).watchers.map
        (fun w => w.2.length) = [2] ∧
      stoppedEarly ((new {} (diskOf soundSource) [(recorder, [])]).obeyAll brokenLater).run.2
        = true := by decide +kernel
  obtain ⟨htold, hstops⟩ := hevaluated
  obtain ⟨e, he, hrun⟩ := exists_of_stoppedEarly hstops
  have hstopped :=
    (changes_told_clean {} (diskOf soundSource) [(recorder, [])] brokenLater).2 e he hrun
  exact ⟨_, rfl, htold, ⟨e, he, hrun⟩, hstopped.1, hstopped.2.2⟩

end Host

end EntityModel
