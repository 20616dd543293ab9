import EntityModel.Proofs.Workspace.Loading
import EntityModel.Watching.Host

/-!
# What a host does

A host is asked for batch runs and watch sessions, and told of files that were written or deleted.
Each of these loads something, links at most once, and then tells the watchers or does not; what is
done is written out here part by part.  Whatever is asked, the store stays reachable
(`Host.reachable_obeyAll`).
-/

namespace EntityModel.Host

variable {σ : Type} {h : Host σ}

/-- What can be asked of a host.  Between, anything may happen to the disk. -/
inductive Command
  | edit (disk : Disk)
  | run
  | startWatch
  | changed (path : Path)
  | removed (path : Path)

def obey (h : Host σ) : Command → Host σ × Except HostError Unit
  | .edit disk => ({ h with disk }, .ok ())
  | .run => (h.run.1, h.run.2.map fun _ => ())
  | .startWatch => h.startWatch
  | .changed path => h.fileChanged path
  | .removed path => h.fileRemoved path

def obeyAll (h : Host σ) : List Command → Host σ
  | [] => h
  | c :: rest => (h.obey c).1.obeyAll rest

def relinked (h : Host σ) (changed : List FileId) : Host σ :=
  publishErrors { h with store := h.store.link.1, pending := idSet (h.pending ++ changed) }

theorem relink_eq (h : Host σ) (changed : List FileId) : h.relink changed =
    if !h.store.link.2.isOk || (h.relinked changed).pending.isEmpty then
      (h.relinked changed, .ok ())
    else match (h.relinked changed).tell (h.relinked changed).affected with
      | (h, .error e) => (h, .error e)
      | (h, .ok ()) => ({ h with pending := [] }, .ok ()) := rfl

theorem run_eq (h : Host σ) : h.run = match Workspace.loadAll .failFast h.store h.disk with
    | (store, .error e) => ({ h with mode := .failFast, store }, .error (.load e))
    | (store, .ok files) =>
      let linked := publishErrors { h with mode := .failFast, store := store.link.1 }
      if store.link.2.isOk then linked.generate files store.link.2
      else (linked, .error (.link store.link.2.errors store.link.1.diagnostics)) := by
  unfold run
  rcases Workspace.loadAll .failFast h.store h.disk with ⟨store, _ | files⟩ <;> rfl

theorem startWatch_eq (h : Host σ) :
    h.startWatch = match Workspace.loadAll .collect h.store h.disk with
    | (store, .error e) => ({ h with mode := .collect, store }, .error (.load e))
    | (store, .ok _) => relink { h with mode := .collect, store } store.loadedIds := by
  unfold startWatch
  rcases Workspace.loadAll .collect h.store h.disk with ⟨store, _ | files⟩ <;> rfl

theorem fileChanged_eq (h : Host σ) (path : Path) {name : String}
    (hname : Workspace.fileName? h.store.settings path = some name) :
    h.fileChanged path = match Workspace.loadOne h.mode h.store h.disk path with
    | (store, .error e) => ({ h with store }, .error (.load e))
    | (store, .ok ()) =>
        relink { h with store := (store.intern name).1 } [(store.intern name).2] := by
  unfold fileChanged
  rw [hname]
  dsimp only
  rcases Workspace.loadOne h.mode h.store h.disk path with ⟨store, _ | _⟩ <;> rfl

/-! ### Stores stay reachable -/

theorem store_tell (h : Host σ) (files : List FileId) : (h.tell files).1.store = h.store := rfl

theorem store_relink (h : Host σ) (changed : List FileId) :
    (h.relink changed).1.store = h.store.link.1 := by
  rw [relink_eq]
  split
  · rfl
  · have hstore := store_tell (h.relinked changed) (h.relinked changed).affected
    generalize (h.relinked changed).tell (h.relinked changed).affected = told at hstore ⊢
    obtain ⟨told, _ | _⟩ := told
    · exact hstore
    · exact hstore

theorem store_updateLock (h : Host σ) : h.updateLock.1.store = h.store := by
  unfold updateLock
  dsimp only
  split
  · rfl
  · split
    · rfl
    · split <;> rfl

theorem store_generate (h : Host σ) (files : Nat) (report : LinkReport) :
    (h.generate files report).1.store = h.store := by
  have hstore := store_tell h (h.store.model.files.map (·.id))
  unfold generate
  generalize h.tell (h.store.model.files.map (·.id)) = told at hstore ⊢
  obtain ⟨told, _ | _⟩ := told
  · exact hstore
  · have hlocked := (store_updateLock told).trans hstore
    dsimp only
    generalize told.updateLock = locked at hlocked ⊢
    obtain ⟨locked, _ | _⟩ := locked
    · exact hlocked
    · exact hlocked

theorem reachable_run (hs : h.store.Reachable) : h.run.1.store.Reachable := by
  have hloaded := hs.loadAll .failFast h.disk
  rw [run_eq]
  generalize Workspace.loadAll .failFast h.store h.disk = loaded at hloaded
  obtain ⟨store, _ | files⟩ := loaded
  · exact hloaded
  · dsimp only
    split
    · rw [store_generate]
      exact hloaded.link
    · exact hloaded.link

theorem reachable_obey (hs : h.store.Reachable) (c : Command) : (h.obey c).1.store.Reachable := by
  cases c with
  | edit disk => exact hs
  | run => exact reachable_run hs
  | startWatch =>
    have hloaded := hs.loadAll .collect h.disk
    show h.startWatch.1.store.Reachable
    rw [startWatch_eq]
    generalize Workspace.loadAll .collect h.store h.disk = loaded at hloaded
    obtain ⟨store, _ | _⟩ := loaded
    · exact hloaded
    · dsimp only
      rw [store_relink]
      exact hloaded.link
  | changed path =>
    have hloaded := hs.loadOne h.mode h.disk path
    show (h.fileChanged path).1.store.Reachable
    cases hname : Workspace.fileName? h.store.settings path with
    | none =>
      unfold fileChanged
      rw [hname]
      exact hs
    | some name =>
      rw [fileChanged_eq h path hname]
      generalize Workspace.loadOne h.mode h.store h.disk path = loaded at hloaded
      obtain ⟨store, _ | _⟩ := loaded
      · exact hloaded
      · dsimp only
        rw [store_relink]
        exact (hloaded.intern name).link
  | removed path =>
    show (h.fileRemoved path).1.store.Reachable
    unfold fileRemoved
    split
    · exact hs
    · rw [store_relink]
      exact (hs.remove _).link

theorem reachable_obeyAll : ∀ (commands : List Command) {h : Host σ}, h.store.Reachable →
    (h.obeyAll commands).store.Reachable
  | [], _, hs => hs
  | c :: rest, _, hs => reachable_obeyAll rest (reachable_obey hs c)

end EntityModel.Host
