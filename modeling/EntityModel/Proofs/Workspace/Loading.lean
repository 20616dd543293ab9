import EntityModel.Proofs.Store.Reachable
import EntityModel.Workspace.Loading

/-!
# Loading from a disk keeps stores reachable

Every file is read under an id that was dealt out for its name, so whatever is loaded from a disk,
all files at once or one of them again, the store stays reachable (`Reachable.loadAll`,
`Reachable.loadOne`).  A watch session that collects failures is never stopped by a file.
-/

namespace EntityModel

open Workspace

namespace Store

variable {s : Store} {mode : LoadMode} {d : Disk} {id : FileId} {f : FoundFile}

/-- A file that can be read holds what its text is loaded to. -/
theorem load_of_readFile {settings : Settings} {file : Option ModelFile}
    (h : readFile settings d id f = .ok file) :
    ∃ source loaded, ModelFile.load id f.name source settings.app settings.naming = .ok loaded ∧
      file = loaded.map fun g => { g with path := some f.path } := by
  unfold readFile at h
  cases hread : d.read f.path with
  | error e => rw [hread] at h; exact absurd h (by simp)
  | ok source =>
    rw [hread] at h
    change (ModelFile.load id f.name source settings.app settings.naming >>= fun file =>
      pure (file.map fun file => { file with path := some f.path })) = .ok file at h
    cases hload : ModelFile.load id f.name source settings.app settings.naming with
    | error e => rw [hload] at h; cases h
    | ok loaded =>
      rw [hload] at h
      cases h
      exact ⟨source, loaded, hload, rfl⟩

theorem registry_putLoaded (s : Store) (id : FileId) (file : Option ModelFile) :
    (s.putLoaded id file).registry = s.registry := by
  cases file <;> rfl

theorem registry_take (mode : LoadMode) (s : Store) (id : FileId)
    (read : Except Source.LoadError (Option ModelFile)) :
    (take mode s id read).1.registry = s.registry := by
  cases read with
  | ok file => exact registry_putLoaded s id file
  | error e => cases mode <;> rfl

theorem take_collect_ok (s : Store) (id : FileId)
    (read : Except Source.LoadError (Option ModelFile)) :
    ∃ held, (take .collect s id read).2 = .ok held := by
  cases read with
  | ok file => exact ⟨_, rfl⟩
  | error e => exact ⟨false, rfl⟩

theorem Reachable.take (h : s.Reachable) (mode : LoadMode) (d : Disk)
    (hname : s.registry.name? id = some f.name) :
    (take mode s id (readFile s.settings d id f)).1.Reachable := by
  cases hread : readFile s.settings d id f with
  | error e =>
    cases mode with
    | failFast => exact h
    | collect => exact h.fail id e
  | ok file =>
    obtain ⟨source, loaded, hload, rfl⟩ := load_of_readFile hread
    exact h.read f.path hname hload

theorem get?_take (mode : LoadMode) (s : Store) (d : Disk) (id : FileId)
    (f : FoundFile) {a : FileId} (ha : a ≠ id) :
    (take mode s id (readFile s.settings d id f)).1.drafts.get? a = s.drafts.get? a := by
  cases hread : readFile s.settings d id f with
  | error e =>
    cases mode with
    | failFast => rfl
    | collect => exact (FileTable.get?_erase s.drafts id a).trans (if_neg ha)
  | ok file =>
    obtain ⟨source, loaded, hload, rfl⟩ := load_of_readFile hread
    cases loaded with
    | none => exact (FileTable.get?_erase s.drafts id a).trans (if_neg ha)
    | some g =>
      have hid : g.id = id := (ModelFile.numbered_of_load hload).1
      exact (FileTable.get?_insert s.drafts g.id _ a).trans (if_neg (hid ▸ ha))

/-! ### One file -/

theorem loadOne_of_fileName? (mode : LoadMode) (s : Store) (d : Disk) (path : Path) {name : String}
    (h : fileName? s.settings path = some name) :
    loadOne mode s d path = match Workspace.take mode (s.intern name).1 (s.intern name).2
        (readFile s.settings d (s.intern name).2 { name, path }) with
      | (s, .error e) => (s, .error e)
      | (s, .ok _) => (s, .ok ()) := by
  unfold loadOne
  rw [h]
  rfl

theorem loadOne_eq (mode : LoadMode) (s : Store) (d : Disk) (path : Path) {name : String}
    (h : fileName? s.settings path = some name) :
    (loadOne mode s d path).1 = (Workspace.take mode (s.intern name).1 (s.intern name).2
        (readFile s.settings d (s.intern name).2 { name, path })).1 ∧
      ((loadOne mode s d path).2 = .ok () ↔
        ∃ held, (Workspace.take mode (s.intern name).1 (s.intern name).2
        (readFile s.settings d (s.intern name).2 { name, path })).2 = .ok held) := by
  rw [loadOne_of_fileName? mode s d path h]
  rcases Workspace.take mode (s.intern name).1 (s.intern name).2
    (readFile s.settings d (s.intern name).2 { name, path }) with ⟨t, _ | held⟩
  · exact ⟨rfl, by simp⟩
  · exact ⟨rfl, by simp⟩

theorem loadOne_collect_ok (s : Store) (d : Disk) (path : Path) :
    (loadOne .collect s d path).2 = .ok () := by
  cases hn : fileName? s.settings path with
  | none =>
    unfold Workspace.loadOne
    rw [hn]
  | some name => exact (loadOne_eq .collect s d path hn).2.mpr (take_collect_ok _ _ _)

/-- What loading one file leaves as it was: the ids that were dealt out, and the drafts of other
files. The name of the file has its id from then on. -/
theorem loadOne_spec (h : s.Reachable) (mode : LoadMode) (d : Disk) (path : Path) {name : String}
    (hname : fileName? s.settings path = some name) :
    (∀ id n, s.registry.name? id = some n → (loadOne mode s d path).1.registry.name? id = some n) ∧
      ∀ a, a ≠ ((loadOne mode s d path).1.intern name).2 →
        (loadOne mode s d path).1.drafts.get? a = s.drafts.get? a := by
  have hreg : (loadOne mode s d path).1.registry = (s.intern name).1.registry := by
    rw [(loadOne_eq mode s d path hname).1, registry_take]
  refine ⟨fun id n hid => hreg ▸ FileRegistry.name?_intern_of_name? hid name, fun a ha => ?_⟩
  have hsame : ((loadOne mode s d path).1.intern name).2 = (s.intern name).2 := by
    have hget := FileRegistry.get?_of_name? (h.intern name).drafted.names (name?_intern s name)
    show ((loadOne mode s d path).1.registry.intern name).2 = (s.intern name).2
    rw [hreg, FileRegistry.intern, hget]
  rw [(loadOne_eq mode s d path hname).1]
  exact get?_take mode (s.intern name).1 d _ _ (hsame ▸ ha)

theorem Reachable.loadOne (h : s.Reachable) (mode : LoadMode) (d : Disk) (path : Path) :
    (loadOne mode s d path).1.Reachable := by
  cases hn : fileName? s.settings path with
  | none =>
    unfold Workspace.loadOne
    rw [hn]
    exact h
  | some name =>
    rw [(loadOne_eq mode s d path hn).1]
    exact (h.intern name).take (f := { name, path }) mode d (name?_intern s name)

/-! ### All files -/

/-- The ids under which files are about to be read are those of their names. -/
def Assigned (s : Store) (jobs : List (FileId × FoundFile)) : Prop :=
  ∀ job ∈ jobs, s.registry.name? job.1 = some job.2.name

theorem name?_internAll {name : String} : ∀ (found : List FoundFile) {s : Store},
    s.registry.name? id = some name → (internAll s found).1.registry.name? id = some name
  | [], _, h => h
  | f :: rest, _, h => name?_internAll rest (FileRegistry.name?_intern_of_name? h f.name)

theorem assigned_internAll : ∀ (found : List FoundFile) (s : Store),
    (internAll s found).1.Assigned (internAll s found).2
  | [], _ => fun _ h => absurd h (List.not_mem_nil)
  | f :: rest, s => by
    intro job hjob
    rcases List.mem_cons.mp hjob with rfl | hjob
    · exact name?_internAll rest (name?_intern s f.name)
    · exact assigned_internAll rest (s.intern f.name).1 job hjob

theorem Reachable.internAll : ∀ (found : List FoundFile) {s : Store}, s.Reachable →
    (internAll s found).1.Reachable
  | [], _, h => h
  | f :: rest, _, h => Reachable.internAll rest (h.intern f.name)

theorem Reachable.takeAll (mode : LoadMode) (d : Disk) :
    ∀ (jobs : List (FileId × FoundFile)) {s : Store} (count : Nat), s.Reachable → s.Assigned jobs →
      (takeAll mode d s jobs count).1.Reachable
  | [], _, _, h, _ => h
  | (id, f) :: rest, s, count, h, hjobs => by
    have hnext := h.take (f := f) mode d (hjobs (id, f) List.mem_cons_self)
    have hreg := registry_take mode s id (readFile s.settings d id f)
    unfold Workspace.takeAll
    generalize Workspace.take mode s id (readFile s.settings d id f) = taken at hnext hreg
    obtain ⟨t, _ | held⟩ := taken
    · exact hnext
    · refine Reachable.takeAll mode d rest _ hnext fun job hjob => ?_
      rw [show t.registry = s.registry from hreg]
      exact hjobs job (List.mem_cons_of_mem _ hjob)

theorem takeAll_collect_ok (d : Disk) :
    ∀ (jobs : List (FileId × FoundFile)) (s : Store) (count : Nat),
    ∃ n, (takeAll .collect d s jobs count).2 = .ok n
  | [], _, count => ⟨count, rfl⟩
  | (id, f) :: rest, s, count => by
    obtain ⟨held, hheld⟩ := take_collect_ok s id (readFile s.settings d id f)
    unfold Workspace.takeAll
    generalize Workspace.take .collect s id (readFile s.settings d id f) = taken at hheld
    obtain ⟨t, _ | held⟩ := taken
    · cases hheld
    · exact takeAll_collect_ok d rest t _

/-- Collecting, loading all files either ends well or does not begin. -/
theorem loadAll_collect_error {t : Store} {e : Source.LoadError}
    (h : Workspace.loadAll .collect s d = (t, .error e)) :
    t = s := by
  unfold Workspace.loadAll at h
  cases hfound : collect s.settings d with
  | error e =>
    rw [hfound] at h
    exact (Prod.mk.inj h).1.symm
  | ok found =>
    rw [hfound] at h
    obtain ⟨n, hn⟩ := takeAll_collect_ok d (internAll s found).2 (internAll s found).1 0
    rw [show Workspace.takeAll .collect d (internAll s found).1 (internAll s found).2 0
      = (t, .error e) from h] at hn
    cases hn

theorem Reachable.loadAll (h : s.Reachable) (mode : LoadMode) (d : Disk) :
    (Workspace.loadAll mode s d).1.Reachable := by
  unfold Workspace.loadAll
  cases collect s.settings d with
  | error e => exact h
  | ok found => exact (h.internAll found).takeAll mode d _ 0 (assigned_internAll found s)

end Store

end EntityModel
