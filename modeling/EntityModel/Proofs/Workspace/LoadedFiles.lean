import EntityModel.Proofs.Source.Making
import EntityModel.Proofs.Workspace.FileNames

/-!
# Every model file under an id of its own

Loading all files takes each of them under the id of its name.  A file that is taken later leaves
the others as they are, so that in the end the store has what reading each file gave
(`Workspace.hasRead_takeAll`).  Files of one name share an id, and the last one stays: those are a
file and its twin (`fileNames_exact`).
-/

namespace EntityModel

open Workspace

namespace FileTable

variable {α : Type} (table : FileTable α) (id : FileId)

theorem get?_insert_self (v : α) : (table.insert id v).get? id = some v :=
  (get?_insert table id v id).trans (if_pos rfl)

theorem get?_erase_self : (table.erase id).get? id = none :=
  (get?_erase table id id).trans (if_pos rfl)

end FileTable

namespace Store

/-- What the store has under an id is what reading gave: a file, nothing, or an error. -/
structure HasRead (s : Store) (id : FileId) (read : Except Source.LoadError (Option ModelFile)) :
    Prop where
  held : ∀ file, s.drafts.get? id = some file ↔ read = .ok (some file)
  failed : ∀ e, s.failures.get? id = some e ↔ read = .error e

namespace HasRead

variable {s : Store} {id : FileId}

theorem ok {file : Option ModelFile} (held : s.drafts.get? id = file)
    (failed : s.failures.get? id = none) :
    s.HasRead id (.ok file) where
  held g := by rw [held, Except.ok.injEq]
  failed e := by simp [failed]

theorem error {e : Source.LoadError} (held : s.drafts.get? id = none)
    (failed : s.failures.get? id = some e) :
    s.HasRead id (.error e) where
  held g := by simp [held]
  failed e' := by rw [failed, Option.some.injEq, Except.error.injEq]

end HasRead

end Store

namespace Workspace

variable {s t : Store} {mode : LoadMode} {d : Disk} {id : FileId} {f g : FoundFile} {total : Nat}

/-! ### One file taken -/

theorem hasRead_take {held : Bool}
    (h : (take mode s id (readFile s.settings d id f)).2 = .ok held) :
    (take mode s id (readFile s.settings d id f)).1.HasRead id (readFile s.settings d id f) := by
  cases hread : readFile s.settings d id f with
  | error e =>
    cases mode with
    | failFast => rw [hread] at h; exact absurd h (by simp [take])
    | collect => exact .error (FileTable.get?_erase_self ..) (FileTable.get?_insert_self ..)
  | ok file =>
    obtain ⟨source, loaded, hload, rfl⟩ := Store.load_of_readFile hread
    cases loaded with
    | none => exact .ok (FileTable.get?_erase_self ..) (FileTable.get?_erase_self ..)
    | some g =>
      obtain rfl : g.id = id := (ModelFile.numbered_of_load hload).1
      exact .ok (FileTable.get?_insert_self ..) (FileTable.get?_erase_self ..)

theorem failures_take {a : FileId} (ha : a ≠ id) :
    (take mode s id (readFile s.settings d id f)).1.failures.get? a = s.failures.get? a := by
  cases hread : readFile s.settings d id f with
  | error e =>
    cases mode with
    | failFast => rfl
    | collect => exact (FileTable.get?_insert _ _ _ _).trans (if_neg ha)
  | ok file =>
    obtain ⟨source, loaded, hload, rfl⟩ := Store.load_of_readFile hread
    cases loaded with
    | none => exact (FileTable.get?_erase _ _ _).trans (if_neg ha)
    | some g =>
      have hid : g.id = id := (ModelFile.numbered_of_load hload).1
      exact (FileTable.get?_erase _ _ _).trans (if_neg (hid ▸ ha))

theorem hasRead_take_of_ne {a : FileId}
    {read : Except Source.LoadError (Option ModelFile)} (ha : a ≠ id)
    (h : s.HasRead a read) : (take mode s id (readFile s.settings d id f)).1.HasRead a read := by
  refine ⟨fun file => ?_, fun e => ?_⟩
  · rw [Store.get?_take mode s d id f ha, h.held]
  · rw [failures_take ha, h.failed]

/-! ### All files taken -/

theorem takeAll_cons {rest : List (FileId × FoundFile)} {count : Nat}
    (h : takeAll mode d s ((id, f) :: rest) count = (t, .ok total)) :
    ∃ held, (take mode s id (readFile s.settings d id f)).2 = .ok held ∧
      takeAll mode d (take mode s id (readFile s.settings d id f)).1 rest
        (if held then count + 1 else count)
        = (t, .ok total) := by
  unfold takeAll at h
  generalize take mode s id (readFile s.settings d id f) = taken at h ⊢
  obtain ⟨u, _ | held⟩ := taken
  · exact absurd h (by simp)
  · exact ⟨held, rfl, h⟩

/-- What the store has under an id stays, if whatever is taken under it reads the same. -/
theorem hasRead_of_takeAll {settings : Settings} {read : Except Source.LoadError (Option ModelFile)}
    (jobs : List (FileId × FoundFile))
    (hjobs : ∀ job ∈ jobs, job.1 = id → readFile settings d id job.2 = read) :
    ∀ {s : Store} {count : Nat}, s.settings = settings →
    takeAll mode d s jobs count = (t, .ok total) →
      s.HasRead id read → t.HasRead id read := by
  induction jobs with
  | nil =>
    intro s count _ h hread
    obtain ⟨rfl, -⟩ := Prod.mk.inj h
    exact hread
  | cons job rest ih =>
    intro s count hs h hread
    obtain ⟨a, g⟩ := job
    obtain ⟨held, hheld, hrest⟩ := takeAll_cons h
    obtain ⟨hfirst, hjobs⟩ := List.forall_mem_cons.mp hjobs
    refine ih hjobs ((settings_take mode s a _).trans hs) hrest ?_
    by_cases ha : id = a
    · subst ha
      rw [← hfirst rfl, ← hs]
      exact hasRead_take hheld
    · exact hasRead_take_of_ne ha hread

/-- **In the end the store has what reading a file gave**, if whatever is taken under its id behind
it reads the same. -/
theorem hasRead_takeAll {settings : Settings} {after : List (FileId × FoundFile)}
    (hafter : ∀ job ∈ after, job.1 = id → readFile settings d id job.2 = readFile settings d id f)
    (before : List (FileId × FoundFile)) :
    ∀ {s : Store} {count : Nat}, s.settings = settings →
      takeAll mode d s (before ++ (id, f) :: after) count = (t, .ok total) →
      t.HasRead id (readFile settings d id f) := by
  induction before with
  | nil =>
    intro s count hs h
    obtain ⟨held, hheld, hrest⟩ := takeAll_cons h
    subst hs
    exact hasRead_of_takeAll after hafter (settings_take mode s id _) hrest (hasRead_take hheld)
  | cons job before ih =>
    intro s count hs h
    obtain ⟨held, -, hrest⟩ := takeAll_cons h
    exact ih ((settings_take mode s job.1 _).trans hs) hrest

theorem registry_takeAll : ∀ (jobs : List (FileId × FoundFile)) (s : Store) (count : Nat),
    (takeAll mode d s jobs count).1.registry = s.registry
  | [], _, _ => rfl
  | (id, f) :: rest, s, count => by
    have hfirst := Store.registry_take mode s id (readFile s.settings d id f)
    unfold takeAll
    generalize take mode s id (readFile s.settings d id f) = taken at hfirst ⊢
    obtain ⟨u, _ | held⟩ := taken
    · exact hfirst
    · exact (registry_takeAll rest u _).trans hfirst

theorem files_internAll :
    ∀ (found : List FoundFile) (s : Store), (internAll s found).2.map Prod.snd = found
  | [], _ => rfl
  | f :: rest, s => congrArg (f :: ·) (files_internAll rest (s.intern f.name).1)

/-! ### The files found -/

theorem exists_descend_of_collect {settings : Settings} {found : List FoundFile} (hd : d.Plain)
    (h : collect settings d = .ok found) (hf : f ∈ found) : ∃ names, names ≠ [] ∧
      (∀ n ∈ names, Path.IsName n) ∧ f.path = settings.modelRoot.descend names ∧
      settings.modelRoot.modelFileName? f.path = some f.name := by
  obtain ⟨place, -, -, rfl⟩ := collect_eq_ok.mp h
  obtain ⟨names, hnames, hfound⟩ := List.mem_filterMap.mp hf
  obtain ⟨name, hname, rfl⟩ := Option.map_eq_some_iff.mp hfound
  rw [Disk.filesBelow_eq, List.mem_mergeSort, List.mem_filterMap] at hnames
  obtain ⟨e, he, hbelow⟩ := hnames
  obtain ⟨hat, hne⟩ := Disk.below?_eq_some hbelow
  refine ⟨names, hne, fun n hn => hd e he n (hat ▸ List.mem_append_right _ hn), rfl, ?_⟩
  obtain ⟨other, hother, hignored⟩ := Option.bind_eq_some_iff.mp hname
  split at hignored
  · exact absurd hignored (by simp)
  · rw [hother, Option.some.inj hignored]

/-- **Of the files found, a file and its twin have one name**, and no other two. -/
theorem name_eq_iff_of_collect {settings : Settings} {found : List FoundFile} (hd : d.Plain)
    (h : collect settings d = .ok found) (hf : f ∈ found) (hg : g ∈ found) :
    g.name = f.name ↔ g = f ∨ Path.DotTwins f.path.components g.path.components := by
  obtain ⟨names, hne, hplain, hpath, hname⟩ := exists_descend_of_collect hd h hf
  obtain ⟨names', hne', hplain', hpath', hname'⟩ := exists_descend_of_collect hd h hg
  rw [hpath] at hname
  rw [hpath'] at hname'
  rw [eq_comm, Path.modelFileName?_descend_eq_iff hplain hplain' hne hne' hname hname',
    hpath, hpath']
  refine or_congr_left ⟨fun hnames => ?_, fun hfile => ?_⟩
  · -- the path settles the name
    subst hnames
    have hsame : g.name = f.name := Option.some.inj (hname'.symm.trans hname)
    cases f
    cases g
    exact FoundFile.mk.injEq .. ▸ ⟨hsame, hpath'.trans hpath.symm⟩
  · have hcomponents := Path.components_descend hplain settings.modelRoot
    rw [← hpath, ← hfile, hpath', Path.components_descend hplain' settings.modelRoot] at hcomponents
    exact ((List.map_inj_right fun _ _ => Component.name.inj).mp
      (List.append_cancel_left hcomponents)).symm

/-! ### All files loaded -/

theorem loadAll_of_collect {found : List FoundFile} (h : collect s.settings d = .ok found) :
    loadAll mode s d = takeAll mode d (internAll s found).1 (internAll s found).2 0 := by
  unfold loadAll
  rw [h]

section Loaded

variable {found : List FoundFile} (hfound : collect s.settings d = .ok found)

include hfound

theorem name?_of_loadAll (mode : LoadMode) {job : FileId × FoundFile}
    (hjob : job ∈ (internAll s found).2) :
    (loadAll mode s d).1.registry.name? job.1 = some job.2.name := by
  rw [loadAll_of_collect hfound, registry_takeAll]
  exact Store.assigned_internAll found s job hjob

/-- **What reading a file gave stays**, unless its twin is read behind it. -/
theorem hasRead_of_loadAll (h : loadAll mode s d = (t, .ok total)) (hd : d.Plain)
    {jobs after : List (FileId × FoundFile)}
    (hjobs : (internAll s found).2 = jobs ++ (id, f) :: after)
    (htwins : ∀ g ∈ after.map Prod.snd, ¬Path.DotTwins f.path.components g.path.components) :
    t.HasRead id (readFile s.settings d id f) := by
  have htake := h
  rw [loadAll_of_collect hfound, hjobs] at htake
  refine hasRead_takeAll (fun job hjob hid => ?_) jobs (settings_internAll found s) htake
  have hmem : job ∈ (internAll s found).2 :=
    hjobs ▸ List.mem_append_right _ (List.mem_cons_of_mem _ hjob)
  have hf : (id, f) ∈ (internAll s found).2 := hjobs ▸ List.mem_append_right _ List.mem_cons_self
  have hname := name?_of_loadAll hfound mode hmem
  rw [hid, name?_of_loadAll hfound mode hf, Option.some.injEq, eq_comm,
    name_eq_iff_of_collect hd hfound (mem_of_mem_internAll found hf)
      (mem_of_mem_internAll found hmem)] at hname
  rw [hname.resolve_right (htwins _ (List.mem_map_of_mem hjob))]

end Loaded

end Workspace

/-- **Names tell model files apart, and each of them stays in the store**, but for twins.  Two model
files below a root have one name if they lie at one place, or are twins.  When the files of a
directory are loaded, each gets an id, which no other one has but its twin; and if all of them are
loaded, the store has under it what reading the file gave, unless the twin is read behind it. -/
theorem fileNames_exact (root : Path) (s : Store) (d : Disk) (mode : LoadMode) :
    (∀ {p q : Path} {name name' : String}, root.modelFileName? p = some name →
      root.modelFileName? q = some name' →
      ∃ below below', p.components = root.components ++ below ∧
      q.components = root.components ++ below' ∧
      (name = name' ↔ below = below' ∨ Path.DotTwins below below')) ∧
    ∀ {t : Store} {found : List FoundFile} {result : Except Source.LoadError Nat},
      s.Reachable → d.Plain → collect s.settings d = .ok found → loadAll mode s d = (t, result) →
      ∀ {before after : List FoundFile} {f : FoundFile}, found = before ++ f :: after →
        ∃ id, t.registry.get? f.name = some id ∧
          (∀ g ∈ found, t.registry.get? g.name = some id ↔
            g = f ∨ Path.DotTwins f.path.components g.path.components) ∧
          ∀ total, result = .ok total →
          (∀ g ∈ after, ¬Path.DotTwins f.path.components g.path.components) →
            t.HasRead id (readFile s.settings d id f) := by
  constructor
  · intro p q name name' hp hq
    obtain ⟨below, hbelow⟩ := Path.exists_below hp
    obtain ⟨below', hbelow'⟩ := Path.exists_below hq
    exact ⟨below, below', hbelow, hbelow', Path.modelFileName?_eq_iff hp hq hbelow hbelow'⟩
  · intro t found result hs hd hfound hload before after f hf
    have hreachable := hs.loadAll mode d
    -- the job of `f` among those of all files
    obtain ⟨jobs, behind, hjobs, rfl, hbehind⟩ :=
      List.map_eq_append_iff.mp ((files_internAll found s).trans hf)
    obtain ⟨⟨id, f⟩, jobsAfter, rfl, rfl, rfl⟩ := List.map_eq_cons_iff.mp hbehind
    have hjob : (id, f) ∈ (internAll s found).2 := hjobs ▸ List.mem_append_right
      _ List.mem_cons_self
    have hname := name?_of_loadAll hfound mode hjob
    rw [hload] at hreachable hname
    have hid := FileRegistry.get?_of_name? hreachable.drafted.names hname
    refine ⟨id, hid, fun g hg => ?_, fun total hresult => ?_⟩
    · rw [← name_eq_iff_of_collect hd hfound (mem_of_mem_internAll found hjob) hg]
      refine ⟨fun hgid => ?_, fun hsame => hsame ▸ hid⟩
      have hboth := (FileRegistry.get?_eq_some hgid).symm.trans (FileRegistry.get?_eq_some hid)
      exact Option.some.inj hboth
    · subst hresult
      exact hasRead_of_loadAll hfound hload hd hjobs

/-- A file and its twin. -/
def dotted : Disk :=
  ⟨[(["...tmd"], .file (.text "module: A")), (["..tmd"], .file (.text "module: B"))]⟩

theorem collect_dotted : collect {} dotted = .ok [⟨"..", ⟨"./...tmd"⟩⟩, ⟨"..", ⟨"./..tmd"⟩⟩] := by
  have hbelow : dotted.filesBelow [] = [["...tmd"], ["..tmd"]] := by
    rw [Disk.filesBelow_eq]
    exact List.mergeSort_of_pairwise (by decide +kernel)
  refine collect_eq_ok.mpr ⟨[], eq_ok_of_toOption (by decide +kernel), rfl, ?_⟩
  rw [hbelow]
  decide +kernel

theorem loadAll_dotted : ∃ t, loadAll .collect {} dotted = (t, .ok 2) := by
  have htotal : (loadAll .collect {} dotted).2.toOption = some 2 := by
    rw [loadAll_of_collect (s := {}) collect_dotted]
    decide +kernel
  exact ⟨(loadAll .collect {} dotted).1, Prod.ext rfl (eq_ok_of_toOption htotal)⟩

/-- Both are loaded under one id, and what was read last is there. -/
theorem fileNames_exact_of_dotted : ∃ t id, loadAll .collect {} dotted = (t, .ok 2) ∧
    t.registry.get? ".." = some id ∧
    t.HasRead id (readFile ({} : Store).settings dotted id ⟨"..", ⟨"./..tmd"⟩⟩) := by
  have hplain : dotted.Plain := by decide +kernel
  have hlast : [(⟨"..", ⟨"./...tmd"⟩⟩ : FoundFile), ⟨"..", ⟨"./..tmd"⟩⟩]
      = [⟨"..", ⟨"./...tmd"⟩⟩] ++ ⟨"..", ⟨"./..tmd"⟩⟩ :: [] := rfl
  obtain ⟨t, hload⟩ := loadAll_dotted
  obtain ⟨id, hid, -, hread⟩ :=
    (fileNames_exact ⟨"."⟩ {} dotted .collect).2 (.new {}) hplain collect_dotted hload hlast
  exact ⟨t, id, hload, hid, hread 2 rfl (List.forall_mem_nil _)⟩

end EntityModel
