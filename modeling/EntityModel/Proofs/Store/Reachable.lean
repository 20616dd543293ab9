import EntityModel.Proofs.Loading.Numbering
import EntityModel.Proofs.Source.Tables
import EntityModel.Store.Basic
import Mathlib.Data.List.Induction

/-!
# Reachable stores

A store comes about by loading files from texts or from a disk, noting failures, removing files and
linking, in any order.  Whatever the order, its drafts stand under their own ids in ascending order,
carry the names that the ids were dealt out for, and are as loading left them (`Reachable.drafted`).
Linking starts from the model of these drafts, which is numbered and in which nothing points
anywhere yet.
-/

namespace EntityModel.Store

/-- The stores that can come about. -/
inductive Reachable : Store → Prop
  | new (settings : Settings) : Reachable { settings }
  | intern {s : Store} (h : Reachable s) (name : String) : Reachable (s.intern name).1
  | load {s : Store} (h : Reachable s) (name source : String) : Reachable (s.loadFile name source).1
  /-- A file read from a disk. -/
  | read {s : Store} (h : Reachable s) {id : FileId} {name source : String}
    {file : Option ModelFile}
      (path : Path) : s.registry.name? id = some name →
      ModelFile.load id name source s.settings.app s.naming = .ok file →
      Reachable (s.putLoaded id (file.map fun f => { f with path := some path }))
  | fail {s : Store} (h : Reachable s) (id : FileId) (error : Source.LoadError) :
      Reachable (s.setFailure id error)
  | remove {s : Store} (h : Reachable s) (id : FileId) : Reachable (s.removeFile id)
  | link {s : Store} (h : Reachable s) : Reachable s.link.1

/-- The model that linking starts from. -/
def draftModel (s : Store) : Model := ⟨s.drafts.values⟩

/-- The drafts are as loading left them. -/
structure Drafted (s : Store) : Prop where
  sorted : s.drafts.Sorted
  names : s.registry.names.Nodup
  drafts : ∀ id f, (id, f) ∈ s.drafts →
    f.id = id ∧ s.registry.name? id = some f.name ∧ f.Numbered ∧ f.Fresh

variable {s : Store}

theorem intern_eq (s : Store) (name : String) :
    s.intern name
      = ({ s with registry := (s.registry.intern name).1 }, (s.registry.intern name).2) := rfl

theorem name?_intern (s : Store) (name : String) :
    (s.intern name).1.registry.name? (s.intern name).2 = some name := by
  rw [intern_eq]
  exact FileRegistry.name?_intern s.registry name

theorem Drafted.intern (h : s.Drafted) (name : String) : (s.intern name).1.Drafted where
  sorted := h.sorted
  names := FileRegistry.nodup_intern h.names name
  drafts id f hf := by
    obtain ⟨hid, hname, hf⟩ := h.drafts id f hf
    exact ⟨hid, FileRegistry.name?_intern_of_name? hname name, hf⟩

theorem Drafted.removeFile (h : s.Drafted) (id : FileId) : (s.removeFile id).Drafted where
  sorted := h.sorted.erase id
  names := h.names
  drafts other f hf := h.drafts other f (FileTable.mem_of_mem_erase hf).1

theorem Drafted.insertFile (h : s.Drafted) {f : ModelFile}
    (hname : s.registry.name? f.id = some f.name)
    (hnum : f.Numbered) (hfresh : f.Fresh) : (s.insertFile f).Drafted where
  sorted := h.sorted.insert f.id f
  names := h.names
  drafts id g hg := by
    rcases FileTable.mem_of_mem_insert hg with he | hg
    · obtain ⟨rfl, rfl⟩ := Prod.mk.inj he
      exact ⟨rfl, hname, hnum, hfresh⟩
    · exact h.drafts id g hg

theorem Drafted.putLoaded (h : s.Drafted) {id : FileId} {name source app : String}
    {naming : NamingRules} {file : Option ModelFile} (hname : s.registry.name? id = some name)
    (hload : ModelFile.load id name source app naming = .ok file) (set : ModelFile → ModelFile)
    (hset : ∀ f : ModelFile, ∃ path, set f = { f with path }) :
    (s.putLoaded id (file.map set)).Drafted := by
  cases file with
  | none => exact h.removeFile id
  | some f =>
    obtain ⟨hid, hfile, hnum⟩ := ModelFile.numbered_of_load hload
    have hfresh := ModelFile.fresh_of_load hload
    obtain ⟨path, he⟩ := hset f
    refine h.insertFile (f := set f) ?_ ?_ ?_
    · rw [he, hid, hfile]
      exact hname
    · exact hnum.of_shape (by rw [he]; rfl)
    · rw [he]
      unfold ModelFile.Fresh at hfresh ⊢
      exact congrArg (fun f : ModelFile => { f with path }) hfresh

theorem link_eq (s : Store) : s.link.1 = { s with
    model := s.linked.model
    diagnostics := Diagnostics.byFile s.settings.suppressed s.linked.problems
    dirty := false } := rfl

theorem mem_loadedIds {id : FileId} :
    id ∈ s.loadedIds ↔ id ∈ s.drafts.keys ∨ id ∈ s.failures.keys :=
  List.mem_mergeSort.trans List.mem_append

theorem loadedIds_link (s : Store) : s.link.1.loadedIds = s.loadedIds := by
  rw [link_eq, loadedIds, loadedIds]

theorem loadFile_eq (s : Store) (name source : String) :
    (s.loadFile name source).1
      = match ModelFile.load (s.intern name).2 name source s.settings.app s.naming with
        | .error _ => (s.intern name).1
        | .ok file => (s.intern name).1.putLoaded (s.intern name).2 file := by
  show (match ModelFile.load (s.intern name).2 name source s.settings.app s.naming with
    | .error e => ((s.intern name).1, Except.error e)
    | .ok file => ((s.intern name).1.putLoaded (s.intern name).2 file,
        Except.ok (file.map fun _ => (s.intern name).2))).1 = _
  cases ModelFile.load (s.intern name).2 name source s.settings.app s.naming <;> rfl

theorem Drafted.loadFile (h : s.Drafted) (name source : String) :
    (s.loadFile name source).1.Drafted := by
  rw [loadFile_eq]
  have hi := h.intern name
  cases hload : ModelFile.load (s.intern name).2 name source s.settings.app s.naming with
  | error e => exact hi
  | ok file =>
    have := hi.putLoaded (name?_intern s name) hload (fun f => f) fun f => ⟨f.path, rfl⟩
    rwa [Option.map_id'] at this

/-- **The drafts of a reachable store are as loading left them.** -/
theorem Reachable.drafted (h : s.Reachable) : s.Drafted := by
  induction h with
  | new settings => exact ⟨List.Pairwise.nil, List.nodup_nil, by simp⟩
  | intern _ name ih => exact ih.intern name
  | @load s _ name source ih =>
    exact ih.loadFile name source
  | @read s _ _ _ _ file path hname hload ih =>
    exact ih.putLoaded hname hload _ fun f => ⟨some path, rfl⟩
  | fail _ id error ih => exact ⟨ih.sorted.erase id, ih.names, fun other f hf =>
      ih.drafts other f (FileTable.mem_of_mem_erase hf).1⟩
  | remove _ id ih => exact ih.removeFile id
  | link _ ih =>
    rw [link_eq]
    exact ⟨ih.sorted, ih.names, ih.drafts⟩

/-- What fresh stores have and what is kept when a name is interned, a file put in, removed or noted
as failed and when a link is made, every reachable store has. -/
theorem Reachable.of_kept {P : Store → Prop} (new : ∀ settings : Settings, P { settings })
    (intern : ∀ s name, P s → P (s.intern name).1) (insert : ∀ s f, P s → P (s.insertFile f))
    (remove : ∀ s id, P s → P (s.removeFile id))
    (fail : ∀ s id error, P s → P (s.setFailure id error))
    (link : ∀ s, s.Reachable → P s → P s.link.1) (h : s.Reachable) : P s := by
  have hput : ∀ s id file, P s → P (s.putLoaded id file) := fun s id file hs => by
    cases file with
    | none => exact remove s id hs
    | some f => exact insert s f hs
  induction h with
  | new settings => exact new settings
  | intern _ name ih => exact intern _ name ih
  | @load s _ name source ih =>
    rw [loadFile_eq]
    cases ModelFile.load (s.intern name).2 name source s.settings.app s.naming with
    | error e => exact intern s name ih
    | ok file => exact hput _ _ file (intern s name ih)
  | read _ _ _ _ ih => exact hput _ _ _ ih
  | fail _ id error ih => exact fail _ id error ih
  | remove _ id ih => exact remove _ id ih
  | link h ih => exact link _ h ih

/-- What holds without files and of every model that is linked, the model of a store has, whatever
was loaded or removed since it was linked. -/
theorem Reachable.of_linked {P : Model → Prop} (empty : P ⟨[]⟩)
    (linked : ∀ s : Store, s.Reachable → P s.link.1.model) (h : s.Reachable) : P s.model :=
  h.of_kept (P := fun s => P s.model) (fun _ => empty) (fun _ _ h => h) (fun _ _ h => h)
    (fun _ _ h => h) (fun _ _ _ h => h) fun s hs _ => linked s hs

/-- **What loading makes of every text, every draft is**, wherever it was read from. -/
theorem Reachable.forall_drafts {P : ModelFile → Prop}
    (hload : ∀ {id name source app naming f},
      ModelFile.load id name source app naming = .ok (some f) →
      ∀ path, P { f with path })
    (h : s.Reachable) : ∀ f ∈ s.draftModel.files, P f := by
  have hput : ∀ {s : Store} (id : FileId) (file : Option ModelFile),
      (∀ x ∈ s.drafts, P x.2) → (∀ f, file = some f → P f) →
      ∀ x ∈ (s.putLoaded id file).drafts, P x.2 := by
    intro s id file hs hfile x hx
    cases file with
    | none => exact hs x (FileTable.mem_of_mem_erase hx).1
    | some f =>
      rcases FileTable.mem_of_mem_insert hx with rfl | hx
      · exact hfile f rfl
      · exact hs x hx
  have hdrafts : ∀ x ∈ s.drafts, P x.2 := by
    induction h with
    | new settings => simp
    | intern _ name ih => exact ih
    | @load s _ name source ih =>
      rw [loadFile_eq]
      cases hloaded : ModelFile.load (s.intern name).2 name source s.settings.app s.naming with
      | error e => exact ih
      | ok file => exact hput _ file ih fun f hf => hload (hf ▸ hloaded) f.path
    | @read s _ id name source file path _ hloaded ih =>
      refine hput id _ ih fun f hf => ?_
      obtain ⟨f₀, rfl, rfl⟩ := Option.map_eq_some_iff.mp hf
      exact hload hloaded _
    | fail _ id error ih => exact fun x hx => ih x (FileTable.mem_of_mem_erase hx).1
    | remove _ id ih => exact hput id none ih (by simp)
    | link _ ih =>
      rw [link_eq]
      exact ih
  intro f hf
  obtain ⟨x, hx, rfl⟩ := List.mem_map.mp hf
  exact hdrafts x hx

/-! ### The model of the drafts -/

theorem Drafted.mem_files (h : s.Drafted) {f : ModelFile} (hf : f ∈ s.draftModel.files) :
    (f.id, f) ∈ s.drafts := by
  obtain ⟨⟨id, g⟩, hmem, rfl⟩ := List.mem_map.mp hf
  rw [(h.drafts id g hmem).1]
  exact hmem

theorem Drafted.ids (h : s.Drafted) : s.draftModel.files.map (·.id) = s.drafts.keys := by
  unfold draftModel FileTable.values FileTable.keys
  rw [List.map_map]
  exact List.map_congr_left fun ⟨id, f⟩ hf => (h.drafts id f hf).1

theorem Drafted.numbered (h : s.Drafted) : s.draftModel.Numbered := by
  refine Model.numbered_iff.mpr ⟨?_, fun f hf => (h.drafts _ f (h.mem_files hf)).2.2.1⟩
  rw [h.ids]
  exact h.sorted.nodup

theorem Drafted.fresh (h : s.Drafted) {f : ModelFile} (hf : f ∈ s.draftModel.files) : f.Fresh :=
  (h.drafts _ f (h.mem_files hf)).2.2.2

theorem Drafted.name_inj (h : s.Drafted) {f g : ModelFile} (hf : f ∈ s.draftModel.files)
    (hg : g ∈ s.draftModel.files) (he : f.name = g.name) : f = g := by
  have hfn := (h.drafts _ f (h.mem_files hf)).2.1
  have hgn := (h.drafts _ g (h.mem_files hg)).2.1
  rw [← he] at hgn
  exact List.inj_on_of_nodup_map h.numbered.files hf hg (FileRegistry.name?_inj h.names hfn hgn)

theorem linked_model (s : Store) : s.linked.model = (s.draftModel.link s.naming).model := rfl

theorem link_model (s : Store) : s.link.1.model = (s.draftModel.link s.naming).model := by
  rw [link_eq, ← linked_model]

/-! ### Stores loaded from texts -/

/-- A fresh store in which the texts are loaded one after another, each under its name. -/
def loadAll (settings : Settings) (sources : List (String × String)) : Store :=
  sources.foldl (fun s x => (s.loadFile x.1 x.2).1) { settings }

theorem loadAll_concat (settings : Settings) (sources : List (String × String))
    (x : String × String) :
    loadAll settings (sources ++ [x]) = ((loadAll settings sources).loadFile x.1 x.2).1 := by
  rw [loadAll, List.foldl_append]
  rfl

theorem reachable_loadAll (settings : Settings) (sources : List (String × String)) :
    (loadAll settings sources).Reachable := by
  induction sources using List.reverseRecOn with
  | nil => exact .new settings
  | append_singleton sources x ih =>
    rw [loadAll_concat]
    exact .load ih x.1 x.2

def loadSpelled (s : Store) (name : String) (text : List Char) : Store :=
  let id := (s.intern name).2
  match Source.eventsOf id name text >>= ModelFile.ofEvents id name s.settings.app s.naming with
  | .error _ => (s.intern name).1
  | .ok file => (s.intern name).1.putLoaded id file

theorem loadFile_eq_loadSpelled {name source : String} {text : List Char}
    (h : source.toList = text) :
    (s.loadFile name source).1 = s.loadSpelled name text := by
  rw [loadFile_eq, ← h]
  rfl

theorem toList_append_eq {front back : String} {a b : List Char} (ha : front.toList = a)
    (hb : back.toList = b) : (front ++ back).toList = a ++ b := by
  rw [String.toList_append, ha, hb]

/-- The texts letter by letter. -/
inductive Spelled : List (String × String) → List (String × List Char) → Prop
  | nil : Spelled [] []
  | cons {name source : String} {text : List Char} {sources : List (String × String)}
      {spelled : List (String × List Char)} : source.toList = text → Spelled sources spelled →
      Spelled ((name, source) :: sources) ((name, text) :: spelled)

/-- **Loading texts is loading their letters.**  A store of given texts is evaluated in this form: a
text is stored as bytes, and to read letters off bytes takes the kernel longer than all the rest. -/
theorem loadAll_eq_foldl {settings : Settings} {sources : List (String × String)}
    {spelled : List (String × List Char)} (h : Spelled sources spelled) :
    loadAll settings sources = spelled.foldl (fun s x => s.loadSpelled x.1 x.2) { settings } := by
  unfold loadAll
  generalize ({ settings } : Store) = s
  induction h generalizing s with
  | nil => rfl
  | cons htext _ ih =>
    rw [List.foldl_cons, List.foldl_cons, loadFile_eq_loadSpelled htext]
    exact ih _

end EntityModel.Store
